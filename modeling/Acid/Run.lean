import Acid.Object

set_option autoImplicit false

/-!
# `collector_run`, the tasks and the runs of the system

A step is a whole mutator call, one iteration of a loop of `collector_run`, its
entry or exit check, or a delete task. A started `collector_run` waits in
`running` at its next loop; every task of `work` may be taken at any time, as a
worker that holds it may be delayed, so runs have any number of workers.
-/
namespace Acid

/-- The list that a loop polls. -/
def Loop.list : Loop → ListName
  | .merged => .merged
  | .collect => .collect
  | .recovery => .recovery
  | .rebuild => .rebuild
  | .clean => .clean
  | .exit => .clean

def Loop.next : Loop → Loop
  | .merged => .collect
  | .collect => .recovery
  | .recovery => .rebuild
  | .rebuild => .clean
  | .clean => .exit
  | .exit => .exit

/-- What a loop of `collector_run` does with the object it has polled. -/
def loopBody (s : State) (c : ℕ) (loop : Loop) (obj : ℕ) : State :=
  match loop with
  | .merged => safelistAdd s (c, .recovery) obj
  | .collect => safelistAdd (objectPhantomizeNode s obj) (c, .recovery) obj
  | .recovery => safelistAdd (objectRecoverNode s obj c) (c, .clean) obj
  | .rebuild => objectRecoverNode s obj c
  | .clean => objectCleanNode s obj
  | .exit => s

/-- One iteration: poll and process, or leave the loop. -/
def loopIteration (s : State) (c : ℕ) (loop : Loop) : State × Loop :=
  match safelistPoll s (c, loop.list) with
  | (s, none) => (s, loop.next)
  | (s, some obj) =>
    (loopBody (s.check ((s.objects obj).freed = false) (.useAfterFree obj)) c loop obj, loop)

/-- The exit check; `true` asks for another run. -/
def collectorExit (s : State) (c : ℕ) : State × Bool :=
  if counterDone s c then (collectorDestroy (collectorTerminate s c) c, false) else (s, true)

/-- The entry check of the run task at position `i` of the work list. -/
def collectorEnter (s : State) (i c : ℕ) : State :=
  let s := { s with work := s.work.eraseIdx i }
  if counterContinueWaiting s c then s.addTask (.run c)
  else { s with running := s.running ++ [(c, .merged)] }

/-- One step of the `i`-th started `collector_run`. -/
def runIteration (s : State) (i c : ℕ) (loop : Loop) : State :=
  if loop = .exit then
    let (s, again) := collectorExit s c
    let s := { s with running := s.running.eraseIdx i }
    if again then s.addTask (.run c) else s
  else
    let (s, loop) := loopIteration s c loop
    { s with running := s.running.set i (c, loop) }

/-- `incStrong` and `decStrong` are the external claims of `acid_harden` and
`acid_dissolve`; `initStrong` is an allocation, with or without a destructor. -/
inductive Action where
  | initStrong (dtor : Bool)
  | incStrong (o : ℕ)
  | decStrong (o : ℕ)
  | set (o fieldOffset : ℕ) (referent : Option ℕ)
  | enter (i c : ℕ)
  | iterate (i c : ℕ) (loop : Loop)
  | delete (i o : ℕ)

/-- Mutators name reachable objects only and drop only claims held. -/
def Enabled (s : State) : Action → Prop
  | .initStrong _ => True
  | .incStrong o => Reachable s o
  | .decStrong o => 0 < s.claims o
  | .set o _ none => Reachable s o
  | .set o _ (some r) => Reachable s o ∧ Reachable s r
  | .enter i c => s.work[i]? = some (.run c)
  | .iterate i c loop => s.running[i]? = some (c, loop)
  | .delete i o => s.work[i]? = some (.delete o)

def State.addClaim (s : State) (o : ℕ) : State :=
  { s with claims := Function.update s.claims o (s.claims o + 1) }

def State.dropClaim (s : State) (o : ℕ) : State :=
  { s with claims := Function.update s.claims o (s.claims o - 1) }

def exec (s : State) : Action → State
  | .initStrong d =>
    let (s, o) := objectInitStrong s
    (s.modifyObject o fun h => { h with dtor := d }).addClaim o
  | .incStrong o => (objectIncStrong s o).addClaim o
  | .decStrong o => objectDecStrong (s.dropClaim o) o
  | .set o f r => objectSet s o f r
  | .enter i c => collectorEnter s i c
  | .iterate i c loop => runIteration s i c loop
  | .delete i o => objectRequestDeleteTaskRun { s with work := s.work.eraseIdx i } o

/-- The states of the runs from `s₀` all of whose steps meet the condition `ok`. -/
inductive Run (ok : State → Action → Prop) (s₀ : State) : State → Prop where
  | start : Run ok s₀ s₀
  | step {s : State} {a : Action} (run : Run ok s₀ s) (enabled : Enabled s a) (meets : ok s a) :
      Run ok s₀ (exec s a)

/-- No condition. -/
def anyStep : State → Action → Prop := fun _ _ => True

/-- The world just after `acid_start`. -/
def initial : State := {}

theorem Run.mono {ok ok' : State → Action → Prop} (h : ∀ s a, ok s a → ok' s a) {s₀ s : State}
    (run : Run ok s₀ s) : Run ok' s₀ s := by
  induction run with
  | start => exact .start
  | step _ he hm ih => exact .step ih he (h _ _ hm)

/-- An invariant of every step is an invariant of every run. -/
theorem Run.invariant {ok : State → Action → Prop} {s₀ : State} (I : State → Prop) (hi : I s₀)
    (hstep : ∀ s a, I s → Enabled s a → ok s a → I (exec s a)) {s : State}
    (run : Run ok s₀ s) : I s := by
  induction run with
  | start => exact hi
  | step _ he hm ih => exact hstep _ _ ih he hm

end Acid

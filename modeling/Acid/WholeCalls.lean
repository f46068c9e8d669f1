import Acid.RebuildLists
import Acid.Stages

set_option autoImplicit false

/-!
# Calls that are not interleaved

Between whole calls no rebuild list holds an object. A call of `collector_run` puts live objects
into its own rebuild list, and empties it before it goes on to its clean loop.
-/
namespace Acid
open PointerForest

/-- The elements of rebuild lists while `c` is in the given loop. -/
structure Rebuilds (s : State) (c : ℕ) (loop : Loop) : Prop where
  own : ∀ {a}, (s.safelist (a, .rebuild)).data ≠ [] → a = c ∧ (loop = .recovery ∨ loop = .rebuild)
  linked : ∀ {a x}, x ∈ (s.safelist (a, .rebuild)).data → ∃ l, InTable s l ∧ (s.links l).target = x

/-- A call of `collector_run` that nothing has interrupted. -/
structure Alone (s : State) (c : ℕ) (loop : Loop) : Prop extends Rebuilds s c loop where
  run : Run anyStep initial s
  running : s.running = [(c, loop)]

namespace Alone
variable {s : State} {c : ℕ} {loop : Loop} (h : Alone s c loop)
include h

theorem first : s.running[0]? = some (c, loop) := by
  rw [h.running]
  rfl

theorem next_run : Run anyStep initial (runIteration s 0 c loop) :=
  h.run.step (a := .iterate 0 c loop) h.first trivial

theorem listed_inUse {r : ListRef} {x : ℕ} (hm : x ∈ (s.safelist r).data) : InUse s x := by
  obtain ⟨a, n⟩ := r
  by_cases hn : n = .rebuild
  · subst hn
    obtain ⟨l, hl, ht⟩ := h.linked hm
    exact ht ▸ h.run.anySound.inUse_of_inTable hl
  · exact h.run.anySound.inUse_of_listed ⟨_, hn, hm⟩

section
variable (hloop : loop ≠ .exit) {obj : ℕ} {rest : List ℕ}
  (hd : (s.safelist (c, loop.list)).data = obj :: rest)
include hloop hd

/-- A rebuild list that holds objects after an iteration did so before, or is that of `c`. -/
theorem own_iterate {a x : ℕ} (hx : x ∈ ((runIteration s 0 c loop).safelist (a, .rebuild)).data) :
    (a = c ∧ (loop = .recovery ∨ loop = .rebuild)) ∧
      ((layout s).Rebuilt x ∨ ∃ l, InTable s l ∧ (s.links l).target = x) := by
  have hs := h.run.anySound
  have hlay := layout_iterate s 0 c loop hloop hd
  have hpoll := layout_afterPoll loop hd
  have hold : ((layout s).poll (c, loop.list)).Rebuilt x → loop = .recovery ∨ loop = .rebuild := by
    intro hx
    obtain ⟨_, hm⟩ := Layout.rebuilt_poll hx
    exact (h.own (List.ne_nil_of_mem hm)).2
  have hrebuild : ∀ {xs : List ℕ}, (loop = .recovery ∨ loop = .rebuild) →
      (∀ y ∈ xs, ∃ l ∈ (s.objects obj).links.values, (s.links l).target = y) →
      (((layout s).poll (c, loop.list)).rebuild c xs).data (a, .rebuild) ≠ [] →
      (((layout s).poll (c, loop.list)).rebuild c xs).Rebuilt x →
      (a = c ∧ (loop = .recovery ∨ loop = .rebuild)) ∧
        ((layout s).Rebuilt x ∨ ∃ l, InTable s l ∧ (s.links l).target = x) := by
    intro xs hr hxs hne hm
    constructor
    · rcases Layout.rebuild_ne_nil hne with heq | hne
      · exact ⟨congrArg Prod.fst heq, hr⟩
      · exact h.own (Layout.poll_ne_nil hne)
    · refine (Layout.rebuilt_rebuild hm).imp Layout.rebuilt_poll fun hx => ?_
      obtain ⟨l, hl, ht⟩ := hxs x hx
      exact ⟨l, ⟨obj, (hs.live_of_entry hl).1, hl⟩, ht⟩
  have hmem : x ∈ (layout (exec s (.iterate 0 c loop))).data (a, .rebuild) := hx
  rw [hlay] at hmem
  cases loop with
  | merged =>
    rw [hs.layout_merged hd, hpoll] at hmem
    have hr := hold (Layout.rebuilt_push (by simp) ⟨a, hmem⟩)
    simp at hr
  | collect =>
    obtain ⟨e, n, hmoves, hn, _, heq⟩ := hs.layout_collect hd
    rw [heq] at hmem
    rw [hpoll] at hmoves
    have hn' : n ≠ .rebuild := by
      rcases hn with rfl | rfl <;> simp
    have hr := hold (hmoves.rebuilt (Layout.rebuilt_push hn' ⟨a, hmem⟩))
    simp at hr
  | recovery =>
    obtain ⟨xs, hxs, _, hlinks⟩ := hs.layout_recover h.first hd
    rw [hs.layout_recovery h.first hd hxs, hpoll] at hmem
    rcases Layout.push_ne_nil (List.ne_nil_of_mem hmem) with heq | hne
    · cases congrArg Prod.snd heq
    · refine hrebuild (.inl rfl) (fun y hy => ?_) hne (Layout.rebuilt_push (by simp) ⟨a, hmem⟩)
      obtain ⟨_, _, l, hl, _, ht⟩ := hlinks y hy
      exact ⟨l, hl, ht⟩
  | rebuild =>
    obtain ⟨xs, hxs, _, hlinks⟩ := hs.layout_recover h.first hd
    change x ∈ (layout (objectRecoverNode (afterPoll s c .rebuild obj) obj c)).data _ at hmem
    rw [hxs, hpoll] at hmem
    refine hrebuild (.inr rfl) (fun y hy => ?_) (List.ne_nil_of_mem hmem) ⟨a, hmem⟩
    obtain ⟨_, _, l, hl, _, ht⟩ := hlinks y hy
    exact ⟨l, hl, ht⟩
  | clean =>
    have hmoves := hs.layout_clean hd
    rw [hpoll] at hmoves
    have hr := hold (hmoves.rebuilt ⟨a, hmem⟩)
    simp at hr
  | exit => exact absurd rfl hloop

end

/-- The loops that rebuild links free none and take none out of a table. -/
theorem linked_iterate (hr : loop = .recovery ∨ loop = .rebuild) {x : ℕ}
    (hx : ∃ l, InTable s l ∧ (s.links l).target = x) :
    ∃ l, InTable (runIteration s 0 c loop) l ∧ ((runIteration s 0 c loop).links l).target = x := by
  have hs := h.run.anySound
  have hstep := exec_heapStep hs rfl (a := .iterate 0 c loop) h.first
  have hfreed : freedBy s (.iterate 0 c loop) = [] := by
    rcases hr with rfl | rfl <;> rfl
  obtain ⟨l, hl, ht⟩ := hx
  obtain ⟨o, _, ho⟩ := id hl
  refine ⟨l, (hstep.inTable_iff hs.tables l).mpr (.inl ⟨hl, ?_, ?_⟩),
    (hstep.target (hs.tables.owned ho).1).trans ht⟩
  · rw [hfreed]
    exact List.not_mem_nil
  · exact List.not_mem_nil

/-- One step of the run that is under way. -/
theorem step : ((runIteration s 0 c loop).running = [] ∧
      ∀ a, ((runIteration s 0 c loop).safelist (a, .rebuild)).data = []) ∨
    ∃ next, Alone (runIteration s 0 c loop) c next := by
  have hs := h.run.anySound
  have hsame : (loop = .exit ∨ (s.safelist (c, loop.list)).data = []) → ∀ a,
      ((runIteration s 0 c loop).safelist (a, .rebuild)).data = (s.safelist (a, .rebuild)).data :=
    fun hd a => hs.data_iterate 0 c hd (a, .rebuild)
  rcases runIteration_running h.running with ⟨hloop, he⟩ | ⟨hloop, hnil, he⟩ | ⟨hloop, hne, he⟩
  · refine .inl ⟨he, fun a => ?_⟩
    rw [hsame (.inl hloop)]
    by_contra hne
    simpa [hloop] using (h.own hne).2
  · refine .inr ⟨loop.next, ⟨⟨fun {a} hne => ?_, fun {a x} hm => ?_⟩, h.next_run, he⟩⟩
    · rw [hsame (.inr hnil)] at hne
      obtain ⟨rfl, hr⟩ := h.own hne
      refine ⟨rfl, ?_⟩
      rcases hr with rfl | rfl
      · exact .inr rfl
      · exact absurd hnil hne
    · rw [hsame (.inr hnil)] at hm
      exact h.linked_iterate (h.own (List.ne_nil_of_mem hm)).2 (h.linked hm)
  · obtain ⟨obj, rest, hd⟩ := List.exists_cons_of_ne_nil hne
    refine .inr ⟨loop, ⟨⟨fun {a} hne => ?_, fun {a x} hm => ?_⟩, h.next_run, he⟩⟩
    · obtain ⟨x, hx⟩ := List.exists_mem_of_ne_nil _ hne
      exact (h.own_iterate hloop hd hx).1
    · obtain ⟨⟨_, hr⟩, hbefore⟩ := h.own_iterate hloop hd hm
      apply h.linked_iterate hr
      rcases hbefore with ⟨b, hb⟩ | hlink
      · exact h.linked hb
      · exact hlink

end Alone

theorem Alone.iterated {s : State} {c : ℕ} {loop next : Loop} (h : Alone s c loop)
    (hrunning : (runIteration s 0 c loop).running = [(c, next)]) :
    Alone (runIteration s 0 c loop) c next := by
  rcases h.step with ⟨hend, _⟩ | ⟨next', halone⟩
  · rw [hrunning] at hend
    cases hend
  · have heq := halone.running
    rw [hrunning] at heq
    cases heq
    exact halone

/-- The run goes on to its end. -/
theorem runSteps_alone {n : ℕ} {s s' : State} {c : ℕ} {loop : Loop} (h : Alone s c loop)
    (hr : runSteps n s = some s') : ∀ a, (s'.safelist (a, .rebuild)).data = [] := by
  induction n generalizing s loop with
  | zero =>
    rw [runSteps, h.running] at hr
    cases hr
  | succ n ih =>
    rw [runSteps_cons n h.running] at hr
    rcases h.step with ⟨hend, hnil⟩ | ⟨next, hnext⟩
    · rw [runSteps_nil n hend] at hr
      exact Option.some.inj hr ▸ hnil
    · exact ih hnext hr

/-- The entry check leaves the lists as they are. -/
theorem collectorEnter_safelist (s : State) (i c : ℕ) (r : ListRef) :
    (collectorEnter s i c).safelist r = s.safelist r := by
  unfold collectorEnter
  dsimp only
  split_ifs <;> rfl

theorem Run.alone {s : State} {i c : ℕ} (run : Run anyStep initial s) (hrun : s.running = [])
    (hi : s.work[i]? = some (.run c)) (hnil : ∀ a, (s.safelist (a, .rebuild)).data = []) :
    (collectorEnter s i c).running = [] ∨ Alone (collectorEnter s i c) c .merged := by
  refine (collectorEnter_running hrun i c).imp id fun he => ?_
  have henter : Run anyStep initial (collectorEnter s i c) := run.step (a := .enter i c) hi trivial
  refine ⟨⟨fun hne => ?_, fun hm => ?_⟩, henter, he⟩
  · rw [collectorEnter_safelist, hnil] at hne
    exact absurd rfl hne
  · rw [collectorEnter_safelist, hnil] at hm
    cases hm

theorem WholeRun.rebuild_nil {ok : State → Action → Prop} {s : State} (h : WholeRun ok s) (a : ℕ) :
    (s.safelist (a, .rebuild)).data = [] := by
  induction h generalizing a with
  | start => rfl
  | @call s act run he hwhole _ ih =>
    have hmoves := run.run.1.anySound.exec_moves he fun i c loop heq => by
      rw [heq] at hwhole
      cases hwhole
    by_contra hne
    obtain ⟨x, hx⟩ := List.exists_mem_of_ne_nil _ hne
    obtain ⟨b, hm⟩ := hmoves.rebuilt ⟨a, hx⟩
    change x ∈ (s.safelist (b, .rebuild)).data at hm
    rw [ih] at hm
    cases hm
  | @collect s s' n i c run hi hr ih =>
    rcases run.run.1.alone run.run.2 hi ih with he | halone
    · rw [collectorRun, runSteps_nil n he] at hr
      rw [← Option.some.inj hr, collectorEnter_safelist]
      exact ih a
    · exact runSteps_alone halone hr a

/-- The states of whole runs, and those in the middle of a call of `collector_run`. -/
inductive Uninterrupted : State → Prop where
  | between {s : State} (run : WholeRun anyStep s) : Uninterrupted s
  | enter {s : State} {i c : ℕ} (run : WholeRun anyStep s) (enabled : s.work[i]? = some (.run c)) :
      Uninterrupted (collectorEnter s i c)
  | iterate {s : State} {c : ℕ} {loop : Loop} (run : Uninterrupted s)
      (running : s.running = [(c, loop)]) : Uninterrupted (runIteration s 0 c loop)

theorem Uninterrupted.cases {s : State} (h : Uninterrupted s) : Run anyStep initial s ∧
    ((s.running = [] ∧ ∀ a, (s.safelist (a, .rebuild)).data = []) ∨ ∃ c loop, Alone s c loop) := by
  induction h with
  | between run => exact ⟨run.run.1, .inl ⟨run.run.2, run.rebuild_nil⟩⟩
  | @enter s i c run hi =>
    refine ⟨run.run.1.step (a := .enter i c) hi trivial, ?_⟩
    refine (run.run.1.alone run.run.2 hi run.rebuild_nil).imp (fun he => ⟨he, fun a => ?_⟩)
      fun h => ⟨c, _, h⟩
    rw [collectorEnter_safelist]
    exact run.rebuild_nil a
  | @iterate s c loop _ hrun ih =>
    refine ⟨ih.1.step (a := .iterate 0 c loop) (by simp [Enabled, hrun]) trivial, ?_⟩
    rcases ih.2 with ⟨he, _⟩ | ⟨d, m, halone⟩
    · rw [hrun] at he
      cases he
    · have heq := halone.running
      rw [hrun] at heq
      cases heq
      rcases halone.step with hreturned | ⟨next, hnext⟩
      · exact .inl hreturned
      · exact .inr ⟨c, next, hnext⟩

/-- Without interleaving, no delete task may free an element of a list, and none has been freed:
whatever is rebuilt is polled again before another call can take its references. -/
theorem uninterrupted_noDeletion {s : State} (h : Uninterrupted s) :
    (∀ i x, Enabled s (.delete i x) → ∀ r, x ∉ (s.safelist r).data) ∧
      ∀ r, ∀ x ∈ (s.safelist r).data, (s.objects x).freed = false := by
  obtain ⟨hrun, hcases⟩ := h.cases
  have huse : ∀ r : ListRef, ∀ x ∈ (s.safelist r).data, InUse s x := by
    rintro ⟨a, n⟩ x hx
    rcases hcases with ⟨_, hnil⟩ | ⟨c, loop, halone⟩
    · refine hrun.anySound.inUse_of_listed ⟨(a, n), fun hn => ?_, hx⟩
      change n = .rebuild at hn
      rw [hn, hnil] at hx
      cases hx
    · exact halone.listed_inUse hx
  constructor
  · intro i x he r hx
    exact hrun.anySound.not_pending_of_inUse (huse r x hx) (.inl (List.mem_of_getElem? he))
  · intro r x hx
    exact (hrun.anySound.live_of_inUse (huse r x hx)).2

/-- The iterations of a call that has begun. -/
def iterations (c : ℕ) (s : State) (loops : List Loop) : State :=
  loops.foldl (fun s loop => runIteration s 0 c loop) s

def iterable (c : ℕ) : State → List Loop → Bool
  | _, [] => true
  | s, loop :: loops => s.running = [(c, loop)] && iterable c (runIteration s 0 c loop) loops

theorem Uninterrupted.iterations {c : ℕ} {s : State} {loops : List Loop} (h : Uninterrupted s)
    (hloops : iterable c s loops = true) : Uninterrupted (iterations c s loops) := by
  induction loops generalizing s with
  | nil => exact h
  | cons loop loops ih =>
    simp only [iterable, Bool.and_eq_true, decide_eq_true_eq] at hloops
    exact ih (h.iterate hloops.1) hloops.2

/-- The collector has recovered the object that links to another one twice: that one is in the
rebuild list, and its last phantom count is gone. -/
def rebuiltTwice : State :=
  iterations 0 (collectorEnter (replay initial (twiceLinked.take 7)) 0 0)
    [.merged, .collect, .collect, .recovery]

theorem uninterrupted_rebuiltTwice : Uninterrupted rebuiltTwice := by
  have hcalls : WholeRun anyStep (replay initial (twiceLinked.take 7)) :=
    @WholeRun.replay anyStep (fun _ _ => true) (fun _ _ _ => trivial) _ .start _ (by decide +kernel)
  have henter : Uninterrupted (collectorEnter (replay initial (twiceLinked.take 7)) 0 0) :=
    .enter hcalls (by decide +kernel)
  exact henter.iterations (by decide +kernel)

theorem uninterrupted_noDeletion_rebuiltTwice : (rebuiltTwice.objects 2).freed = false :=
  (uninterrupted_noDeletion uninterrupted_rebuiltTwice).2 (0, .rebuild) 2 (by decide +kernel)

/-! ## Sequences of calls -/

/-- The calls of the program and the tasks of the queue. -/
inductive WholeCall where
  | initStrong (dtor : Bool)
  | incStrong (o : ℕ)
  | decStrong (o : ℕ)
  | set (o fieldOffset : ℕ) (referent : Option ℕ)
  | delete (i o : ℕ)
  | collect (i c : ℕ)

def WholeCall.action : WholeCall → Action
  | .initStrong d => .initStrong d
  | .incStrong o => .incStrong o
  | .decStrong o => .decStrong o
  | .set o f r => .set o f r
  | .delete i o => .delete i o
  | .collect i c => .enter i c

/-- What the heap model makes of a call. -/
def WholeCall.Makes (s : State) : WholeCall → State → Prop
  | .collect i c, s' => s.work[i]? = some (.run c) ∧ ∃ n, collectorRun n s i c = some s'
  | call, s' => Enabled s call.action ∧ s' = exec s call.action

theorem WholeCall.Makes.wholeRun {ok : State → Action → Prop} {s s' : State} {call : WholeCall}
    (h : call.Makes s s') (run : WholeRun ok s) (allowed : ok s call.action) : WholeRun ok s' := by
  cases call with
  | collect i c =>
    obtain ⟨hi, n, hr⟩ := h
    exact run.collect hi hr
  | initStrong d => exact h.2 ▸ run.call h.1 rfl allowed
  | incStrong o => exact h.2 ▸ run.call h.1 rfl allowed
  | decStrong o => exact h.2 ▸ run.call h.1 rfl allowed
  | set o f r => exact h.2 ▸ run.call h.1 rfl allowed
  | delete i o => exact h.2 ▸ run.call h.1 rfl allowed

/-- A call that may be made returns. -/
theorem WholeCall.makes_of_enabled {ok : State → Action → Prop} {s : State} (run : WholeRun ok s)
    (call : WholeCall) (h : Enabled s call.action) : ∃ s', call.Makes s s' := by
  cases call with
  | collect i c =>
    obtain ⟨n, s', hs'⟩ := run.collectorRun_ends h
    exact ⟨s', h, n, hs' n (le_refl n)⟩
  | initStrong d => exact ⟨_, h, rfl⟩
  | incStrong o => exact ⟨_, h, rfl⟩
  | decStrong o => exact ⟨_, h, rfl⟩
  | set o f r => exact ⟨_, h, rfl⟩
  | delete i o => exact ⟨_, h, rfl⟩

/-- Calls that are made one after the other, each when it may be made and `P` allows it. -/
inductive Sequence (P : State → Action → Prop) : List WholeCall → State → Prop where
  | start : Sequence P [] initial
  | call {cs : List WholeCall} {s s' : State} {call : WholeCall} (run : Sequence P cs s)
      (makes : call.Makes s s') (allowed : P s call.action) : Sequence P (cs ++ [call]) s'

theorem Sequence.wholeRun {P : State → Action → Prop} {cs : List WholeCall} {s : State}
    (h : Sequence P cs s) : WholeRun P s := by
  induction h with
  | start => exact .start
  | call _ hmakes hallowed ih => exact hmakes.wholeRun ih hallowed

/-- The state after a call that may be made and that a test allows. -/
def WholeCall.play (test : State → Action → Bool) (k : ℕ) (s : State) (call : WholeCall) :
    Option State :=
  if test s call.action then
    match call with
    | .collect i c => if s.work[i]? = some (.run c) then collectorRun k s i c else none
    | call => if enabledTest s call.action then some (exec s call.action) else none
  else none

def playAll (test : State → Action → Bool) (k : ℕ) (s : State) (cs : List WholeCall) : Option State :=
  cs.foldlM (fun u call => call.play test k u) s

section
variable {P : State → Action → Prop} {test : State → Action → Bool} {k : ℕ}
  (hP : ∀ s a, test s a = true → P s a)
include hP

theorem WholeCall.makes_of_play {s s' : State} {call : WholeCall}
    (h : call.play test k s = some s') : call.Makes s s' ∧ P s call.action := by
  obtain ⟨ht, h⟩ := Option.ite_none_right_eq_some.mp h
  refine ⟨?_, hP s _ ht⟩
  have hother : ∀ {a : Action}, (if enabledTest s a then some (exec s a) else none) = some s' →
      Enabled s a ∧ s' = exec s a := by
    intro a ha
    obtain ⟨he, hs⟩ := Option.ite_none_right_eq_some.mp ha
    exact ⟨enabled_of_test he, (Option.some.inj hs).symm⟩
  cases call with
  | collect i c =>
    obtain ⟨hi, hr⟩ := Option.ite_none_right_eq_some.mp h
    exact ⟨hi, k, hr⟩
  | initStrong d => exact hother h
  | incStrong o => exact hother h
  | decStrong o => exact hother h
  | set o f r => exact hother h
  | delete i o => exact hother h

theorem Sequence.play {cs : List WholeCall} : ∀ {bs : List WholeCall} {s s' : State},
    Sequence P bs s → playAll test k s cs = some s' → Sequence P (bs ++ cs) s' := by
  induction cs with
  | nil =>
    intro bs s s' h hs
    rw [List.append_nil]
    exact Option.some.inj hs ▸ h
  | cons call cs ih =>
    intro bs s s' h hs
    obtain ⟨u, hu, hrest⟩ := Option.bind_eq_some_iff.mp hs
    obtain ⟨hmakes, hallowed⟩ := WholeCall.makes_of_play hP hu
    have hnext := ih (h.call hmakes hallowed) hrest
    rwa [List.append_assoc] at hnext

end

/-- A cycle with an object that it links to, the runs that collect it and the deletions. -/
def cycleCalls : List WholeCall :=
  [.initStrong false, .initStrong false, .initStrong true, .set 0 0 (some 1), .set 1 0 (some 0),
    .set 1 1 (some 2), .decStrong 0, .decStrong 1, .collect 0 0, .collect 0 1, .delete 0 1,
    .delete 0 0, .collect 0 1]

end Acid

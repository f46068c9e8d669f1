import Acid.TaskPool

set_option autoImplicit false

/-!
# `task_wait_for_zero_threads` and `acid_stop`

One thread waits while `N` others start, take and finish tasks. A wait may end at
any time, and the waiter then needs the mutex again, so other sections may come first.
-/
namespace Acid.WaitForZero
open TaskPool Tally

/-- Where the thread that calls `acid_stop` is: before the call, in `cnd_wait`, back from
`task_wait_for_zero_threads`, or past `endtime = true` of `workers_teardown`. -/
inductive Phase where
  | up | waiting | returned | closing
deriving DecidableEq

/-- `quiet`, a ghost, tells that no task was counted since the last `cnd_broadcast`. -/
structure World where
  pool : Pool := {}
  phase : Phase := .up
  quiet : Bool := false

/-- The mutex is taken, the count tested once, and `cnd_wait` gives the mutex up. -/
def taskWaitForZeroThreads (w : World) : World :=
  if 0 < w.pool.taskCount then { w with phase := .waiting } else { w with phase := .returned }

/-- `cnd_wait` has the mutex again; the count is not tested again. -/
def cndWaitReturn (w : World) : World := { w with phase := .returned }

def acidStopNonblocking (w : World) : World := { w with phase := .closing }

/-- The last section of `task_run` broadcasts where it leaves the count at zero. -/
def broadcasts (p : Pool) (i : ℕ) : TaskPool.Action → Bool
  | .finish =>
    match (p.threads i).held with
    | some (_, .done) => (taskRunFinish p i).taskCount = 0
    | _ => false
  | _ => false

/-- A section of `task.c` or `worker.c` in one of the other threads. -/
def runSection (w : World) (i : ℕ) (a : TaskPool.Action) : World :=
  { w with
    pool := TaskPool.exec w.pool i a
    quiet :=
      match a with
      | .start => false
      | a => broadcasts w.pool i a || w.quiet }

inductive Action where
  | wait
  | wake
  | teardown
  | task (i : ℕ) (a : TaskPool.Action)

def Enabled (N : ℕ) (w : World) : Action → Prop
  | .wait => w.phase = .up
  | .wake => w.phase = .waiting
  | .teardown => w.phase = .returned
  | .task i a => i < N ∧ TaskPool.Enabled w.pool i a

def exec (w : World) : Action → World
  | .wait => taskWaitForZeroThreads w
  | .wake => cndWaitReturn w
  | .teardown => acidStopNonblocking w
  | .task i a => runSection w i a

/-- The runs of `N` threads and the waiter, all of whose steps meet the condition `ok`. -/
inductive Run (N : ℕ) (ok : World → Action → Prop) : World → Prop where
  | init : Run N ok {}
  | step {w : World} {a : Action} (run : Run N ok w) (enabled : Enabled N w a) (meets : ok w a) :
      Run N ok (exec w a)

/-- No condition. -/
def anyStep : World → Action → Prop := fun _ _ => True

/-- The step with which `task_wait_for_zero_threads` returns. -/
def Returns (w : World) (a : Action) : Prop :=
  w.phase ≠ .returned ∧ (exec w a).phase = .returned

/-- The waiter takes the mutex back only where no task was counted since the last broadcast,
and no task is counted before `acid_stop` has torn the workers down. -/
def Undisturbed (w : World) (a : Action) : Prop :=
  (a = .wake → w.quiet = true) ∧ ∀ i, a = .task i .start → w.phase ≠ .returned

/-- Nothing is counted, queued, held by a worker or about to be queued. -/
def Drained (N : ℕ) (p : Pool) : Prop :=
  p.taskCount = 0 ∧ p.work = [] ∧ ∀ i < N, (p.threads i).starting = none ∧ (p.threads i).held = none

theorem drained_of_count {N : ℕ} {p : Pool} (h : TaskPool.Accounted N p) (hz : p.taskCount = 0) :
    Drained N p := by
  have hc := h.count
  unfold pending at hc
  have h1 : 0 ≤ tally (Finset.range N) fun i => (p.threads i).starting ≠ none := tally_nonneg _ _
  have h2 : 0 ≤ tally (Finset.range N) fun i => (p.threads i).held ≠ none := tally_nonneg _ _
  have hs := tally_eq_zero.mp (show tally (Finset.range N)
    (fun i => (p.threads i).starting ≠ none) = 0 by omega)
  have hh := tally_eq_zero.mp (show tally (Finset.range N)
    (fun i => (p.threads i).held ≠ none) = 0 by omega)
  refine ⟨hz, List.length_eq_zero_iff.mp (by omega), fun i hi => ⟨?_, ?_⟩⟩
  · simpa using hs i (Finset.mem_range.mpr hi)
  · simpa using hh i (Finset.mem_range.mpr hi)

/-- The count grows when a task is counted, and where it comes to zero there is a broadcast. -/
theorem exec_count {N : ℕ} {p : Pool} (h : TaskPool.Accounted N p) {i : ℕ} (hi : i < N)
    {a : TaskPool.Action} (enabled : TaskPool.Enabled p i a) :
    (a = .start ∧ 0 < (TaskPool.exec p i a).taskCount) ∨
    (a ≠ .start ∧ 0 < p.taskCount ∧
      (broadcasts p i a = true ↔ (TaskPool.exec p i a).taskCount = 0)) ∨
    (a ≠ .start ∧ broadcasts p i a = false ∧ (TaskPool.exec p i a).taskCount = p.taskCount) := by
  have hc := h.count
  unfold pending at hc
  have h1 : 0 ≤ tally (Finset.range N) fun i => (p.threads i).starting ≠ none := tally_nonneg _ _
  have h2 : 0 ≤ tally (Finset.range N) fun i => (p.threads i).held ≠ none := tally_nonneg _ _
  cases a with
  | start =>
    left
    refine ⟨rfl, ?_⟩
    change 0 < p.taskCount + 1
    omega
  | enqueue =>
    right; right
    refine ⟨by simp, rfl, ?_⟩
    change (taskStartEnqueue p i).taskCount = p.taskCount
    unfold taskStartEnqueue
    cases (p.threads i).starting <;> rfl
  | next =>
    right; right
    refine ⟨by simp, rfl, ?_⟩
    change (workerGetNextTask p i).taskCount = p.taskCount
    unfold workerGetNextTask
    cases p.work <;> rfl
  | ret again =>
    right; right
    obtain ⟨_, t, ht⟩ := enabled
    refine ⟨by simp, rfl, ?_⟩
    simp [TaskPool.exec, taskRunReturn, ht, Pool.setThread]
  | finish =>
    obtain ⟨t, ht | ht⟩ := enabled
    · right; right
      refine ⟨by simp, by simp [broadcasts, ht], ?_⟩
      simp [TaskPool.exec, taskRunFinish, ht, workerAddTask, Pool.setThread]
    · right; left
      have hpos : 0 < tally (Finset.range N) fun i => (p.threads i).held ≠ none :=
        tally_pos (Finset.mem_range.mpr hi) (by simp [ht])
      refine ⟨by simp, by omega, ?_⟩
      simp [broadcasts, ht, TaskPool.exec]

/-- What the ghost says about the count. -/
structure Watched (N : ℕ) (w : World) : Prop where
  accounts : TaskPool.Accounted N w.pool
  quiet : w.quiet = true → w.pool.taskCount = 0
  waiting : w.phase = .waiting → w.pool.taskCount = 0 → w.quiet = true

theorem Watched.section {N : ℕ} {w : World} (h : Watched N w) {i : ℕ} (hi : i < N)
    {a : TaskPool.Action} (enabled : TaskPool.Enabled w.pool i a) :
    Watched N (runSection w i a) := by
  have hacc := h.accounts.step hi enabled
  rcases exec_count h.accounts hi enabled with ⟨rfl, hpos⟩ | ⟨hne, hpos, hb⟩ | ⟨hne, hb, heq⟩
  · refine ⟨hacc, fun hq => absurd hq (by simp [runSection]), ?_⟩
    intro _ hz
    have hz' : (TaskPool.exec w.pool i .start).taskCount = 0 := hz
    omega
  · have hq : (runSection w i a).quiet = (broadcasts w.pool i a || w.quiet) := by
      cases a <;> first | rfl | exact absurd rfl hne
    have hold : w.quiet = false := by
      by_contra hw
      have := h.quiet (by simpa using hw)
      omega
    rw [hold, Bool.or_false] at hq
    exact ⟨hacc, fun ht => hb.mp (hq ▸ ht), fun _ hz => hq ▸ hb.mpr hz⟩
  · have hq : (runSection w i a).quiet = (broadcasts w.pool i a || w.quiet) := by
      cases a <;> first | rfl | exact absurd rfl hne
    rw [hb, Bool.false_or] at hq
    refine ⟨hacc, ?_, ?_⟩
    · intro ht
      change (TaskPool.exec w.pool i a).taskCount = 0
      rw [heq]
      exact h.quiet (hq ▸ ht)
    · intro hp hz
      have hz' : (TaskPool.exec w.pool i a).taskCount = 0 := hz
      rw [hq]
      exact h.waiting hp (heq ▸ hz')

theorem Watched.step {N : ℕ} {w : World} (h : Watched N w) {a : Action} (enabled : Enabled N w a) :
    Watched N (exec w a) := by
  cases a with
  | wait =>
    change Watched N (taskWaitForZeroThreads w)
    unfold taskWaitForZeroThreads
    split_ifs with hc
    · refine ⟨h.accounts, h.quiet, ?_⟩
      intro _ hz
      have hz' : w.pool.taskCount = 0 := hz
      omega
    · exact ⟨h.accounts, h.quiet, fun hp => absurd hp (by simp)⟩
  | wake => exact ⟨h.accounts, h.quiet, fun hp => absurd hp (by simp [exec, cndWaitReturn])⟩
  | teardown =>
    exact ⟨h.accounts, h.quiet, fun hp => absurd hp (by simp [exec, acidStopNonblocking])⟩
  | task i a => exact h.section enabled.1 enabled.2

theorem Run.watched {N : ℕ} {ok : World → Action → Prop} {w : World} (run : Run N ok w) :
    Watched N w := by
  induction run with
  | init => exact ⟨accounted_new N, by simp, by simp⟩
  | step _ enabled _ ih => exact ih.step enabled

/-- A return that finds the count at zero, in terms of what came before it. -/
theorem Watched.returns_iff {N : ℕ} {w : World} (h : Watched N w) {a : Action}
    (enabled : Enabled N w a) (hr : Returns w a) :
    w.pool.taskCount = 0 ↔ (a = .wake → w.quiet = true) := by
  cases a with
  | wait =>
    have hz : ¬ 0 < w.pool.taskCount := by
      intro hc
      have := hr.2
      simp [exec, taskWaitForZeroThreads, hc] at this
    have hnn := h.accounts.count
    unfold pending at hnn
    have h1 : 0 ≤ tally (Finset.range N) fun i => (w.pool.threads i).starting ≠ none :=
      tally_nonneg _ _
    have h2 : 0 ≤ tally (Finset.range N) fun i => (w.pool.threads i).held ≠ none :=
      tally_nonneg _ _
    constructor
    · intro _ hw
      cases hw
    · intro _
      omega
  | wake => exact ⟨fun hz _ => h.waiting enabled hz, fun hq => h.quiet (hq rfl)⟩
  | teardown => exact absurd hr.2 (by simp [exec, acidStopNonblocking])
  | task i a =>
    have : w.phase = .returned := hr.2
    exact absurd this hr.1

/-- Between the return and the teardown nothing is counted. -/
theorem Run.drained {N : ℕ} {w : World} (run : Run N Undisturbed w) :
    w.phase = .returned → w.pool.taskCount = 0 := by
  induction run with
  | init =>
    intro hp
    cases hp
  | @step w a run enabled meets ih =>
    intro hp
    have h := run.watched
    by_cases hold : w.phase = .returned
    · cases a with
      | wait =>
        have hup : w.phase = .up := enabled
        rw [hold] at hup
        cases hup
      | wake =>
        have hw : w.phase = .waiting := enabled
        rw [hold] at hw
        cases hw
      | teardown => cases hp
      | task i a =>
        have hz := ih hold
        change (TaskPool.exec w.pool i a).taskCount = 0
        rcases exec_count h.accounts enabled.1 enabled.2 with ⟨rfl, _⟩ | ⟨_, hpos, _⟩ | ⟨_, _, heq⟩
        · exact absurd hold (meets.2 i rfl)
        · omega
        · rw [heq, hz]
    · have hz := (h.returns_iff enabled ⟨hold, hp⟩).mpr meets.1
      cases a with
      | task i a => exact absurd hp hold
      | wait =>
        change (taskWaitForZeroThreads w).pool.taskCount = 0
        unfold taskWaitForZeroThreads
        split_ifs <;> exact hz
      | wake => exact hz
      | teardown => exact hz

/-- In a run without disturbance `task_wait_for_zero_threads` returns only with the count at
zero, and the workers are torn down with no task queued or running. In every run, a return
finds the count at zero exactly when no task was counted since the last broadcast. -/
theorem run_waits (N : ℕ) :
    (∀ w, Run N Undisturbed w →
      (∀ a, Enabled N w a → Undisturbed w a → Returns w a → Drained N w.pool) ∧
      (Enabled N w .teardown → Drained N w.pool)) ∧
    (∀ w, Run N anyStep w → ∀ a, Enabled N w a → Returns w a →
      (w.pool.taskCount = 0 ↔ (a = .wake → w.quiet = true))) := by
  constructor
  · intro w run
    have h := run.watched
    constructor
    · intro a enabled meets hr
      exact drained_of_count h.accounts ((h.returns_iff enabled hr).mpr meets.1)
    · intro enabled
      exact drained_of_count h.accounts (run.drained enabled)
  · intro w run a enabled hr
    exact run.watched.returns_iff enabled hr

/-- Thread 0 starts a task and thread 1 runs it to its end while the waiter waits. -/
theorem run_waits_one :
    Drained 2 (exec (exec (exec (exec (exec (exec {} (.task 0 .start)) .wait) (.task 0 .enqueue))
      (.task 1 .next)) (.task 1 (.ret false))) (.task 1 .finish)).pool := by
  have run : Run 2 Undisturbed (exec (exec (exec (exec (exec (exec {} (.task 0 .start)) .wait)
      (.task 0 .enqueue)) (.task 1 .next)) (.task 1 (.ret false))) (.task 1 .finish)) := by
    refine .step (.step (.step (.step (.step (.step .init ?_ ?_) ?_ ?_) ?_ ?_) ?_ ?_) ?_ ?_) ?_ ?_ <;>
      simp [Enabled, TaskPool.Enabled, Undisturbed, exec, runSection, taskWaitForZeroThreads,
        TaskPool.exec, taskStartCount, taskStartEnqueue, workerGetNextTask, taskRunReturn,
        workerAddTask, Pool.setThread]
  exact ((run_waits 2).1 _ run).1 .wake rfl ⟨fun _ => rfl, by simp⟩ ⟨by decide, rfl⟩

/-- A task is counted and the wait then ends without a broadcast. -/
theorem wait_not_drained : ¬ ∀ (N : ℕ) (w : World), Run N anyStep w → ∀ a, Enabled N w a →
    Returns w a → w.pool.taskCount = 0 := by
  intro h
  have run : Run 1 anyStep (exec (exec {} (.task 0 .start)) .wait) := by
    refine .step (.step .init ?_ trivial) ?_ trivial
    · exact ⟨by decide, rfl, .inl rfl⟩
    · rfl
  have := h 1 _ run .wake rfl ⟨by decide, rfl⟩
  revert this
  decide

end Acid.WaitForZero

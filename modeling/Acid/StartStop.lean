import Acid.TaskPool

set_option autoImplicit false

/-!
# `acid.c` and `worker.c`: starting and stopping the world

The variables of `task.c` and `worker.c` are static, so a cycle begins with what
the last one left. Threads below `gNumWorkers` are workers, the others mutators.
-/
namespace Acid.StartStop
open TaskPool Tally

/-- Where the program is between `acid_start` and the end of `acid_stop`. -/
inductive Phase where
  | down | up | waiting | closing
deriving DecidableEq

/-- `inLoop` holds the workers that have read the loop guard as open; `starts` is a ghost. -/
structure World where
  pool : Pool := {}
  endtime : Bool := false
  gNumWorkers : ℕ := 0
  inLoop : ℕ → Bool := fun _ => false
  phase : Phase := .down
  starts : ℕ := 0

/-- `acid_start`: `task_setup` initialises locks only, `workers_setup` makes a new list. -/
def acidStart (w : World) (numThreads : ℕ) : World :=
  { w with
    pool := { w.pool with work := [] }
    gNumWorkers := numThreads
    phase := .up
    starts := w.starts + 1 }

/-- `acid_stop_nonblocking` up to the joins of `workers_teardown`. -/
def acidStopNonblocking (w : World) : World := { w with endtime := true, phase := .closing }

/-- `acid_stop`: `task_wait_for_zero_threads` tests the count once. -/
def acidStop (w : World) : World :=
  if 0 < w.pool.taskCount then { w with phase := .waiting } else acidStopNonblocking w

/-- All workers have been joined: the list is destroyed. -/
def workersTeardown (w : World) : World :=
  { w with pool := { w.pool with work := [] }, phase := .down }

/-- A worker reads the guard of its loop. -/
def readGuard (w : World) (i : ℕ) : World :=
  { w with inLoop := Function.update w.inLoop i (!w.endtime) }

/-- A section of `task.c` or `worker.c`. A worker is back at its guard when it holds no task. -/
def runSection (w : World) (i : ℕ) (a : TaskPool.Action) : World :=
  let pool := TaskPool.exec w.pool i a
  { w with
    pool := pool
    inLoop := Function.update w.inLoop i (w.inLoop i && (pool.threads i).held.isSome) }

inductive Action where
  | start (numThreads : ℕ)
  | stop
  | stopNonblocking
  | wake
  | join
  | guard (i : ℕ)
  | task (i : ℕ) (a : TaskPool.Action)

/-- A wait may end at any time. Workers take a task only inside their loop, and no mutator
is inside `task_start` when the workers have been joined. -/
def Enabled (N : ℕ) (w : World) : Action → Prop
  | .start n => w.phase = .down ∧ 1 ≤ n ∧ n ≤ N
  | .stop => w.phase = .up
  | .stopNonblocking => w.phase = .up
  | .wake => w.phase = .waiting
  | .join => w.phase = .closing ∧ ∀ i < N, w.inLoop i = false ∧ (w.pool.threads i).held = none ∧
      (w.pool.threads i).starting = none
  | .guard i => w.phase ≠ .down ∧ i < w.gNumWorkers ∧ w.inLoop i = false
  | .task i a => w.phase ≠ .down ∧ i < N ∧ TaskPool.Enabled w.pool i a ∧
      (a = .next → i < w.gNumWorkers ∧ w.inLoop i = true)

def exec (w : World) : Action → World
  | .start n => acidStart w n
  | .stop => acidStop w
  | .stopNonblocking => acidStopNonblocking w
  | .wake => acidStopNonblocking w
  | .join => workersTeardown w
  | .guard i => readGuard w i
  | .task i a => runSection w i a

/-- The runs of a process with `N` threads. -/
inductive Run (N : ℕ) : World → Prop where
  | init : Run N {}
  | step {w : World} {a : Action} (run : Run N w) (enabled : Enabled N w a) : Run N (exec w a)

/-- What each cycle should begin with. -/
def Ready (w : World) : Prop :=
  w.endtime = false ∧ w.pool.work = [] ∧ w.pool.taskCount = 0

/-- The first cycle begins with the values set at load time, a later one with a closed guard. -/
structure Lifecycle (N : ℕ) (w : World) : Prop where
  fresh : w.starts = 0 → w.phase = .down ∧ w.endtime = false ∧ w.pool = {}
  closed : 0 < w.starts → (w.phase = .down ∨ w.phase = .closing) → w.endtime = true
  again : 2 ≤ w.starts → w.endtime = true
  idle : 2 ≤ w.starts → ∀ i < N, w.inLoop i = false
  guard : w.phase = .down → ∀ i < N, w.inLoop i = false
  accounts : w.starts = 1 → w.phase ≠ .down → TaskPool.Accounted N w.pool
  workers : w.gNumWorkers ≤ N

theorem Lifecycle.step {N : ℕ} {w : World} (h : Lifecycle N w) {a : Action}
    (enabled : Enabled N w a) : Lifecycle N (exec w a) := by
  cases a with
  | start n =>
    obtain ⟨hd, h1, hn⟩ := enabled
    refine ⟨?_, ?_, ?_, ?_, ?_, ?_, hn⟩
    · intro hs
      exact absurd hs (Nat.succ_ne_zero _)
    · rintro - (hp | hp) <;> cases hp
    · intro hs
      have hs' : 2 ≤ w.starts + 1 := hs
      exact h.closed (by omega) (.inl hd)
    · intro _
      exact h.guard hd
    · intro hp
      cases hp
    · intro hs _
      have hs' : w.starts + 1 = 1 := hs
      have hpool := (h.fresh (by omega)).2.2
      change TaskPool.Accounted N { w.pool with work := [] }
      rw [hpool]
      exact accounted_new N
  | stop =>
    have hup : w.phase = .up := enabled
    have hne : w.starts ≠ 0 := by
      intro hz
      have := (h.fresh hz).1
      rw [hup] at this
      cases this
    change Lifecycle N (acidStop w)
    unfold acidStop
    split_ifs
    · refine ⟨fun hz => absurd hz hne, ?_, h.again, h.idle, ?_, ?_, h.workers⟩
      · rintro - (hp | hp) <;> cases hp
      · intro hp
        cases hp
      · intro hs _
        exact h.accounts hs (by rw [hup]; decide)
    · refine ⟨fun hz => absurd hz hne, fun _ _ => rfl, fun _ => rfl, h.idle, ?_, ?_, h.workers⟩
      · intro hp
        cases hp
      · intro hs _
        exact h.accounts hs (by rw [hup]; decide)
  | stopNonblocking =>
    have hup : w.phase = .up := enabled
    refine ⟨?_, fun _ _ => rfl, fun _ => rfl, h.idle, ?_, ?_, h.workers⟩
    · intro hz
      have := (h.fresh hz).1
      rw [hup] at this
      cases this
    · intro hp
      cases hp
    · intro hs _
      exact h.accounts hs (by rw [hup]; decide)
  | wake =>
    have hup : w.phase = .waiting := enabled
    refine ⟨?_, fun _ _ => rfl, fun _ => rfl, h.idle, ?_, ?_, h.workers⟩
    · intro hz
      have := (h.fresh hz).1
      rw [hup] at this
      cases this
    · intro hp
      cases hp
    · intro hs _
      exact h.accounts hs (by rw [hup]; decide)
  | join =>
    obtain ⟨hc, hall⟩ := enabled
    refine ⟨?_, ?_, h.again, h.idle, fun _ i hi => (hall i hi).1, ?_, h.workers⟩
    · intro hz
      have := (h.fresh hz).1
      rw [hc] at this
      cases this
    · intro hs _
      exact h.closed hs (.inr hc)
    · intro _ hp
      exact absurd rfl hp
  | guard i =>
    obtain ⟨hp, hi, _⟩ := enabled
    refine ⟨h.fresh, h.closed, h.again, ?_, fun hd => absurd hd hp, h.accounts, h.workers⟩
    intro hs j hj
    change Function.update w.inLoop i (!w.endtime) j = false
    rw [h.again hs, Function.update_apply]
    split_ifs
    · rfl
    · exact h.idle hs j hj
  | task i a =>
    obtain ⟨hp, hi, hen, _⟩ := enabled
    refine ⟨?_, h.closed, h.again, ?_, fun hd => absurd hd hp, ?_, h.workers⟩
    · intro hz
      exact absurd (h.fresh hz).1 hp
    · intro hs j hj
      change Function.update w.inLoop i _ j = false
      rw [Function.update_apply]
      split_ifs
      · rw [h.idle hs i hi]
        rfl
      · exact h.idle hs j hj
    · intro hs _
      exact (h.accounts hs hp).step hi hen

theorem Run.lifecycle {N : ℕ} {w : World} (run : Run N w) : Lifecycle N w := by
  induction run with
  | init => exact ⟨fun _ => ⟨rfl, rfl, rfl⟩, by simp, by simp, by simp, by simp, by simp, by simp⟩
  | step _ enabled ih => exact ih.step enabled

/-- A cycle begins ready exactly when it is the first of the process: `endtime` stays true
once the workers have been torn down. In the first cycle the count is kept; in a later one
no worker enters its loop. -/
theorem run_ready {N : ℕ} {w : World} (run : Run N w) :
    (∀ n, w.phase = .down → 1 ≤ n → n ≤ N → (Ready (acidStart w n) ↔ w.starts = 0)) ∧
    (w.starts = 1 → w.phase ≠ .down → w.pool.taskCount = pending N w.pool) ∧
    (2 ≤ w.starts → ∀ i < N, w.inLoop i = false) := by
  have h := run.lifecycle
  refine ⟨?_, fun hs hp => (h.accounts hs hp).count, h.idle⟩
  intro n hd _ _
  constructor
  · intro hr
    by_contra hne
    have hc := h.closed (by omega) (.inl hd)
    have hf : w.endtime = false := hr.1
    rw [hc] at hf
    cases hf
  · intro hz
    obtain ⟨_, he, hp⟩ := h.fresh hz
    refine ⟨he, rfl, ?_⟩
    change w.pool.taskCount = 0
    rw [hp]

theorem run_ready_first : Ready (acidStart {} 1) :=
  ((run_ready (N := 1) .init).1 1 rfl (le_refl _) (le_refl _)).mpr rfl

/-- One worker, started, stopped without a task, and started again. -/
theorem restart_not_ready : ¬ ∀ (N : ℕ) (w : World), Run N w → ∀ n, w.phase = .down → 1 ≤ n →
    n ≤ N → Ready (acidStart w n) := by
  intro h
  have run : Run 1 (exec (exec (exec {} (.start 1)) .stop) .join) := by
    refine .step (.step (.step .init ⟨rfl, le_refl _, le_refl _⟩) rfl) ⟨rfl, ?_⟩
    intro i _
    exact ⟨rfl, rfl, rfl⟩
  have hr := h 1 _ run 1 rfl (le_refl _) (le_refl _)
  cases hr.1

end Acid.StartStop

import Acid.Tally
import Mathlib.Data.List.Count

set_option autoImplicit false

/-!
# `task.c` and `worker.c`: counting and queueing tasks

Each section between a mutex's lock and unlock is one step of one thread. Tasks
are named in the order of `task_create`; each is passed to `task_start` once.
-/
namespace Acid.TaskPool
open Tally

/-- Where `task_run` stands with its task. -/
inductive Stage where
  | running | again | done
deriving DecidableEq

/-- A thread inside `task_start` has counted `starting`; a worker's `held` is the task of
its `task_run`. A running task may itself start tasks. -/
structure Thread where
  starting : Option ℕ := none
  held : Option (ℕ × Stage) := none

/-- What a task went through, newest first. -/
inductive Event where
  | run (t : ℕ)
  | returned (t : ℕ) (again : Bool)
  | requeued (t : ℕ)
deriving DecidableEq

/-- The static variables of the two files and the threads; `created` and `log` are ghosts. -/
structure Pool where
  taskCount : ℤ := 0
  work : List ℕ := []
  threads : ℕ → Thread := fun _ => {}
  created : ℕ := 0
  log : List Event := []

def Pool.setThread (p : Pool) (i : ℕ) (f : Thread → Thread) : Pool :=
  { p with threads := Function.update p.threads i (f (p.threads i)) }

/-- `list_add_last(work, task)`. -/
def workerAddTask (p : Pool) (t : ℕ) : Pool := { p with work := p.work ++ [t] }

/-- The first section of `task_start`, on a task just created. -/
def taskStartCount (p : Pool) (i : ℕ) : Pool :=
  { p.setThread i fun th => { th with starting := some p.created } with
    taskCount := p.taskCount + 1
    created := p.created + 1 }

def taskStartEnqueue (p : Pool) (i : ℕ) : Pool :=
  match (p.threads i).starting with
  | some t => (workerAddTask p t).setThread i fun th => { th with starting := none }
  | none => p

/-- `worker_get_next_task` and the call of `task_run` on its result. -/
def workerGetNextTask (p : Pool) (i : ℕ) : Pool :=
  match p.work with
  | t :: rest =>
    { p.setThread i fun th => { th with held := some (t, .running) } with
      work := rest
      log := .run t :: p.log }
  | [] => p

/-- `task->run` returns. -/
def taskRunReturn (p : Pool) (i : ℕ) (again : Bool) : Pool :=
  match (p.threads i).held with
  | some (t, .running) =>
    { p.setThread i fun th => { th with held := some (t, if again then .again else .done) } with
      log := .returned t again :: p.log }
  | _ => p

/-- The rest of `task_run`: back into the queue, or one task less. -/
def taskRunFinish (p : Pool) (i : ℕ) : Pool :=
  match (p.threads i).held with
  | some (t, .again) =>
    { (workerAddTask p t).setThread i fun th => { th with held := none } with
      log := .requeued t :: p.log }
  | some (_, .done) =>
    { p.setThread i fun th => { th with held := none } with taskCount := p.taskCount - 1 }
  | _ => p

inductive Action where
  | start | enqueue | next | ret (again : Bool) | finish

/-- A thread starts tasks from outside or from the body of a task it runs. -/
def Enabled (p : Pool) (i : ℕ) : Action → Prop
  | .start => (p.threads i).starting = none ∧
      ((p.threads i).held = none ∨ ∃ t, (p.threads i).held = some (t, .running))
  | .enqueue => (p.threads i).starting ≠ none
  | .next => (p.threads i).starting = none ∧ (p.threads i).held = none
  | .ret _ => (p.threads i).starting = none ∧ ∃ t, (p.threads i).held = some (t, .running)
  | .finish => ∃ t, (p.threads i).held = some (t, .again) ∨ (p.threads i).held = some (t, .done)

def exec (p : Pool) (i : ℕ) : Action → Pool
  | .start => taskStartCount p i
  | .enqueue => taskStartEnqueue p i
  | .next => workerGetNextTask p i
  | .ret again => taskRunReturn p i again
  | .finish => taskRunFinish p i

/-- The states that `n` threads reach from `p₀`. -/
inductive Run (n : ℕ) (p₀ : Pool) : Pool → Prop where
  | init : Run n p₀ p₀
  | step {p : Pool} {i : ℕ} {a : Action} (run : Run n p₀ p) (hi : i < n) (enabled : Enabled p i a) :
      Run n p₀ (exec p i a)

/-- The threads that are starting `t`, and those that hold it. -/
def startingCount (n : ℕ) (p : Pool) (t : ℕ) : ℤ :=
  tally (Finset.range n) fun i => (p.threads i).starting = some t

def heldCount (n : ℕ) (p : Pool) (t : ℕ) : ℤ :=
  tally (Finset.range n) fun i => (p.threads i).held.map Prod.fst = some t

/-- The places where a task can be. -/
def places (n : ℕ) (p : Pool) (t : ℕ) : ℤ :=
  startingCount n p t + p.work.count t + heldCount n p t

/-- The tasks that `task_count` should count. -/
def pending (n : ℕ) (p : Pool) : ℤ :=
  tally (Finset.range n) (fun i => (p.threads i).starting ≠ none) + p.work.length +
    tally (Finset.range n) fun i => (p.threads i).held ≠ none

/-- The task's last run returned false and its final decrement has been made. -/
def Gone (n : ℕ) (p : Pool) (t : ℕ) : Prop :=
  .returned t false ∈ p.log ∧ ∀ i < n, (p.threads i).held ≠ some (t, .done)

structure Accounted (n : ℕ) (p : Pool) : Prop where
  count : p.taskCount = pending n p
  placed : ∀ t, t < p.created → (Gone n p t ∧ places n p t = 0) ∨ (¬ Gone n p t ∧ places n p t = 1)
  unborn : ∀ t, p.created ≤ t → places n p t = 0 ∧ ∀ b, .returned t b ∉ p.log
  returned : ∀ i < n, ∀ t, (p.threads i).held = some (t, .done) → .returned t false ∈ p.log
  stopped : ∀ t, .returned t false ∈ p.log → p.work.count t = 0 ∧ startingCount n p t = 0 ∧
    ∀ i < n, ∀ st, (p.threads i).held = some (t, st) → st = .done
  requeues : ∀ t, (p.log.count (.requeued t) : ℤ) +
    tally (Finset.range n) (fun i => (p.threads i).held = some (t, .again)) =
      p.log.count (.returned t true)
  ordered : ∀ t before after, p.log = after ++ .returned t false :: before →
    .run t ∉ after ∧ .requeued t ∉ after

section
variable {n : ℕ} {p p' : Pool} {i : ℕ}

/-- Counting threads when one of them changes. -/
theorem tally_thread (hi : i < n) {th : Thread} (hth : p'.threads = Function.update p.threads i th)
    (q : Thread → Prop) [DecidablePred q] :
    tally (Finset.range n) (fun j => q (p'.threads j)) =
      tally (Finset.range n) (fun j => q (p.threads j)) - (if q (p.threads i) then 1 else 0) +
        if q th then 1 else 0 := by
  have hch := tally_change (S := Finset.range n) (Finset.mem_range.mpr hi)
    (p := fun j => q (p.threads j)) (q := fun j => q (p'.threads j))
    (by intro j hj; rw [hth, Function.update_of_ne hj])
  rw [hch, hth, Function.update_self]

theorem threads_of_update {th : Thread} (hth : p'.threads = Function.update p.threads i th)
    {P : ℕ → Thread → Prop} (hi : P i th) (h : ∀ j, P j (p.threads j)) : ∀ j, P j (p'.threads j) := by
  intro j
  rw [hth]
  by_cases hj : j = i
  · subst hj
    rw [Function.update_self]
    exact hi
  · rw [Function.update_of_ne hj]
    exact h j

/-- How often the thread stands for the task. -/
def Thread.shares (th : Thread) (t : ℕ) : ℤ :=
  (if th.starting = some t then 1 else 0) + if th.held.map Prod.fst = some t then 1 else 0

/-- How many tasks the thread stands for. -/
def Thread.load (th : Thread) : ℤ :=
  (if th.starting ≠ none then 1 else 0) + if th.held ≠ none then 1 else 0

theorem places_thread (hi : i < n) {th : Thread} (hth : p'.threads = Function.update p.threads i th)
    (t : ℕ) : places n p' t - p'.work.count t - th.shares t =
      places n p t - p.work.count t - (p.threads i).shares t := by
  have h1 := tally_thread hi hth fun th => th.starting = some t
  have h2 := tally_thread hi hth fun th => th.held.map Prod.fst = some t
  unfold places startingCount heldCount Thread.shares
  rw [h1, h2]
  ring

theorem pending_thread (hi : i < n) {th : Thread} (hth : p'.threads = Function.update p.threads i th) :
    pending n p' - p'.work.length - th.load = pending n p - p.work.length - (p.threads i).load := by
  have h1 := tally_thread hi hth fun th => th.starting ≠ none
  have h2 := tally_thread hi hth fun th => th.held ≠ none
  unfold pending Thread.load
  rw [h1, h2]
  ring

theorem held_unique {u : ℕ} (hone : heldCount n p u = 1) {j k : ℕ} (hj : j < n) (hk : k < n)
    {st st' : Stage} (hjs : (p.threads j).held = some (u, st))
    (hks : (p.threads k).held = some (u, st')) : j = k := by
  unfold heldCount at hone
  rw [tally_eq_card] at hone
  have hcard : ((Finset.range n).filter
      fun i => (p.threads i).held.map Prod.fst = some u).card = 1 := by exact_mod_cast hone
  obtain ⟨a, ha⟩ := Finset.card_eq_one.mp hcard
  have hja : j ∈ ({a} : Finset ℕ) := ha ▸ by simp [hj, hjs]
  have hka : k ∈ ({a} : Finset ℕ) := ha ▸ by simp [hk, hks]
  rw [Finset.mem_singleton.mp hja, Finset.mem_singleton.mp hka]

/-- A task that has returned false can only be where its last decrement is still to come. -/
theorem stopped_of_placed
    (placed : ∀ t, t < p.created → (Gone n p t ∧ places n p t = 0) ∨ (¬ Gone n p t ∧ places n p t = 1))
    (unborn : ∀ t, p.created ≤ t → places n p t = 0 ∧ ∀ b, .returned t b ∉ p.log) {t : ℕ}
    (ht : .returned t false ∈ p.log) : p.work.count t = 0 ∧ startingCount n p t = 0 ∧
      ∀ i < n, ∀ st, (p.threads i).held = some (t, st) → st = .done := by
  have hlt : t < p.created := by
    by_contra hge
    exact (unborn t (by omega)).2 false ht
  have hs : 0 ≤ startingCount n p t := tally_nonneg _ _
  have hh : 0 ≤ heldCount n p t := tally_nonneg _ _
  rcases placed t hlt with ⟨_, hz⟩ | ⟨hg, hz⟩
  · unfold places at hz
    refine ⟨by omega, by omega, fun i hi st hst => ?_⟩
    have hpos : 0 < heldCount n p t := tally_pos (Finset.mem_range.mpr hi) (by simp [hst])
    omega
  · unfold Gone at hg
    push Not at hg
    obtain ⟨j, hj, hjs⟩ := hg ht
    have hpos : 0 < heldCount n p t := tally_pos (Finset.mem_range.mpr hj) (by simp [hjs])
    unfold places at hz
    refine ⟨by omega, by omega, fun i hi st hst => ?_⟩
    have hij : i = j := held_unique (by omega) hi hj hst hjs
    subst hij
    rw [hst, Option.some.injEq, Prod.mk.injEq] at hjs
    exact hjs.2

/-- What thread `i` does with the tasks it stands for, as it becomes `th`: it takes them from the
queue or puts them there, and lets go of `last`, the final decrement of a task. -/
structure Moves (n : ℕ) (p p' : Pool) (i : ℕ) (th : Thread) (last : Option ℕ) : Prop where
  lt : i < n
  threads : p'.threads = Function.update p.threads i th
  created : p'.created = p.created
  count : p'.taskCount - p'.work.length - th.load = p.taskCount - p.work.length - (p.threads i).load
  places : ∀ t, p'.work.count t + th.shares t + (if last = some t then 1 else 0) =
    p.work.count t + (p.threads i).shares t
  gone : ∀ t, last = some t → (p.threads i).held = some (t, .done) ∧ th.held = none
  stays : ∀ t, (p.threads i).held = some (t, .done) → last = some t ∨ th.held = some (t, .done)
  kept : ∀ t, .returned t false ∈ p.log → .returned t false ∈ p'.log
  returns : ∀ t b, .returned t b ∈ p'.log → .returned t b ∈ p.log ∨
    ((p.threads i).held = some (t, .running) ∧ (b = false → th.held = some (t, .done)))
  done : ∀ t, th.held = some (t, .done) → .returned t false ∈ p'.log
  requeues : ∀ t, (p'.log.count (.requeued t) : ℤ) + (if th.held = some (t, .again) then 1 else 0) -
    p'.log.count (.returned t true) = p.log.count (.requeued t) +
      (if (p.threads i).held = some (t, .again) then 1 else 0) - p.log.count (.returned t true)
  log : p'.log = p.log ∨ ∃ e, p'.log = e :: p.log ∧
    ∀ t, .returned t false ∈ p.log → e ≠ .run t ∧ e ≠ .requeued t

namespace Moves
variable {th : Thread} {last : Option ℕ} (m : Moves n p p' i th last)
include m

theorem held_cases {j t : ℕ} {st : Stage} (h : (p'.threads j).held = some (t, st)) :
    (j = i ∧ th.held = some (t, st)) ∨ (j ≠ i ∧ (p.threads j).held = some (t, st)) := by
  rw [m.threads] at h
  by_cases hj : j = i
  · subst hj
    rw [Function.update_self] at h
    exact .inl ⟨rfl, h⟩
  · rw [Function.update_of_ne hj] at h
    exact .inr ⟨hj, h⟩

theorem held_self : (p'.threads i).held = th.held := by
  rw [m.threads, Function.update_self]

theorem held_other {j : ℕ} (hj : j ≠ i) : (p'.threads j).held = (p.threads j).held := by
  rw [m.threads, Function.update_of_ne hj]

theorem places_eq (t : ℕ) : TaskPool.places n p' t =
    TaskPool.places n p t - if last = some t then 1 else 0 := by
  have h1 := places_thread m.lt m.threads t
  have h2 := m.places t
  omega

/-- No event of a task that has returned false comes after that return. -/
theorem ordered (h : ∀ t before after, p.log = after ++ .returned t false :: before →
    .run t ∉ after ∧ .requeued t ∉ after) {t : ℕ} {before after : List Event}
    (heq : p'.log = after ++ .returned t false :: before) :
    .run t ∉ after ∧ .requeued t ∉ after := by
  rcases m.log with hl | ⟨e, hl, he⟩
  · exact h t before after (hl ▸ heq)
  · rw [hl] at heq
    cases after with
    | nil => exact ⟨List.not_mem_nil, List.not_mem_nil⟩
    | cons e' after' =>
      rw [List.cons_append, List.cons.injEq] at heq
      obtain ⟨rfl, heq⟩ := heq
      obtain ⟨hrun, hrequeued⟩ := he t (by simp [heq])
      obtain ⟨h1, h2⟩ := h t before after' heq
      rw [List.mem_cons, List.mem_cons, not_or, not_or]
      exact ⟨⟨hrun.symm, h1⟩, hrequeued.symm, h2⟩

end Moves

namespace Accounted
variable (h : Accounted n p)
include h

/-- A held task stands in one place only. -/
theorem held_once (hi : i < n) {u : ℕ} {st : Stage} (hh : (p.threads i).held = some (u, st)) :
    p.work.count u = 0 ∧ startingCount n p u = 0 ∧ heldCount n p u = 1 ∧ u < p.created := by
  have hpos : 0 < heldCount n p u := tally_pos (Finset.mem_range.mpr hi) (by simp [hh])
  have hs : 0 ≤ startingCount n p u := tally_nonneg _ _
  have hcr : u < p.created := by
    by_contra hcr
    have hz := (h.unborn u (by omega)).1
    unfold places at hz
    omega
  rcases h.placed u hcr with ⟨_, hz⟩ | ⟨_, hz⟩ <;> unfold places at hz <;> omega

theorem running_goes_on (hi : i < n) {u : ℕ} {st : Stage} (hh : (p.threads i).held = some (u, st))
    (hst : st ≠ .done) : .returned u false ∉ p.log :=
  fun hm => hst ((h.stopped u hm).2.2 i hi st hh)

section
variable {th : Thread} {last : Option ℕ} (m : Moves n p p' i th last)
include m

theorem gone_last {t : ℕ} (ht : last = some t) : Gone n p' t ∧ places n p' t = 0 := by
  obtain ⟨hheld, hnone⟩ := m.gone t ht
  obtain ⟨hwork, hstart, hone, _⟩ := h.held_once m.lt hheld
  refine ⟨⟨m.kept t (h.returned i m.lt t hheld), fun j hj hjs => ?_⟩, ?_⟩
  · rcases m.held_cases hjs with ⟨_, hself⟩ | ⟨hne, hother⟩
    · rw [hnone] at hself
      cases hself
    · exact hne (held_unique hone hj m.lt hother hheld)
  · rw [m.places_eq, if_pos ht]
    unfold places
    omega

theorem gone_iff {t : ℕ} (ht : last ≠ some t) (hlt : t < p.created) : Gone n p' t ↔ Gone n p t := by
  constructor
  · rintro ⟨hm, hd⟩
    have hnot : th.held ≠ some (t, .done) := by
      rw [← m.held_self]
      exact hd i m.lt
    refine ⟨(m.returns t false hm).resolve_right fun hr => hnot (hr.2 rfl), fun j hj hjs => ?_⟩
    by_cases hji : j = i
    · subst hji
      exact hnot ((m.stays t hjs).resolve_left ht)
    · exact hd j hj (by rw [m.held_other hji, hjs])
  · intro hg
    refine ⟨m.kept t hg.1, fun j hj hjs => ?_⟩
    rcases m.held_cases hjs with ⟨hself, _⟩ | ⟨_, hother⟩
    · have hz : places n p t = 0 := by
        rcases h.placed t hlt with hz | hz
        · exact hz.2
        · exact absurd hg hz.1
      have heq := m.places_eq t
      have hpos : 0 < heldCount n p' t := tally_pos (Finset.mem_range.mpr hj) (by simp [hjs])
      have hs : 0 ≤ startingCount n p' t := tally_nonneg _ _
      rw [if_neg ht, hz] at heq
      unfold places at heq
      omega
    · exact hg.2 j hj hother

end

/-- The accounts stay when one thread moves its tasks. -/
theorem moved (th : Thread) (last : Option ℕ) (m : Moves n p p' i th last) : Accounted n p' := by
  have hplaced : ∀ t, t < p'.created →
      (Gone n p' t ∧ places n p' t = 0) ∨ (¬ Gone n p' t ∧ places n p' t = 1) := by
    intro t ht
    rw [m.created] at ht
    by_cases hlast : last = some t
    · exact .inl (h.gone_last m hlast)
    · rw [h.gone_iff m hlast ht, m.places_eq, if_neg hlast, sub_zero]
      exact h.placed t ht
  have hunborn : ∀ t, p'.created ≤ t → places n p' t = 0 ∧ ∀ b, .returned t b ∉ p'.log := by
    intro t ht
    rw [m.created] at ht
    obtain ⟨hz, hnr⟩ := h.unborn t ht
    have hnot : ∀ st, (p.threads i).held ≠ some (t, st) := by
      intro st hst
      have hlt := (h.held_once m.lt hst).2.2.2
      omega
    refine ⟨?_, fun b hb => ?_⟩
    · rw [m.places_eq, if_neg fun hlast => hnot .done (m.gone t hlast).1, hz, sub_zero]
    · rcases m.returns t b hb with hold | hnew
      · exact hnr b hold
      · exact hnot .running hnew.1
  refine ⟨?_, hplaced, hunborn, fun j hj t hjs => ?_, fun t => stopped_of_placed hplaced hunborn,
    fun t => ?_, fun t before after => m.ordered h.ordered⟩
  · have h1 := pending_thread m.lt m.threads
    have h2 := m.count
    have hc := h.count
    omega
  · rcases m.held_cases hjs with ⟨_, hself⟩ | ⟨_, hother⟩
    · exact m.done t hself
    · exact m.kept t (h.returned j hj t hother)
  · have hch := tally_thread m.lt m.threads fun th => th.held = some (t, .again)
    have hr := h.requeues t
    have hm := m.requeues t
    rw [hch]
    omega

variable (hi : i < n)
include hi

theorem start (hs : (p.threads i).starting = none) : Accounted n (taskStartCount p i) := by
  have hth : (taskStartCount p i).threads =
      Function.update p.threads i { p.threads i with starting := some p.created } := rfl
  have hplaces : ∀ t, places n (taskStartCount p i) t =
      places n p t + if p.created = t then 1 else 0 := by
    intro t
    have hshare := places_thread hi hth t
    have hw : (taskStartCount p i).work = p.work := rfl
    simp only [Thread.shares, hs, hw, Option.some.injEq, reduceCtorEq, if_false] at hshare
    omega
  have hsame : ∀ j, ((taskStartCount p i).threads j).held = (p.threads j).held :=
    threads_of_update hth (P := fun j th => th.held = (p.threads j).held) rfl fun _ => rfl
  have hgone : ∀ t, Gone n (taskStartCount p i) t ↔ Gone n p t := by
    intro t
    simp only [Gone, hsame]
    exact Iff.rfl
  have hplaced : ∀ t, t < p.created + 1 → (Gone n (taskStartCount p i) t ∧
      places n (taskStartCount p i) t = 0) ∨ (¬ Gone n (taskStartCount p i) t ∧
      places n (taskStartCount p i) t = 1) := by
    intro t ht
    rw [hgone, hplaces]
    by_cases htc : p.created = t
    · subst htc
      obtain ⟨hz, hnr⟩ := h.unborn p.created (le_refl _)
      rw [hz, if_pos rfl]
      exact .inr ⟨fun hg => hnr false hg.1, rfl⟩
    · rw [if_neg htc, add_zero]
      exact h.placed t (by omega)
  have hunborn : ∀ t, p.created + 1 ≤ t → places n (taskStartCount p i) t = 0 ∧
      ∀ b, .returned t b ∉ p.log := by
    intro t ht
    obtain ⟨hz, hnr⟩ := h.unborn t (by omega)
    rw [hplaces, hz, if_neg (by omega)]
    exact ⟨rfl, hnr⟩
  refine ⟨?_, hplaced, hunborn, fun j hj t ht => ?_, fun t => stopped_of_placed hplaced hunborn,
    fun t => ?_, h.ordered⟩
  · have hload := pending_thread hi hth
    have hc := h.count
    have hw : (taskStartCount p i).work = p.work := rfl
    simp only [Thread.load, hs, hw, ne_eq, not_true_eq_false, if_false, reduceCtorEq,
      not_false_eq_true, if_true] at hload
    change p.taskCount + 1 = _
    omega
  · rw [hsame] at ht
    exact h.returned j hj t ht
  · have hr := h.requeues t
    simp only [hsame]
    exact hr

theorem enqueue : Accounted n (taskStartEnqueue p i) := by
  unfold taskStartEnqueue
  cases hs : (p.threads i).starting with
  | none => exact h
  | some u =>
    apply h.moved { p.threads i with starting := none } none
    exact {
      lt := hi
      threads := rfl
      created := rfl
      count := by
        simp [workerAddTask, Pool.setThread, Thread.load, hs]
        ring
      places := fun t => by
        simp [workerAddTask, Pool.setThread, Thread.shares, hs, List.count_singleton]
        ring
      gone := fun _ ht => by cases ht
      stays := fun _ ht => .inr ht
      kept := fun _ ht => ht
      returns := fun _ _ ht => .inl ht
      done := h.returned i hi
      requeues := fun _ => rfl
      log := .inl rfl }

theorem next (hh : (p.threads i).held = none) : Accounted n (workerGetNextTask p i) := by
  unfold workerGetNextTask
  cases hwork : p.work with
  | nil => exact h
  | cons u rest =>
    have hunot : .returned u false ∉ p.log := by
      intro hm
      have hz := (h.stopped u hm).1
      rw [hwork, List.count_cons_self] at hz
      omega
    apply h.moved { p.threads i with held := some (u, .running) } none
    exact {
      lt := hi
      threads := rfl
      created := rfl
      count := by
        simp [Pool.setThread, Thread.load, hh, hwork]
        ring
      places := fun t => by
        simp [Thread.shares, hh, hwork, List.count_cons]
        ring
      gone := fun _ ht => by cases ht
      stays := fun t ht => by simp [hh] at ht
      kept := fun _ ht => List.mem_cons_of_mem _ ht
      returns := fun t b ht => .inl (by simpa using ht)
      done := fun t ht => by simp at ht
      requeues := fun t => by simp [hh]
      log := by
        refine .inr ⟨_, rfl, fun t ht => ⟨?_, by simp⟩⟩
        rintro ⟨⟩
        exact hunot ht }

theorem ret (again : Bool) : Accounted n (taskRunReturn p i again) := by
  unfold taskRunReturn
  rcases hh : (p.threads i).held with _ | ⟨u, st⟩
  · exact h
  cases st with
  | again => exact h
  | done => exact h
  | running =>
    apply h.moved { p.threads i with held := some (u, if again then .again else .done) } none
    exact {
      lt := hi
      threads := rfl
      created := rfl
      count := by simp [Pool.setThread, Thread.load, hh]
      places := fun t => by simp [Pool.setThread, Thread.shares, hh]
      gone := fun _ ht => by cases ht
      stays := fun t ht => by simp [hh] at ht
      kept := fun _ ht => List.mem_cons_of_mem _ ht
      returns := by
        intro t b ht
        rcases List.mem_cons.mp ht with hnew | hold
        · cases hnew
          refine .inr ⟨hh, ?_⟩
          rintro rfl
          rfl
        · exact .inl hold
      done := fun t ht => by cases again <;> simp_all
      requeues := by
        intro t
        cases again
        · simp [hh]
        · by_cases hut : u = t <;> simp [hh, hut]
      log := .inr ⟨_, rfl, fun t _ => by simp⟩ }

theorem finish : Accounted n (taskRunFinish p i) := by
  unfold taskRunFinish
  rcases hh : (p.threads i).held with _ | ⟨u, st⟩
  · exact h
  cases st with
  | running => exact h
  | again =>
    have hunot := h.running_goes_on hi hh (by decide)
    apply h.moved { p.threads i with held := none } none
    exact {
      lt := hi
      threads := rfl
      created := rfl
      count := by
        simp [workerAddTask, Pool.setThread, Thread.load, hh]
        ring
      places := fun t => by
        simp [workerAddTask, Pool.setThread, Thread.shares, hh, List.count_singleton]
        ring
      gone := fun _ ht => by cases ht
      stays := fun t ht => by simp [hh] at ht
      kept := fun _ ht => List.mem_cons_of_mem _ ht
      returns := fun t b ht => .inl (by simpa using ht)
      done := fun _ ht => by cases ht
      requeues := fun t => by by_cases hut : u = t <;> simp [hh, hut]
      log := by
        refine .inr ⟨_, rfl, fun t ht => ⟨by simp, ?_⟩⟩
        rintro ⟨⟩
        exact hunot ht }
  | done =>
    apply h.moved { p.threads i with held := none } (some u)
    exact {
      lt := hi
      threads := rfl
      created := rfl
      count := by
        simp [Pool.setThread, Thread.load, hh]
        ring
      places := fun t => by
        simp [Pool.setThread, Thread.shares, hh]
        ring
      gone := by
        rintro t ⟨⟩
        exact ⟨hh, rfl⟩
      stays := by
        intro t ht
        rw [hh, Option.some.injEq, Prod.mk.injEq] at ht
        exact .inl (congrArg some ht.1)
      kept := fun _ ht => ht
      returns := fun _ _ ht => .inl ht
      done := fun _ ht => by cases ht
      requeues := fun t => by simp [Pool.setThread, hh]
      log := .inl rfl }

theorem step {a : Action} (enabled : Enabled p i a) : Accounted n (exec p i a) := by
  cases a with
  | start => exact h.start hi enabled.1
  | enqueue => exact h.enqueue hi
  | next => exact h.next hi enabled.2
  | ret again => exact h.ret hi again
  | finish => exact h.finish hi

end Accounted
end

theorem accounted_new (n : ℕ) : Accounted n {} := by
  refine ⟨?_, ?_, ?_, ?_, ?_, ?_, ?_⟩ <;> simp [pending, places, startingCount, heldCount, tally]

theorem Run.accounted {n : ℕ} {p₀ p : Pool} (h : Accounted n p₀) (run : Run n p₀ p) :
    Accounted n p := by
  induction run with
  | init => exact h
  | step _ hi enabled ih => exact ih.step hi enabled

/-- `task->run` has returned: what it returned decides where its task goes. -/
theorem taskRunReturn_held {p : Pool} {i t : ℕ} (hh : (p.threads i).held = some (t, .running))
    (again : Bool) : ((taskRunReturn p i again).threads i).held =
      some (t, if again then .again else .done) ∧
    (taskRunReturn p i again).work = p.work ∧ (taskRunReturn p i again).taskCount = p.taskCount := by
  unfold taskRunReturn
  rw [hh]
  exact ⟨by simp [Pool.setThread], rfl, rfl⟩

theorem taskRunFinish_again {p : Pool} {i t : ℕ} (hh : (p.threads i).held = some (t, .again)) :
    ((taskRunFinish p i).threads i).held = none ∧ (taskRunFinish p i).work = p.work ++ [t] ∧
      (taskRunFinish p i).taskCount = p.taskCount := by
  unfold taskRunFinish
  rw [hh]
  exact ⟨by simp [Pool.setThread], rfl, rfl⟩

theorem Accounted.taskRunFinish_done {n : ℕ} {p : Pool} (h : Accounted n p) {i t : ℕ} (hi : i < n)
    (hh : (p.threads i).held = some (t, .done)) :
    ((taskRunFinish p i).threads i).held = none ∧ (taskRunFinish p i).work = p.work ∧
      (taskRunFinish p i).taskCount = p.taskCount - 1 ∧ Gone n (taskRunFinish p i) t := by
  have hone := (h.held_once hi hh).2.2.1
  unfold taskRunFinish
  rw [hh]
  refine ⟨by simp [Pool.setThread], rfl, rfl, h.returned i hi t hh, fun j hj hjs => ?_⟩
  by_cases hji : j = i
  · subst hji
    simp [Pool.setThread] at hjs
  · rw [show (({ p.setThread i fun th => { th with held := none } with
      taskCount := p.taskCount - 1 } : Pool).threads j) = p.threads j from
        Function.update_of_ne hji _ _] at hjs
    exact hji (held_unique hone hj hi hjs hh)

/-- The accounts of the task pool, for any number of threads and every order of steps. -/
theorem run_taskCount {n : ℕ} {p : Pool} (run : Run n {} p) :
    p.taskCount = pending n p ∧ 0 ≤ p.taskCount ∧
    (∀ t < p.created, (Gone n p t ∧ places n p t = 0) ∨ (¬ Gone n p t ∧ places n p t = 1)) ∧
    (∀ t, heldCount n p t ≤ 1) ∧
    (∀ t, (p.log.count (.requeued t) : ℤ) +
      tally (Finset.range n) (fun i => (p.threads i).held = some (t, .again)) =
        p.log.count (.returned t true)) ∧
    (∀ t before after, p.log = after ++ .returned t false :: before →
      .run t ∉ after ∧ .requeued t ∉ after) ∧
    (p.taskCount = 0 → p.work = [] ∧ ∀ i < n, (p.threads i).starting = none ∧
      (p.threads i).held = none) ∧
    ∀ i < n, ∀ t,
      ((p.threads i).held = some (t, .running) → ∀ again,
        ((taskRunReturn p i again).threads i).held = some (t, if again then .again else .done) ∧
          (taskRunReturn p i again).work = p.work ∧
          (taskRunReturn p i again).taskCount = p.taskCount) ∧
      ((p.threads i).held = some (t, .again) →
        ((taskRunFinish p i).threads i).held = none ∧ (taskRunFinish p i).work = p.work ++ [t] ∧
          (taskRunFinish p i).taskCount = p.taskCount) ∧
      ((p.threads i).held = some (t, .done) →
        ((taskRunFinish p i).threads i).held = none ∧ (taskRunFinish p i).work = p.work ∧
          (taskRunFinish p i).taskCount = p.taskCount - 1 ∧ Gone n (taskRunFinish p i) t) := by
  have h := run.accounted (accounted_new n)
  have h1 : 0 ≤ tally (Finset.range n) fun i => (p.threads i).starting ≠ none := tally_nonneg _ _
  have h2 : 0 ≤ tally (Finset.range n) fun i => (p.threads i).held ≠ none := tally_nonneg _ _
  have hc := h.count
  unfold pending at hc
  refine ⟨h.count, by omega, h.placed, ?_, h.requeues, h.ordered, ?_,
    fun i hi t => ⟨taskRunReturn_held, taskRunFinish_again, h.taskRunFinish_done hi⟩⟩
  · intro t
    have hs : 0 ≤ startingCount n p t := tally_nonneg _ _
    have hp : places n p t ≤ 1 := by
      by_cases ht : t < p.created
      · rcases h.placed t ht with ⟨_, hz⟩ | ⟨_, hz⟩ <;> omega
      · have hz := (h.unborn t (by omega)).1
        omega
    unfold places at hp
    omega
  · intro hz
    have hw : p.work.length = 0 := by omega
    have hs0 := tally_eq_zero.mp (show tally (Finset.range n)
      (fun i => (p.threads i).starting ≠ none) = 0 by omega)
    have hh0 := tally_eq_zero.mp (show tally (Finset.range n)
      (fun i => (p.threads i).held ≠ none) = 0 by omega)
    refine ⟨List.length_eq_zero_iff.mp hw, fun i hi => ⟨?_, ?_⟩⟩
    · simpa using hs0 i (Finset.mem_range.mpr hi)
    · simpa using hh0 i (Finset.mem_range.mpr hi)

/-- One thread starts a task, and another runs it twice. -/
def ranTwice : Pool :=
  exec (exec (exec (exec (exec (exec (exec {} 0 .start) 0 .enqueue) 1 .next) 1 (.ret true)) 1 .finish)
    1 .next) 1 (.ret false)

theorem run_taskCount_ranTwice : ranTwice.taskCount = pending 2 ranTwice ∧
    (taskRunFinish ranTwice 1).taskCount = ranTwice.taskCount - 1 ∧
    Gone 2 (taskRunFinish ranTwice 1) 0 := by
  have run : Run 2 {} ranTwice := by
    refine .step (.step (.step (.step (.step (.step (.step .init (by decide) ⟨rfl, .inl rfl⟩)
      (by decide) ?_) (by decide) ⟨rfl, rfl⟩) (by decide) ⟨rfl, 0, rfl⟩) (by decide) ⟨0, .inl rfl⟩)
      (by decide) ⟨rfl, rfl⟩) (by decide) ⟨rfl, 0, rfl⟩
    simp [Enabled, exec, taskStartCount, Pool.setThread]
  obtain ⟨hcount, _, _, _, _, _, _, hsections⟩ := run_taskCount run
  have hfinish := (hsections 1 (by decide) 0).2.2 rfl
  exact ⟨hcount, hfinish.2.2⟩

end Acid.TaskPool

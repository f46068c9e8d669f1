import Acid.Completion
import Acid.UndisturbedRun

set_option autoImplicit false

/-!
# The code of a single worker

The program has made its calls, and the worker takes the tasks that are left. What the code with
its locks then leaves is compared with what the program could reach.
-/
namespace Acid

/-- A call that takes its turn is made between two tasks, and ends between two tasks. -/
theorem WholeCall.Makes.idle {s s' : State} {call : WholeCall} (h : call.Makes s s') (idle : Idle s)
    (turn : TakesTurns s call.action) : Idle s' := by
  cases call with
  | collect i c =>
    obtain ⟨hi, n, hr⟩ := h
    exact idle.collectorRun hi hr
  | delete i o => exact h.2 ▸ idle.delete h.1
  | initStrong d => exact h.2 ▸ idle.call h.1 rfl turn.2
  | incStrong o => exact h.2 ▸ idle.call h.1 rfl turn.2
  | decStrong o => exact h.2 ▸ idle.call h.1 rfl turn.2
  | set o f r => exact h.2 ▸ idle.call h.1 rfl turn.2

theorem Sequence.idle {cs : List WholeCall} {s : State} (h : Sequence TakesTurns cs s) : Idle s := by
  induction h with
  | start => exact idle_initial
  | call _ hmakes hturn ih => exact hmakes.idle ih hturn

end Acid

namespace Acid.Locked

open Procedure Filter

/-- `task_run`, with `worker_get_next_task` before it. -/
def taskRun (p : Setting) : Task → Proc Unit
  | .run c => callCode p (.collect 0 c)
  | .delete o => callCode p (.delete 0 o)

/-- The loop of `worker_run` up to the first time that it finds the queue empty. -/
def workerRun (p : Setting) : ℕ → Proc Unit
  | 0 => failure
  | n + 1 => do
    match ← gets fun s => s.work.head? with
    | none => pure ()
    | some t => do
      taskRun p t
      workerRun p n

theorem makes_of_taskRun {k : ℕ} {s s' : State} {t : Task} {ts : List Task} (hw : s.work = t :: ts)
    (hr : Acid.taskRun k s t = some s') :
    ∃ call : WholeCall, call.Makes s s' ∧ ∀ p, taskRun p t = callCode p call := by
  have hfirst : s.work[0]? = some t := by
    rw [hw]
    rfl
  cases t with
  | run c => exact ⟨.collect 0 c, ⟨hfirst, k, hr⟩, fun _ => rfl⟩
  | delete o => exact ⟨.delete 0 o, ⟨hfirst, (Option.some.inj hr).symm⟩, fun _ => rfl⟩

/-- The code of the worker does what the worker of the heap model does. -/
theorem computes_workerRun {p : Setting} (hq : Quiet p) {k n : ℕ} :
    ∀ {s s' : State}, WholeRun anyStep s → Acid.workerRun k n s = some s' →
      ∀ᶠ m in atTop, ∀ j, n < j → Computes 0 (workerRun (p.within m) j) s () s' := by
  have hnil : ∀ {i : ℕ} {s s' : State}, s.work = [] → Acid.workerRun k i s = some s' →
      ∀ᶠ m in atTop, ∀ j, i < j → Computes 0 (workerRun (p.within m) j) s () s' := by
    intro i s s' hw hr
    rw [workerRun_nil k i hw] at hr
    obtain rfl : s = s' := Option.some.inj hr
    refine .of_forall fun m j hj => ?_
    obtain ⟨j, rfl⟩ : ∃ l, j = l + 1 := ⟨j - 1, by omega⟩
    apply Computes.gets
    rw [hw]
    exact computes_pure ()
  induction n with
  | zero =>
    intro s s' h hr
    cases hw : s.work with
    | nil => exact hnil hw hr
    | cons t ts =>
      rw [Acid.workerRun, hw] at hr
      cases hr
  | succ n ih =>
    intro s s' h hr
    cases hw : s.work with
    | nil => exact hnil hw hr
    | cons t ts =>
      rw [workerRun_cons k n hw] at hr
      obtain ⟨u, hu, hrest⟩ := Option.bind_eq_some_iff.mp hr
      obtain ⟨call, hmakes, hcode⟩ := makes_of_taskRun hw hu
      filter_upwards [computes_call hq h hmakes, ih (hmakes.wholeRun h trivial) hrest] with m hcall hloop
      intro j hj
      obtain ⟨j, rfl⟩ : ∃ l, j = l + 1 := ⟨j - 1, by omega⟩
      apply Computes.gets
      rw [hw]
      change Computes 0 (taskRun (p.within m) t >>= fun _ => workerRun (p.within m) j) s () s'
      rw [hcode]
      exact hcall.bind (hloop j (by omega))

/-- The code with its locks, run by the program and a single worker that takes turns with it,
returns, without a failing assertion and with the thread as it was, and has collected what the
program could not reach when it had made its last call. `object_get` returns what it returned
then. -/
theorem sequence_collected {p : Setting} (hq : Quiet p) {cs : List WholeCall}
    {s : State} (run : Sequence TakesTurns cs s) :
    ∃ s', (∀ᶠ n in atTop, Computes 0 (do
        forM cs (callCode (p.within n))
        workerRun (p.within n) n) initial () s') ∧
      AssertionsHold s' ∧ s'.work = [] ∧ (∀ o, Live s' o ↔ Reachable s o) ∧
      (s'.acidWorldCount : ℤ) - s'.acidCollectCount = {o | Reachable s o}.ncard ∧
      ∀ o, Reachable s o → ∀ f, ∃ v, Computes 0 (objectGet o f) s v s ∧
        Computes 0 (objectGet o f) s' v s' := by
  obtain ⟨N, s', hs'⟩ := run.idle.drains
  obtain ⟨hidle, hnil, hkeeps⟩ := run.idle.workerRun (hs' N N (le_refl N) (le_refl N))
  have hcollected := hidle.collected hnil hkeeps
  have hworker := computes_workerRun hq run.wholeRun.any (hs' N N (le_refl N) (le_refl N))
  refine ⟨s', ?_, hcollected.asserts, hnil, hcollected.live, hcollected.world, fun o ho f => ?_⟩
  · filter_upwards [computes_sequence hq run, hworker, eventually_gt_atTop N] with n hcalls hloop hlarge
    exact hcalls.bind (hloop n hlarge)
  · refine ⟨Acid.objectGet s o f, computes_objectGet o f, ?_⟩
    rw [← hcollected.fields o ho f]
    exact computes_objectGet o f

theorem sequence_collected_cycleCalls :
    ∃ s s', playAll turnsTest 30 initial (cycleCalls.take 8) = some s ∧
      (∀ᶠ n in atTop, Computes 0 (do
        forM (cycleCalls.take 8) (callCode (plainSetting.within n))
        workerRun (plainSetting.within n) n) initial () s') ∧ AssertionsHold s' ∧ s'.work = [] := by
  obtain ⟨s, hs⟩ := Option.isSome_iff_exists.mp
    (show (playAll turnsTest 30 initial (cycleCalls.take 8)).isSome = true by decide +kernel)
  obtain ⟨s', hcode, hasserts, hnil, _⟩ := sequence_collected (p := plainSetting)
    (fun _ _ => computes_pure ()) (Sequence.play takesTurns_of_test .start hs)
  exact ⟨s, s', hs, hcode, hasserts, hnil⟩

end Acid.Locked

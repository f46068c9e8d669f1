import Acid.Progress

set_option autoImplicit false

/-!
# A call of `collector_run` returns

Its loops always come to an end. Without a weak label too many on the way no assertion fails
in it either; with one, the call may end the process.
-/
namespace Acid

theorem Idle.collectorRun {s s' : State} {n i c : ℕ} (h : Idle s) (hi : s.work[i]? = some (.run c))
    (hr : collectorRun n s i c = some s') : Idle s' := by
  change runSteps n (exec s (.enter i c)) = some s' at hr
  rcases h.enter (i := i) (c := c) hi with hidle | hrun
  · rw [runSteps_nil n hidle.running] at hr
    exact Option.some.inj hr ▸ hidle
  · exact (runSteps_idle hrun hr).1

/-- Between whole calls no collector runs, and no assertion has failed. -/
theorem WholeRun.idle {s : State} (h : WholeRun StrongEnough s) : Idle s := by
  induction h with
  | start => exact idle_initial
  | @call s a _ he hwhole hK ih =>
    cases a with
    | delete i o => exact ih.delete he
    | enter i c => cases hwhole
    | iterate i c loop => cases hwhole
    | initStrong d => exact ih.call he rfl hK
    | incStrong o => exact ih.call he rfl hK
    | decStrong o => exact ih.call he rfl hK
    | set o f r => exact ih.call he rfl hK
  | collect _ hi hr ih => exact ih.collectorRun hi hr

/-- The loops of a call of `collector_run` that nothing interrupts end, and it waits for no object.
Where each new weak link was to an object with a strong reference, no assertion ends the process
in it or before it, so the call returns. -/
theorem collectorRun_returns {s : State} {i c : ℕ} (run : WholeRun anyStep s)
    (hi : s.work[i]? = some (.run c)) :
    ∃ n s', (∀ m, n ≤ m → collectorRun m s i c = some s') ∧ .noReturn ∉ s'.trace ∧
      .assertFailed .recoverWait ∉ s'.trace ∧ (WholeRun StrongEnough s → AssertionsHold s') := by
  obtain ⟨n, s', hs'⟩ := run.collectorRun_ends hi
  have hafter : WholeRun anyStep s' := run.collect hi (hs' n (le_refl n))
  obtain ⟨hreturn, hwait⟩ := hafter.run.1.returns
  refine ⟨n, s', hs', hreturn, hwait, fun hstrong => ?_⟩
  exact (hstrong.collect hi (hs' n (le_refl n))).idle.asserts

/-- Both claims on a cycle are gone. The first of the two collectors joins the other one in its
collect loop. -/
theorem collectorRun_returns_cycleCalls : ∃ s n s',
    playAll strongEnoughTest 30 initial (cycleCalls.take 8) = some s ∧
    collectorRun n s 0 0 = some s' ∧ AssertionsHold s' := by
  obtain ⟨s, hs⟩ := Option.isSome_iff_exists.mp
    (show (playAll strongEnoughTest 30 initial (cycleCalls.take 8)).isSome = true by decide +kernel)
  have hwork : ((playAll strongEnoughTest 30 initial (cycleCalls.take 8)).bind fun u => u.work[0]?) =
      some (.run 0) := by decide +kernel
  rw [hs] at hwork
  have run : WholeRun StrongEnough s := (Sequence.play strongEnough_of_test .start hs).wholeRun
  obtain ⟨n, s', hs', _, _, hasserts⟩ := collectorRun_returns run.any hwork
  exact ⟨s, n, s', hs, hs' n (le_refl n), hasserts run⟩

/-- The last call gives the object 1 a weak reference, when it has been phantomized and has no
strong one. -/
def weakenedCalls : List WholeCall :=
  [.initStrong false, .initStrong false, .initStrong false, .initStrong false, .set 0 0 (some 1),
    .decStrong 1, .set 2 0 (some 0), .decStrong 0, .collect 0 0, .set 1 0 (some 3), .decStrong 3,
    .collect 0 1, .set 2 0 (some 1)]

theorem collectorRun_aborts : ¬ ∀ s i c, WholeRun anyStep s → AssertionsHold s →
    s.work[i]? = some (.run c) → ∃ n s', collectorRun n s i c = some s' ∧ AssertionsHold s' := by
  intro h
  obtain ⟨s, hs⟩ := Option.isSome_iff_exists.mp
    (show (playAll (fun _ _ => true) 30 initial weakenedCalls).isSome = true by decide +kernel)
  have htest : ((playAll (fun _ _ => true) 30 initial weakenedCalls).any fun u =>
      AssertionsHold u && u.work[0]? = some (.run 2) &&
        (collectorRun 30 u 0 2).any fun v => .assertFailed .recoverWeak ∈ v.trace) = true := by
    decide +kernel
  rw [hs] at htest
  simp only [Option.any_some, Bool.and_eq_true, decide_eq_true_eq, Option.any_eq_true] at htest
  obtain ⟨⟨hholds, hwork⟩, v, hv, hfailed⟩ := htest
  have run : WholeRun anyStep s := (Sequence.play (fun _ _ _ => trivial) .start hs).wholeRun
  obtain ⟨n, s', hr, hafter⟩ := h s 0 2 run hholds hwork
  -- the result does not depend on the number of iterations allowed
  have hsame : some v = some s' := (runSteps_mono (le_max_left 30 n) hv).symm.trans
    (runSteps_mono (le_max_right 30 n) hr)
  exact hafter .recoverWeak (Option.some.inj hsame ▸ hfailed)

end Acid

import Acid.CollectorReturns
import Acid.OrderedRun
import Acid.Started
import Acid.UndisturbedObject

set_option autoImplicit false

/-!
# `collector_run` and the calls of a run undisturbed
-/
namespace Acid.Locked

open Procedure PointerForest Filter

/-! ## The parts of `collector_run` -/

/-- What a loop does with the object that it has polled. -/
def bodyCode (p : Setting) (c : ℕ) : Loop → ℕ → Proc Unit
  | .merged, obj => safelistAdd p.bound (c, .recovery) obj
  | .collect, obj => do
    objectPhantomizeNode p obj
    safelistAdd p.bound (c, .recovery) obj
  | .recovery, obj => do
    objectRecoverNode p.bound obj c
    safelistAdd p.bound (c, .clean) obj
  | .rebuild, obj => objectRecoverNode p.bound obj c
  | .clean, obj => objectCleanNode p.bound obj
  | .exit, _ => pure ()

/-- What is left to do after a loop. -/
def restCode (p : Setting) (c : ℕ) : Loop → Proc Bool
  | .merged => do
    lockerEnd
    pollLoop (c, .collect) (bodyCode p c .collect) p.bound
    restCode p c .collect
  | .collect => do
    pollLoop (c, .recovery) (bodyCode p c .recovery) p.bound
    restCode p c .recovery
  | .recovery => do
    pollLoop (c, .rebuild) (bodyCode p c .rebuild) p.bound
    restCode p c .rebuild
  | .rebuild => do
    pollLoop (c, .clean) (bodyCode p c .clean) p.bound
    restCode p c .clean
  | .clean => collectorExit c
  | .exit => collectorExit c
termination_by loop => loop.left
decreasing_by all_goals decide

/-- The run from a loop on, which has at most `k` iterations left. -/
def loopsCode (p : Setting) (c k : ℕ) (loop : Loop) : Proc Bool :=
  if loop = .exit then collectorExit c
  else do
    pollLoop (c, loop.list) (bodyCode p c loop) k
    restCode p c loop

/-- The lock of the collector is held in the first loop only. -/
def openScopes : Loop → ℕ
  | .merged => 1
  | _ => 0

theorem collectorRun_code (p : Setting) (c : ℕ) : collectorRun p c = (do
    if ← gets fun s => counterContinueWaiting s c then
      pure true
    else do
      lockerStart [collectorLock c]
      loopsCode p c p.bound .merged) := by
  unfold collectorRun loopsCode
  simp only [restCode]
  rfl

theorem restCode_next (p : Setting) (c : ℕ) {loop : Loop} (hloop : loop ≠ .exit) :
    restCode p c loop = if loop = .merged then (do
      lockerEnd
      loopsCode p c p.bound .collect) else loopsCode p c p.bound loop.next := by
  cases loop with
  | merged => rw [restCode]; rfl
  | collect => rw [restCode]; rfl
  | recovery => rw [restCode]; rfl
  | rebuild => rw [restCode]; rfl
  | clean => rw [restCode]; rfl
  | exit => exact absurd rfl hloop

/-! ## The loops -/

section
variable {p : Setting}

theorem computes_bodyCode {s : State} (h : Chained s) {loop : Loop} {x : ℕ}
    (hcollector : loop = .collect → (s.objects x).collector ≠ none)
    (hcomplete : (s.objects x).phantomizationComplete = true) (c : ℕ) :
    ∀ᶠ n in atTop, Computes 0 (bodyCode (p.within n) c loop x) s () (loopBody s c loop x) := by
  cases loop with
  | merged => exact computes_safelistAdd h (c, .recovery) x
  | collect =>
    filter_upwards [computes_objectPhantomizeNode h (hcollector rfl),
      computes_safelistAdd (h.phantomizeNode x) (c, .recovery) x] with n hnode hadd
    exact hnode.bind hadd
  | recovery =>
    filter_upwards [computes_objectRecoverNode h (fun _ => hcomplete) c,
      computes_safelistAdd (h.recoverNode x c) (c, .clean) x] with n hnode hadd
    exact hnode.bind hadd
  | rebuild => exact computes_objectRecoverNode h (fun _ => hcomplete) c
  | clean => exact computes_objectCleanNode h x
  | exit => exact .of_forall fun _ => computes_pure ()

/-- The exit check, and the end of the collector where it succeeds. -/
theorem computes_collectorExit (s : State) (c : ℕ) : Computes 0 (collectorExit c) s
    (Acid.collectorExit s c).2 (Acid.collectorExit s c).1 := by
  apply Computes.gets
  apply Computes.start2
  apply Computes.gets
  unfold Acid.collectorExit
  split_ifs
  · apply (computes_collectorTerminate c).bind
    apply Computes.stop
    exact (computes_collectorDestroy c).bind (computes_pure false)
  · exact Computes.stop (computes_pure true)

theorem runIteration_exit {s : State} {c : ℕ} (h : s.running = [(c, .exit)]) :
    runIteration s 0 c .exit = if (Acid.collectorExit s c).2 then
      ((Acid.collectorExit s c).1.started []).addTask (.run c)
    else (Acid.collectorExit s c).1.started [] := by
  have hframe : (Acid.collectorExit s c).1.running = s.running := by
    unfold Acid.collectorExit
    split_ifs
    · exact (collectorSetForward_frame s c none).running
    · rfl
  have herased : (Acid.collectorExit s c).1.running.eraseIdx 0 = [] := by
    rw [hframe, h]
    rfl
  change (if (Acid.collectorExit s c).2 then
    ((Acid.collectorExit s c).1.started ((Acid.collectorExit s c).1.running.eraseIdx 0)).addTask (.run c)
    else (Acid.collectorExit s c).1.started ((Acid.collectorExit s c).1.running.eraseIdx 0)) = _
  rw [herased]

/-- From a loop on, the code of a run of `c` ends, and with its task back in the queue where that
is wanted the state is `s'`. -/
def Ends (p : Setting) (c : ℕ) (loop : Loop) (s s' : State) : Prop :=
  ∃ (again : Bool) (u : State) (K : ℕ), s' = (if again then u.addTask (.run c) else u) ∧
    ∀ᶠ m in atTop, ∀ k, K ≤ k →
      Computes (openScopes loop) (loopsCode (p.within m) c k loop) (s.started []) again u

theorem ends_exit {s : State} {c : ℕ} (h : s.running = [(c, .exit)]) :
    Ends p c .exit s (runIteration s 0 c .exit) := by
  have hcode := computes_collectorExit (s.started []) c
  rw [collectorExit_started] at hcode
  exact ⟨_, _, 0, runIteration_exit h, .of_forall fun m k _ => hcode⟩

theorem openScopes_of_ne {loop : Loop} (h : loop ≠ .merged) : openScopes loop = 0 := by
  cases loop with
  | merged => exact absurd rfl h
  | _ => rfl

/-- A loop that finds its list empty. -/
theorem Ends.next {s s' : State} {c : ℕ} {loop : Loop} (hexit : loop ≠ .exit)
    (hd : (s.safelist (c, loop.list)).data = []) (h : Ends p c loop.next s s') :
    Ends p c loop s s' := by
  obtain ⟨again, u, K, hs', hu⟩ := h
  refine ⟨again, u, 1, hs', ?_⟩
  filter_upwards [hu, eventually_ge_atTop K] with m hm hlarge k hk
  obtain ⟨k, rfl⟩ : ∃ j, k = j + 1 := ⟨k - 1, by omega⟩
  have hpoll := computes_safelistPoll (s := s.started []) (c, loop.list)
  rw [safelistPoll_nil (show ((s.started []).safelist (c, loop.list)).data = [] from hd)] at hpoll
  have hrest := hm m hlarge
  rw [loopsCode, if_neg hexit, pollLoop, bind_assoc]
  apply hpoll.bind
  apply (computes_pure ()).bind
  rw [restCode_next _ _ hexit]
  by_cases hmerged : loop = .merged
  · subst hmerged
    rw [if_pos rfl]
    exact Computes.stop hrest
  · rw [if_neg hmerged, openScopes_of_ne hmerged]
    rwa [openScopes_of_ne (by cases loop <;> simp [Loop.next])] at hrest

/-- A loop that polls an object. -/
theorem Ends.iterate {s s' s'' : State} {c obj : ℕ} {loop : Loop} {rest : List ℕ}
    (halone : Alone s c loop) (hexit : loop ≠ .exit)
    (hd : (s.safelist (c, loop.list)).data = obj :: rest)
    (heap : s'.started [] = (loopBody (afterPoll s c loop obj) c loop obj).started [])
    (h : Ends p c loop s' s'') : Ends p c loop s s'' := by
  have hchained : Chained (s.started []) :=
    halone.run.anySound.collectors.chained.of_collectors rfl rfl fun _ => rfl
  have hm : obj ∈ (s.safelist (c, loop.list)).data := by
    rw [hd]
    exact List.mem_cons_self ..
  have hfresh : afterPoll s c loop obj = (Acid.safelistPoll s (c, loop.list)).1 := by
    rw [afterPoll, State.check_pos]
    rw [(safelistPoll_same s _).objects]
    exact (halone.run.anySound.live_of_inUse (halone.listed_inUse hm)).2
  have hpoll := computes_safelistPoll (s := s.started []) (c, loop.list)
  have hpolled := hchained.poll (c, loop.list)
  have hobjects := (safelistPoll_same (s.started []) (c, loop.list)).objects
  have hsome : (Acid.safelistPoll s (c, loop.list)).2 = some obj := by
    rw [safelistPoll_cons hd]
  rw [safelistPoll_started] at hpoll hpolled hobjects
  rw [hsome, ← hfresh] at hpoll
  rw [← hfresh] at hpolled hobjects
  dsimp only at hpoll hpolled hobjects
  have hcollector : loop = .collect →
      (((afterPoll s c loop obj).started []).objects obj).collector ≠ none := by
    intro hl
    subst hl
    rw [hobjects]
    exact (halone.run.anySound.classes.listed (r := (c, .collect)) (by simp) hm).ne_none
  have hcomplete :
      (((afterPoll s c loop obj).started []).objects obj).phantomizationComplete = true := by
    rw [hobjects]
    exact halone.run.flags.complete obj
  have hbody := computes_bodyCode (p := p) hpolled hcollector hcomplete c
  rw [loopBody_started, ← heap] at hbody
  obtain ⟨again, u, K, hs', hu⟩ := h
  refine ⟨again, u, K + 1, hs', ?_⟩
  filter_upwards [hbody, hu] with m hbody hu k hk
  obtain ⟨k, rfl⟩ : ∃ j, k = j + 1 := ⟨k - 1, by omega⟩
  have hrest := hu k (by omega)
  rw [loopsCode, if_neg hexit] at hrest ⊢
  rw [pollLoop, bind_assoc]
  apply hpoll.bind
  dsimp only
  rw [bind_assoc]
  exact hbody.bind hrest

/-- The run from a loop on does what the iterations and the exit check of the heap model do. -/
theorem ends_runSteps {n : ℕ} {c : ℕ} : ∀ {s s' : State} {loop : Loop}, Alone s c loop →
    runSteps n s = some s' → Ends p c loop s s' := by
  induction n with
  | zero =>
    intro s s' loop h hr
    rw [runSteps, h.running] at hr
    cases hr
  | succ n ih =>
    intro s s' loop h hr
    rw [runSteps_cons n h.running] at hr
    by_cases hexit : loop = .exit
    · subst hexit
      have hrunning : (runIteration s 0 c .exit).running = [] := by
        rw [runIteration_exit h.running]
        split_ifs <;> rfl
      rw [runSteps_nil n hrunning] at hr
      exact Option.some.inj hr ▸ ends_exit h.running
    rcases runIteration_cases s 0 c loop with ⟨hloop, _⟩ | ⟨hloop, _⟩ | ⟨_, hd, heq⟩ |
      ⟨_, obj, rest, hd, heq⟩
    · exact absurd hloop hexit
    · exact absurd hloop hexit
    · have hrunning : (runIteration s 0 c loop).running = [(c, loop.next)] := by
        rw [heq, h.running]
        rfl
      have hends := ih (h.iterated hrunning) hr
      have hsame : (runIteration s 0 c loop).started [] = s.started [] := by
        rw [heq]
        rfl
      unfold Ends at hends
      rw [hsame] at hends
      exact Ends.next hexit hd hends
    · have hrunning : (runIteration s 0 c loop).running = [(c, loop)] := by
        rw [heq, loopBody_running, (afterPoll_frame s c loop obj).running, h.running]
        rfl
      have hheap : (runIteration s 0 c loop).started [] =
          (loopBody (afterPoll s c loop obj) c loop obj).started [] := by
        rw [heq]
        rfl
      exact Ends.iterate h hexit hd hheap (ih (h.iterated hrunning) hr)

/-- A whole call of `collector_run`, from the heap that the queue has handed its task out of. -/
theorem computes_collectorRun {ok : State → Action → Prop} {s s' : State} {n i c : ℕ}
    (h : WholeRun ok s) (hi : s.work[i]? = some (.run c)) (hr : Acid.collectorRun n s i c = some s') :
    ∃ (again : Bool) (u : State), s' = (if again then u.addTask (.run c) else u) ∧
      ∀ᶠ m in atTop, Computes 0 (collectorRun (p.within m) c) { s with work := s.work.eraseIdx i }
        again u := by
  by_cases hwait : counterContinueWaiting { s with work := s.work.eraseIdx i } c = true
  · refine ⟨true, { s with work := s.work.eraseIdx i }, ?_, .of_forall fun m => ?_⟩
    · have henter : collectorEnter s i c =
          ({ s with work := s.work.eraseIdx i } : State).addTask (.run c) := if_pos hwait
      have hrunning : (collectorEnter s i c).running = [] := by
        rw [henter]
        exact h.run.2
      rw [Acid.collectorRun, runSteps_nil n hrunning] at hr
      rw [if_pos rfl, ← henter]
      exact (Option.some.inj hr).symm
    · rw [collectorRun_code]
      apply Computes.gets
      rw [if_pos hwait]
      exact computes_pure true
  · have henter : collectorEnter s i c =
        ({ s with work := s.work.eraseIdx i } : State).started (s.running ++ [(c, .merged)]) :=
      if_neg hwait
    rcases h.run.1.alone h.run.2 hi h.rebuild_nil with he | halone
    · rw [henter] at he
      exact absurd he (List.append_ne_nil_of_right_ne_nil _ (List.cons_ne_nil _ _))
    · obtain ⟨again, u, K, hs', hu⟩ := ends_runSteps halone hr
      refine ⟨again, u, hs', ?_⟩
      have hheap : (collectorEnter s i c).started [] = { s with work := s.work.eraseIdx i } := by
        rw [henter]
        change { s with work := s.work.eraseIdx i, running := [] } = _
        rw [← h.run.2]
      rw [hheap] at hu
      filter_upwards [hu, eventually_ge_atTop K] with m hm hlarge
      rw [collectorRun_code]
      apply Computes.gets
      rw [if_neg hwait]
      apply Computes.start1
      exact hm m hlarge

end

/-! ## The calls of a run -/

/-- The code of a call, between the changes to the ghosts and to the queue that belong to it. -/
def callCode (p : Setting) : WholeCall → Proc Unit
  | .initStrong d => do
    let o ← objectInitStrong
    modify fun s => (s.modifyObject o fun h => { h with dtor := d }).addClaim o
  | .incStrong o => do
    objectIncStrong o
    modify fun s => s.addClaim o
  | .decStrong o => do
    modify fun s => s.dropClaim o
    objectDecStrong p.bound o
  | .set o f r => objectSet p.bound o f r
  | .delete i o => do
    modify fun s => { s with work := s.work.eraseIdx i }
    let _ ← objectRequestDeleteTaskRun p o
  | .collect i c => do
    modify fun s => { s with work := s.work.eraseIdx i }
    let again ← collectorRun p c
    modify fun s => if again then s.addTask (.run c) else s

/-- The code of a call leaves what the heap model makes of it. -/
theorem computes_call {p : Setting} (hq : Quiet p) {ok : State → Action → Prop} {s s' : State}
    {call : WholeCall} (run : WholeRun ok s) (h : call.Makes s s') :
    ∀ᶠ n in atTop, Computes 0 (callCode (p.within n) call) s () s' := by
  have hchained := run.run.1.anySound.collectors.chained
  cases call with
  | initStrong d =>
    rw [h.2]
    refine .of_forall fun n => ?_
    apply computes_objectInitStrong.bind
    exact computes_modify _
  | incStrong o =>
    rw [h.2]
    refine .of_forall fun n => ?_
    apply (computes_objectIncStrong o).bind
    exact computes_modify _
  | decStrong o =>
    rw [h.2]
    have hdropped : Chained (s.dropClaim o) := hchained.of_collectors rfl rfl fun _ => rfl
    filter_upwards [computes_objectDecStrong hdropped o] with n hn
    apply Computes.modify
    exact hn
  | set o f r =>
    rw [h.2]
    exact computes_objectSet hchained o f r
  | delete i o =>
    rw [h.2]
    have htaken : Chained { s with work := s.work.eraseIdx i } :=
      hchained.of_collectors rfl rfl fun _ => rfl
    filter_upwards [computes_objectRequestDeleteTaskRun hq htaken o] with n hn
    apply Computes.modify
    exact hn.bind (computes_pure ())
  | collect i c =>
    obtain ⟨hi, n, hr⟩ := h
    obtain ⟨again, u, hs', hu⟩ := computes_collectorRun (p := p) run hi hr
    rw [hs']
    filter_upwards [hu] with m hm
    apply Computes.modify
    apply hm.bind
    exact computes_modify fun s => if again then s.addTask (.run c) else s

theorem computes_sequence {p : Setting} (hq : Quiet p) {P : State → Action → Prop}
    {cs : List WholeCall} {s : State} (run : Sequence P cs s) :
    ∀ᶠ n in atTop, Computes 0 (forM cs (callCode (p.within n))) initial () s := by
  induction run with
  | start => exact .of_forall fun _ => computes_pure ()
  | call hrun hmakes _ ih =>
    filter_upwards [ih, computes_call hq hrun.wholeRun hmakes] with n hn hcall
    rw [List.forM_append]
    apply hn.bind
    exact hcall.bind (computes_pure ())

/-- Calls that do not interleave leave with their locks what the heap model makes of them, and the
thread as it was. Every call that may be made next ends likewise. Where each new weak link is to an
object with a strong reference, no assertion fails, so the calls return with assertions compiled
in. -/
theorem sequence_computed {p : Setting} (hq : Quiet p) {cs : List WholeCall} {s : State}
    (run : Sequence anyStep cs s) :
    (∀ᶠ n in atTop, Computes 0 (forM cs (callCode (p.within n))) initial () s) ∧
      (∀ call : WholeCall, Enabled s call.action → ∃ s', call.Makes s s' ∧
        ∀ᶠ n in atTop, Computes 0 (callCode (p.within n) call) s () s') ∧
      (Sequence StrongEnough cs s → AssertionsHold s ∧
        ∀ (call : WholeCall) (s' : State), StrongEnough s call.action → call.Makes s s' →
          AssertionsHold s') ∧
      ∀ x f, Computes 0 (objectGet x f) s (Acid.objectGet s x f) s := by
  refine ⟨computes_sequence hq run, fun call he => ?_, fun hstrong => ?_, computes_objectGet⟩
  · obtain ⟨s', hmakes⟩ := call.makes_of_enabled run.wholeRun he
    exact ⟨s', hmakes, computes_call hq run.wholeRun hmakes⟩
  · refine ⟨hstrong.wholeRun.idle.asserts, fun call s' hK hmakes => ?_⟩
    exact (hmakes.wholeRun hstrong.wholeRun hK).idle.asserts

/-- Assertions are compiled in, and destructors do nothing. -/
def plainSetting : Setting := ⟨0, false, fun _ => pure ()⟩

theorem sequence_computed_cycleCalls : ∃ s, playAll strongEnoughTest 30 initial cycleCalls = some s ∧
    (∀ᶠ n in atTop, Computes 0 (forM cycleCalls (callCode (plainSetting.within n))) initial () s) ∧
    AssertionsHold s := by
  obtain ⟨s, hs⟩ := Option.isSome_iff_exists.mp
    (show (playAll strongEnoughTest 30 initial cycleCalls).isSome = true by decide +kernel)
  have hany : Sequence anyStep cycleCalls s := Sequence.play (fun _ _ _ => trivial) .start hs
  have hstrong : Sequence StrongEnough cycleCalls s := Sequence.play strongEnough_of_test .start hs
  have hcomputed := sequence_computed (p := plainSetting) (fun _ _ => computes_pure ()) hany
  exact ⟨s, hs, hcomputed.1, (hcomputed.2.2.1 hstrong).1⟩

end Acid.Locked

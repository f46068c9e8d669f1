import Acid.Progress
import Mathlib.Data.Set.Finite.Lemmas

set_option autoImplicit false

/-!
# The worker until its queue is empty

Between two tasks of a single worker the program may call. As long as a task is left, one
in the queue frees an object, empties lists or ends a collector.
-/
namespace Acid
open PointerForest Tally

/-- `task_run` on the first task of the queue, with at most `k` iterations of its loops. -/
def taskRun (k : ℕ) (s : State) : Task → Option State
  | .run c => collectorRun k s 0 c
  | .delete o => some (exec s (.delete 0 o))

/-- The loop of `worker_run` up to the first time that it finds the queue empty, for at most `n`
tasks. -/
def workerRun (k : ℕ) : ℕ → State → Option State
  | n, s =>
    match s.work with
    | [] => some s
    | t :: _ =>
      match n with
      | 0 => none
      | n + 1 => (taskRun k s t).bind (workerRun k n)

/-- The worker ends the task that it is at, if there is one, and goes on until its queue is empty. -/
def workerFinish (k n : ℕ) (s : State) : Option State := (runSteps k s).bind (workerRun k n)

/-- One worker takes the tasks in their order, and the program calls between two tasks. A new link
is weak only where its referent has a strong reference. -/
def TakesTurns (s : State) : Action → Prop
  | .enter i _ => i = 0 ∧ s.running = []
  | .delete i _ => i = 0 ∧ s.running = []
  | .iterate _ _ _ => True
  | a => s.running = [] ∧ StrongEnough s a

theorem workerRun_nil (k n : ℕ) {s : State} (h : s.work = []) : workerRun k n s = some s := by
  unfold workerRun
  rw [h]

theorem workerRun_cons (k n : ℕ) {s : State} {t : Task} {ts : List Task} (h : s.work = t :: ts) :
    workerRun k (n + 1) s = (taskRun k s t).bind (workerRun k n) := by
  rw [workerRun, h]

/-! ## What a task keeps -/

namespace Idle
variable {s : State} (h : Idle s)
include h

omit h in
theorem keeps_enter {i c : ℕ} : KeepsReachable s (exec s (.enter i c)) := by
  apply KeepsReachable.of_graph
  unfold exec collectorEnter
  dsimp only
  split_ifs
  · exact ⟨fun _ => rfl, fun _ => rfl, fun _ => rfl, fun _ => rfl, rfl, rfl, rfl⟩
  · exact ⟨fun _ => rfl, fun _ => rfl, fun _ => rfl, fun _ => rfl, rfl, rfl, rfl⟩

theorem taskRun {k : ℕ} {t : Task} {ts : List Task} {s' : State} (hw : s.work = t :: ts)
    (hr : Acid.taskRun k s t = some s') : Idle s' ∧ KeepsReachable s s' := by
  cases t with
  | delete o =>
    have he : Enabled s (.delete 0 o) := by
      change s.work[0]? = _
      rw [hw]
      rfl
    exact Option.some.inj hr ▸ ⟨h.delete he, h.keeps_delete he⟩
  | run c =>
    have he : Enabled s (.enter 0 c) := by
      change s.work[0]? = _
      rw [hw]
      rfl
    have hkeeps : KeepsReachable s (exec s (.enter 0 c)) := keeps_enter
    change runSteps k (exec s (.enter 0 c)) = some s' at hr
    rcases h.enter he with hidle | hrun
    · rw [runSteps_nil k hidle.running] at hr
      exact Option.some.inj hr ▸ ⟨hidle, hkeeps⟩
    · obtain ⟨hidle, hrest⟩ := runSteps_idle hrun hr
      exact ⟨hidle, hkeeps.trans hrest⟩

theorem workerRun {k n : ℕ} {s' : State} (hr : Acid.workerRun k n s = some s') :
    Idle s' ∧ s'.work = [] ∧ KeepsReachable s s' := by
  induction n generalizing s with
  | zero =>
    cases hw : s.work with
    | nil =>
      rw [workerRun_nil k 0 hw] at hr
      exact Option.some.inj hr ▸ ⟨h, hw, .refl s⟩
    | cons t ts =>
      rw [Acid.workerRun, hw] at hr
      cases hr
  | succ n ih =>
    cases hw : s.work with
    | nil =>
      rw [workerRun_nil k _ hw] at hr
      exact Option.some.inj hr ▸ ⟨h, hw, .refl s⟩
    | cons t ts =>
      rw [workerRun_cons k n hw] at hr
      obtain ⟨u, hu, hrest⟩ := Option.bind_eq_some_iff.mp hr
      obtain ⟨hidle, hkeeps⟩ := h.taskRun hw hu
      obtain ⟨hidle', hnil, hkeeps'⟩ := ih hidle hrest
      exact ⟨hidle', hnil, hkeeps.trans hkeeps'⟩

/-! ## Which tasks there are -/

theorem task_of_alive {c : ℕ} (hc : Alive s c) : .run c ∈ s.work := by
  have htasks := h.sound.tasks.alive hc
  rw [runTasks, h.running, List.countP_nil, add_zero] at htasks
  exact List.count_pos_iff.mp (by omega)

theorem alive_of_task {c : ℕ} (hc : .run c ∈ s.work) : Alive s c := by
  apply h.sound.alive_of_runs
  have hpos := List.count_pos_iff.mpr hc
  rw [runTasks]
  omega

theorem alive_of_active {a : ℕ} (ha : (layout s).Active a) : Alive s a := by
  obtain ⟨n, hn⟩ := ha
  obtain ⟨x, xs, hd⟩ := List.exists_cons_of_ne_nil hn
  apply (h.sound.collectors.root_of_mem (r := (a, n)) (x := x) _).2
  change x ∈ (layout s).data (a, n)
  rw [hd]
  exact List.mem_cons_self ..

omit h in
theorem active_of_listed {x : ℕ} (hx : Listed s x) : ∃ a, (layout s).Active a := by
  obtain ⟨⟨a, n⟩, _, hm⟩ := hx
  exact ⟨a, n, List.ne_nil_of_mem hm⟩

/-- Without lists and delete tasks nothing is phantomized. -/
theorem ghosts_eq_empty (hactive : ∀ a, ¬ (layout s).Active a) (hdelete : ∀ o, .delete o ∉ s.work) :
    ghosts s = ∅ := by
  ext x
  constructor
  · intro hx
    rcases h.placed x hx with hlist | ⟨_, hp⟩
    · obtain ⟨a, ha⟩ := active_of_listed hlist
      exact absurd ha (hactive a)
    · exact absurd hp (hdelete x)
  · exact fun hx => absurd hx id

theorem quiet (hw : s.work = []) : ghosts s = ∅ := by
  apply h.ghosts_eq_empty
  · intro a ha
    have hm := h.task_of_alive (h.alive_of_active ha)
    rw [hw] at hm
    cases hm
  · intro o hm
    rw [hw] at hm
    cases hm

end Idle

/-- Either no task is under way, or one run. -/
def InTurn (s : State) : Prop := Idle s ∨ ∃ c loop, Collecting s c loop

namespace InTurn
variable {s : State} (h : InTurn s)
include h

theorem idle (hr : s.running = []) : Idle s := by
  rcases h with hidle | ⟨c, loop, hrun⟩
  · exact hidle
  · rw [hrun.running] at hr
    cases hr

/-- A step of the worker keeps what is reachable. -/
theorem worker {a : Action} (he : Enabled s a) (ht : TakesTurns s a) (ha : a.mutator = false) :
    InTurn (exec s a) ∧ KeepsReachable s (exec s a) := by
  cases a with
  | enter i c => exact ⟨((h.idle ht.2).enter he).imp id fun hrun => ⟨c, _, hrun⟩, Idle.keeps_enter⟩
  | delete i o => exact ⟨.inl ((h.idle ht.2).delete he), (h.idle ht.2).keeps_delete he⟩
  | iterate i c loop =>
    rcases h with hidle | ⟨d, m, hrun⟩
    · have hnone : s.running[i]? = some (c, loop) := he
      rw [hidle.running] at hnone
      cases hnone
    · have hsome : s.running[i]? = some (c, loop) := he
      rw [hrun.running] at hsome
      obtain ⟨rfl, heq⟩ : i = 0 ∧ (d, m) = (c, loop) := by
        rcases i with _ | i
        · exact ⟨rfl, Option.some.inj hsome⟩
        · cases hsome
      obtain ⟨rfl, rfl⟩ := Prod.mk.inj heq
      exact ⟨hrun.step.imp id fun ⟨next, hnext⟩ => ⟨_, next, hnext⟩, hrun.keeps⟩
  | initStrong d => cases ha
  | incStrong o => cases ha
  | decStrong o => cases ha
  | set o f r => cases ha

theorem exec {a : Action} (he : Enabled s a) (ht : TakesTurns s a) : InTurn (Acid.exec s a) := by
  by_cases ha : a.mutator = true
  · have hturn : s.running = [] ∧ StrongEnough s a := by
      cases a with
      | enter i c => cases ha
      | delete i o => cases ha
      | iterate i c loop => cases ha
      | _ => exact ht
    exact .inl ((h.idle hturn.1).call he ha hturn.2)
  · exact (h.worker he ht (by simpa using ha)).1

end InTurn

theorem Run.inTurn {s : State} (run : Run TakesTurns initial s) : InTurn s := by
  induction run with
  | start => exact .inl idle_initial
  | step _ he ht ih => exact ih.exec he ht

/-- Between two tasks a field may always be set to an object that is not phantomized. -/
theorem Run.takesTurns_set {s : State} (run : Run TakesTurns initial s) (hr : s.running = [])
    {o f x : ℕ} (hx : Reachable s x) (hp : (s.objects x).phantomized = false) :
    TakesTurns s (.set o f (some x)) :=
  ⟨hr, (run.inTurn.idle hr).strongEnough hx hp⟩

/-- No step of the worker frees an object that the program can reach, or changes a field of one. -/
theorem run_keepsReachable {s : State} (run : Run TakesTurns initial s) {a : Action}
    (he : Enabled s a) (ht : TakesTurns s a) (ha : a.mutator = false) (o : ℕ) (ho : Reachable s o) :
    Reachable (exec s a) o ∧ Live (exec s a) o ∧ ∀ f, objectGet (exec s a) o f = objectGet s o f := by
  obtain ⟨hturn, hkeeps⟩ := run.inTurn.worker he ht ha
  have hstays := (hkeeps.reachable_iff o).mpr ho
  have hsound : Run anyStep initial (exec s a) := (run.step he ht).mono fun _ _ _ => trivial
  refine ⟨hstays, ?_, hkeeps.objectGet ho⟩
  exact hsound.anySound.live_of_inUse (hsound.anySound.inUse_of_reachable rfl hstays)

def turnsTest (s : State) : Action → Bool
  | .enter i _ => i = 0 && s.running = []
  | .delete i _ => i = 0 && s.running = []
  | .iterate _ _ _ => true
  | a => s.running = [] && strongEnoughTest s a

theorem takesTurns_of_test (s : State) (a : Action) (h : turnsTest s a = true) : TakesTurns s a := by
  cases a with
  | set o f r =>
    simp only [turnsTest, Bool.and_eq_true, decide_eq_true_eq] at h
    exact ⟨h.1, strongEnough_of_test s _ h.2⟩
  | enter i c => simpa [turnsTest, TakesTurns] using h
  | delete i o => simpa [turnsTest, TakesTurns] using h
  | iterate i c loop => trivial
  | initStrong d => exact ⟨by simpa [turnsTest, strongEnoughTest] using h, trivial⟩
  | incStrong o => exact ⟨by simpa [turnsTest, strongEnoughTest] using h, trivial⟩
  | decStrong o => exact ⟨by simpa [turnsTest, strongEnoughTest] using h, trivial⟩

/-- Two objects that link to each other, and one of them to a third, when the claims on the two are
gone and their collector has begun to run. -/
def droppedCycle : List Action :=
  [.initStrong false, .initStrong false, .initStrong true, .set 0 0 (some 1), .set 1 0 (some 0),
    .set 1 1 (some 2), .decStrong 0, .decStrong 1, .enter 0 0, .iterate 0 0 .merged]

theorem run_droppedCycle : Run TakesTurns initial (replay initial droppedCycle) :=
  Run.replay takesTurns_of_test .start
    (show replayable turnsTest initial droppedCycle = true by decide +kernel)

theorem run_keepsReachable_droppedCycle :
    Live (exec (replay initial droppedCycle) (.iterate 0 0 .collect)) 2 :=
  (run_keepsReachable run_droppedCycle
    (enabled_of_test (show enabledTest (replay initial droppedCycle) (.iterate 0 0 .collect) = true by
      decide +kernel)) trivial rfl 2 (reachable_of_mem_reached (by decide +kernel))).2.1

/-! ## The worker makes progress -/

/-- The task deletes an object, empties lists or ends a collector. -/
def Productive (s : State) : Task → Prop
  | .delete _ => True
  | .run c => (layout s).Active c ∨ (s.collectors c).refCount = 0

/-- Where no task makes progress, each collector has one that forwards to it. -/
theorem Idle.productive {s : State} (h : Idle s) (hw : s.work ≠ []) : ∃ t ∈ s.work, Productive s t := by
  by_contra hnone
  push Not at hnone
  have hdelete : ∀ o, .delete o ∉ s.work := fun o hm => hnone _ hm trivial
  have hrun : ∀ c, Alive s c → ¬ (layout s).Active c ∧ (s.collectors c).refCount ≠ 0 := by
    intro c hc
    have hm := hnone _ (h.task_of_alive hc)
    simpa [Productive] using hm
  have hactive : ∀ a, ¬ (layout s).Active a := fun a ha => (hrun a (h.alive_of_active ha)).1 ha
  have hghosts := h.ghosts_eq_empty hactive hdelete
  have hcollector : ∀ x, (s.objects x).collector = none := by
    intro x
    by_contra hx
    rcases h.pointed x hx with hpos | hd
    · have hcount2 := h.sound.balance.count2 x
      have hcuration : curation s x ≤ 0 := by
        by_contra hc
        obtain ⟨a, ha⟩ := active_of_listed (listed_of_curation (s := s) (x := x) (by omega))
        exact hactive a ha
      have hlinks : phantomRefs s (tableLinks s) x = 0 := by
        apply tally_eq_zero.mpr
        rintro l hl ⟨_, hp⟩
        obtain ⟨o, ho⟩ := h.sound.mem_tableLinks.mp hl
        have hm := h.ghost_of_link ho hp
        rw [hghosts] at hm
        exact hm
      simp [restLedger, hlinks] at hcount2
      omega
    · rcases hd with hm | hm
      · exact hdelete x hm
      · cases hm
  have hfollower : ∀ c, Alive s c → ∃ a, Alive s a ∧ s.forward a = some c := by
    intro c hc
    have href := h.sound.collectors.ref c
    have hholders : holders s c = 0 := by
      apply tally_eq_zero.mpr
      intro x _ hx
      rw [hcollector] at hx
      cases hx
    have hne := (hrun c hc).2
    have hnn : 0 ≤ followers s c := tally_nonneg _ _
    obtain ⟨a, _, ha⟩ := exists_of_tally_pos (show 0 < followers s c by omega)
    exact ⟨a, (h.sound.collectors.forward_alive ha).1, ha⟩
  -- a follower of the collector with the highest rank ranks higher
  obtain ⟨rank, hrank⟩ := h.sound.collectors.ranked
  have hfin : {c | Alive s c}.Finite :=
    (Set.finite_lt_nat s.numCollector).subset fun c hc => hc.1
  have hex : {c | Alive s c}.Nonempty := by
    obtain ⟨t, ts, ht⟩ := List.exists_cons_of_ne_nil hw
    have hm : t ∈ s.work := by
      rw [ht]
      exact List.mem_cons_self ..
    cases t with
    | run c => exact ⟨c, h.alive_of_task hm⟩
    | delete o => exact absurd hm (hdelete o)
  obtain ⟨c, hc, hmax⟩ := Set.exists_max_image _ rank hfin hex
  obtain ⟨a, ha, hac⟩ := hfollower c hc
  have hlt := hrank a c hac
  have hle := hmax a ha
  omega

end Acid

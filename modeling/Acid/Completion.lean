import Acid.WorkerRun
import Mathlib.Data.Set.Card

set_option autoImplicit false

/-!
# The worker comes to the end of its queue

A task frees an object, takes the last objects from the lists of a collector, ends a
collector, or waits. Where a run leaves as many collectors with objects as before, its
collector was forwarded, and it has phantomized one object more.
-/
namespace Acid
open PointerForest Tally

/-- What a task that is productive uses up. -/
inductive Advances (s s' : State) : Prop where
  | deleted (live : {x | Live s' x}.ncard < {x | Live s x}.ncard)
  | emptied (live : {x | Live s' x} = {x | Live s x})
      (active : {a | (layout s').Active a}.ncard < {a | (layout s).Active a}.ncard)
  | joined (live : {x | Live s' x} = {x | Live s x})
      (active : {a | (layout s').Active a}.ncard ≤ {a | (layout s).Active a}.ncard)
      (grown : ghosts s ⊆ ghosts s' ∧ ∃ x ∈ ghosts s', x ∉ ghosts s)
  | ended (live : {x | Live s' x} = {x | Live s x})
      (active : {a | (layout s').Active a} = {a | (layout s).Active a})
      (same : ghosts s' = ghosts s) (alive : {c | Alive s' c}.ncard < {c | Alive s c}.ncard)

theorem live_finite (s : State) : {x | Live s x}.Finite :=
  (Set.finite_lt_nat s.objectCount).subset fun _ hx => hx.1

theorem alive_finite (s : State) : {c | Alive s c}.Finite :=
  (Set.finite_lt_nat s.numCollector).subset fun _ hc => hc.1

theorem ncard_lt_of_mem {A B : Set ℕ} (hB : B.Finite) (hsub : A ⊆ B) {x : ℕ} (hx : x ∈ B)
    (hnot : x ∉ A) : A.ncard < B.ncard :=
  Set.ncard_lt_ncard ⟨hsub, fun hback => hnot (hback hx)⟩ hB

theorem ghosts_subset_live (s : State) : ghosts s ⊆ {x | Live s x} := fun _ hx => hx.1

/-- Entering a run task, where its collector need not wait. -/
theorem exec_enter {s : State} {i c : ℕ} (h : counterContinueWaiting s c = false) :
    exec s (.enter i c) =
      { s with work := s.work.eraseIdx i, running := s.running ++ [(c, .merged)] } := by
  change collectorEnter s i c = _
  unfold collectorEnter
  dsimp only
  rw [if_neg]
  change ¬ counterContinueWaiting s c = true
  rw [h]
  exact Bool.false_ne_true

namespace Idle
variable {s : State} (h : Idle s)
include h

theorem active_finite : {a | (layout s).Active a}.Finite :=
  (alive_finite s).subset fun _ ha => h.alive_of_active ha

theorem storeCount_zero {c : ℕ} (hc : ¬ (layout s).Active c) : (s.collectors c).storeCount = 0 := by
  have hempty : ∀ n, ((s.collectors c).lists n).data = [] := by
    intro n
    by_contra hn
    exact hc ⟨n, hn⟩
  rw [h.sound.collectors.store c]
  simp [Collector.stored, hempty]

theorem storeCount_pos {c : ℕ} (hc : (layout s).Active c) : 0 < (s.collectors c).storeCount := by
  obtain ⟨n, hn⟩ := hc
  have hlen : 0 < ((s.collectors c).lists n).data.length := List.length_pos_iff.mpr hn
  have hle := (s.collectors c).length_le_stored n
  have hst : (s.collectors c).storeCount = (s.collectors c).stored := h.sound.collectors.store c
  omega

theorem refCount_nonneg (c : ℕ) : 0 ≤ (s.collectors c).refCount := by
  have hholders : 0 ≤ holders s c := tally_nonneg _ _
  have hfollowers : 0 ≤ followers s c := tally_nonneg _ _
  rw [h.sound.collectors.ref c]
  omega

omit h in
theorem enabled {t : Task} {ts : List Task} (hw : s.work = t :: ts) : s.work[0]? = some t := by
  rw [hw]
  rfl

/-- A collector with objects, or one that nothing refers to, does not wait. -/
theorem no_wait {c : ℕ} (hc : Productive s (.run c)) : counterContinueWaiting s c = false := by
  rcases hc with hactive | href
  · have hpos := h.storeCount_pos hactive
    simp only [counterContinueWaiting, Bool.and_eq_false_iff, decide_eq_false_iff_not]
    right
    omega
  · simp [counterContinueWaiting, href]

theorem starts {c : ℕ} {ts : List Task} (hw : s.work = .run c :: ts)
    (hc : Productive s (.run c)) : Collecting (exec s (.enter 0 c)) c .merged := by
  have hwait := h.no_wait hc
  have hrunning : (exec s (.enter 0 c)).running = [(c, .merged)] := by
    rw [exec_enter hwait, h.running]
    rfl
  rcases h.enter (i := 0) (c := c) (enabled hw) with hidle | hrun
  · rw [hidle.running] at hrunning
    cases hrunning
  · exact hrun

/-! ## One task -/

theorem advances_delete {o : ℕ} {ts : List Task} (hw : s.work = .delete o :: ts) :
    Advances s (exec s (.delete 0 o)) := by
  obtain ⟨hshape, _, hcount, _⟩ :=
    objectRequestDeleteTaskRun_effect { s with work := s.work.eraseIdx 0 } o
  have hpending : Doomed s [] o := .inl (List.mem_of_getElem? (enabled hw))
  have hlive := (h.sound.deletes.pending hpending).1
  have hfreed : ∀ x, ((exec s (.delete 0 o)).objects x).freed =
      ((({ s with work := s.work.eraseIdx 0 } : State).modifyObject o deletedRecord).objects x).freed := by
    intro x
    exact show (_ : Object).shape.freed = (_ : Object).shape.freed from
      congrArg Object.freed (hshape x)
  apply Advances.deleted
  apply ncard_lt_of_mem (live_finite s) _ hlive
  · rintro ⟨_, hx⟩
    rw [hfreed, State.modifyObject_objects_self] at hx
    cases hx
  · rintro x ⟨hlt, hx⟩
    rw [hfreed, State.modifyObject_objects] at hx
    change x < (objectRequestDeleteTaskRun _ o).objectCount at hlt
    rw [hcount] at hlt
    split_ifs at hx
    · cases hx
    · exact ⟨hlt, hx⟩

/-- A run of a collector that has objects. -/
theorem advances_run {c k : ℕ} {ts : List Task} {s' : State} (hw : s.work = .run c :: ts)
    (hactive : (layout s).Active c) (hr : runSteps k (exec s (.enter 0 c)) = some s') :
    Advances s s' := by
  have hstarts := h.starts hw (.inl hactive)
  have heq := exec_enter (i := 0) (h.no_wait (.inl hactive))
  obtain ⟨n, hn⟩ := hactive
  obtain ⟨x, xs, hx⟩ := List.exists_cons_of_ne_nil hn
  have hmem : x ∈ (s.safelist (c, n)).data := by
    rw [show (s.safelist (c, n)).data = x :: xs from hx]
    exact List.mem_cons_self ..
  have hroot : collectorUpdate s c = c :=
    collectorUpdate_of_root (h.sound.collectors.root_of_mem hmem).1
  have hstart : Progress s c .merged (exec s (.enter 0 c)) := by
    rw [heq]
    exact ⟨fun _ => Iff.rfl, Confined.refl c (layout s), fun _ => subset_rfl,
      fun hne => absurd hroot hne⟩
  have hran := runSteps_ran hstart hstarts hr
  have hlive : {x | Live s' x} = {x | Live s x} := Set.ext hran.live
  rcases hran.active with hsub | ⟨hgrown, t, hsub⟩
  · apply Advances.emptied hlive
    exact ncard_lt_of_mem h.active_finite (fun a ha => (hsub a ha).2) ⟨n, hn⟩ fun hc => (hsub c hc).1 rfl
  · apply Advances.joined hlive _ hgrown
    have hfin := h.active_finite
    have hinsert : {a | (layout s').Active a} ⊆ insert t ({a | (layout s).Active a} \ {c}) := by
      intro a ha
      obtain ⟨hac, hat⟩ := hsub a ha
      exact hat.imp id fun hold => ⟨hold, hac⟩
    calc {a | (layout s').Active a}.ncard
        ≤ (insert t ({a | (layout s).Active a} \ {c})).ncard :=
          Set.ncard_le_ncard hinsert ((hfin.sdiff).insert t)
      _ ≤ ({a | (layout s).Active a} \ {c}).ncard + 1 := Set.ncard_insert_le _ _
      _ = {a | (layout s).Active a}.ncard := Set.ncard_sdiff_singleton_add_one ⟨n, hn⟩ hfin

/-- A run of a collector that nothing refers to. -/
theorem advances_end {c k : ℕ} {ts : List Task} {s' : State} (hw : s.work = .run c :: ts)
    (hactive : ¬ (layout s).Active c) (href : (s.collectors c).refCount = 0)
    (hr : runSteps k (exec s (.enter 0 c)) = some s') : Advances s s' := by
  have hstore := h.storeCount_zero hactive
  have heq := exec_enter (i := 0) (h.no_wait (.inr href))
  have hdone : counterDone s c = true := by
    simp [counterDone, href, hstore]
  have halive : Alive s c := h.alive_of_task (List.mem_of_getElem? (enabled hw))
  have hempty : ∀ m, (s.safelist (c, m)).data = [] := by
    intro m
    by_contra hm
    exact hactive ⟨m, hm⟩
  rw [heq, h.running] at hr
  have hend := runSteps_spent (s := { s with
    work := s.work.eraseIdx 0, running := [] ++ [(c, .merged)] }) rfl hempty hr
  generalize hu : ({ s with work := s.work.eraseIdx 0, running := [(c, .exit)] } : State) = u at hend
  have hcollectors : Collectors u := by
    have hc := h.sound.collectors
    subst hu
    exact ⟨hc.ranked, hc.forward_alive, hc.object_alive, hc.lists, hc.empty, hc.ref, hc.store,
      hc.counted⟩
  have hdone' : counterDone u c = true := by
    rw [← hu]
    exact hdone
  have hre := hcollectors.retire_eq c
  have hsame : s' = { retire u c with running := (retire u c).running.eraseIdx 0 } := by
    rcases runIteration_cases u 0 c .exit with ⟨_, _, he⟩ | ⟨_, hnot, _⟩ | ⟨hne, _⟩ | ⟨hne, _⟩
    · exact hend.trans he
    · rw [hdone'] at hnot
      cases hnot
    · exact absurd rfl hne
    · exact absurd rfl hne
  have hobj : s'.objects = s.objects := by
    rw [hsame, hre, ← hu]
  have hcount : s'.objectCount = s.objectCount := by
    rw [hsame, hre, ← hu]
  have hdata : ∀ r, (s'.safelist r).data = (s.safelist r).data := by
    intro r
    rw [hsame, ← show (u.safelist r).data = (s.safelist r).data from hu ▸ rfl]
    exact hcollectors.retire_safelist hdone' r
  have hleft : ∀ a, Alive s' a ↔ Alive s a ∧ a ≠ c := by
    intro a
    rw [hsame, ← show Alive u a ↔ Alive s a from hu ▸ Iff.rfl]
    exact hcollectors.retire_alive c a
  apply Advances.ended
  · ext x
    simp only [Set.mem_ofPred_eq, Live, hobj, hcount]
  · ext a
    simp only [Set.mem_ofPred_eq, Layout.Active, layout, hdata]
  · exact ghosts_congr hobj hcount
  · exact ncard_lt_of_mem (alive_finite s) (fun a ha => ((hleft a).mp ha).1) halive
      fun hc => ((hleft c).mp hc).2 rfl

/-- The first task returns, and where it is productive it uses something up. -/
theorem advances {t : Task} {ts : List Task} (hw : s.work = t :: ts) (ht : Productive s t) :
    ∃ M s', (∀ k, M ≤ k → Acid.taskRun k s t = some s') ∧ Advances s s' := by
  cases t with
  | delete o => exact ⟨0, _, fun _ _ => rfl, h.advances_delete hw⟩
  | run c =>
    have hstart := h.starts hw ht
    obtain ⟨M, s', hs'⟩ := runSteps_returns hstart.any hstart.running
    refine ⟨M, s', hs', ?_⟩
    by_cases hactive : (layout s).Active c
    · exact h.advances_run hw hactive (hs' M (le_refl M))
    · exact h.advances_end hw hactive (ht.resolve_left hactive) (hs' M (le_refl M))

/-- A task that is not productive goes to the end of the queue. -/
theorem rotates {t : Task} {ts : List Task} (hw : s.work = t :: ts) (ht : ¬ Productive s t) (k : ℕ) :
    Acid.taskRun k s t = some { s with work := ts ++ [t] } := by
  cases t with
  | delete o => exact absurd trivial ht
  | run c =>
    simp only [Productive, not_or] at ht
    have hnn := h.refCount_nonneg c
    have hpos : 0 < (s.collectors c).refCount := by omega
    have hstore := h.storeCount_zero ht.1
    have hwait : counterContinueWaiting s c = true := by
      simp [counterContinueWaiting, hpos, hstore]
    have heq : exec s (.enter 0 c) = { s with work := ts ++ [.run c] } := by
      change collectorEnter s 0 c = _
      unfold collectorEnter
      dsimp only
      rw [if_pos (show counterContinueWaiting { s with work := s.work.eraseIdx 0 } c = true from hwait),
        State.addTask, hw]
      rfl
    change runSteps k (exec s (.enter 0 c)) = _
    rw [heq]
    exact runSteps_nil k h.running

end Idle

/-- The objects in use, the collectors with objects, the objects to phantomize and the collectors,
in this order of importance. -/
theorem Advances.decreases {s s' : State} (h : Advances s s') (i j : ℕ) :
    Prod.Lex (· < ·) (Prod.Lex (· < ·) (Prod.Lex (· < ·) (Prod.Lex (· < ·) (· < ·))))
      ({x | Live s' x}.ncard, {a | (layout s').Active a}.ncard,
        ({x | Live s' x} \ ghosts s').ncard, {c | Alive s' c}.ncard, i)
      ({x | Live s x}.ncard, {a | (layout s).Active a}.ncard,
        ({x | Live s x} \ ghosts s).ncard, {c | Alive s c}.ncard, j) := by
  cases h with
  | deleted live => exact .left _ _ live
  | emptied live active =>
    rw [live]
    exact .right _ (.left _ _ active)
  | joined live active grown =>
    obtain ⟨hsub, x, hx, hnew⟩ := grown
    have hlive : x ∈ {x | Live s x} := live ▸ ghosts_subset_live s' hx
    have hfewer : ({x | Live s x} \ ghosts s').ncard < ({x | Live s x} \ ghosts s).ncard :=
      ncard_lt_of_mem (live_finite s).sdiff (Set.sdiff_subset_sdiff_right hsub) ⟨hlive, hnew⟩
        fun hback => hback.2 hx
    rw [live]
    rcases active.lt_or_eq with hl | he
    · exact .right _ (.left _ _ hl)
    · rw [he]
      exact .right _ (.right _ (.left _ _ hfewer))
  | ended live active same alive =>
    rw [live, active, same]
    exact .right _ (.right _ (.right _ (.left _ _ alive)))

/-- The worker returns where some task in the queue is productive. -/
theorem Idle.worker_returns {s : State} (h : Idle s) {i : ℕ} {t : Task} (hi : s.work[i]? = some t)
    (ht : Productive s t) : ∃ N s', ∀ n k, N ≤ n → N ≤ k → Acid.workerRun k n s = some s' := by
  obtain ⟨t0, ts, hw⟩ : ∃ t0 ts, s.work = t0 :: ts := by
    apply List.exists_cons_of_ne_nil
    intro hnil
    rw [hnil] at hi
    cases hi
  have hnext : ∀ {M s1}, (∀ k, M ≤ k → Acid.taskRun k s t0 = some s1) →
      (∃ N s', ∀ n k, N ≤ n → N ≤ k → Acid.workerRun k n s1 = some s') →
      ∃ N s', ∀ n k, N ≤ n → N ≤ k → Acid.workerRun k n s = some s' := by
    rintro M s1 hs1 ⟨N, s', hs'⟩
    refine ⟨M + N + 1, s', fun n k hn hk => ?_⟩
    obtain ⟨m, rfl⟩ : ∃ m, n = m + 1 := ⟨n - 1, by omega⟩
    rw [workerRun_cons k m hw, hs1 k (by omega)]
    exact hs' m k (by omega) (by omega)
  by_cases hhead : Productive s t0
  · obtain ⟨M, s1, hs1, hadv⟩ := h.advances hw hhead
    have hidle := (h.taskRun hw (hs1 M (le_refl M))).1
    apply hnext hs1
    by_cases hw1 : s1.work = []
    · exact ⟨0, s1, fun n k _ _ => workerRun_nil k n hw1⟩
    · obtain ⟨u, hu, hprod⟩ := hidle.productive hw1
      obtain ⟨j, hj⟩ := List.mem_iff_getElem?.mp hu
      have hless := hadv.decreases j i
      exact hidle.worker_returns hj hprod
  · have hrotate := h.rotates hw hhead
    have hidle := (h.taskRun hw (hrotate 0)).1
    cases i with
    | zero =>
      rw [hw] at hi
      obtain rfl : t0 = t := Option.some.inj hi
      exact absurd ht hhead
    | succ j =>
      rw [hw, List.getElem?_cons_succ] at hi
      have hj : (ts ++ [t0])[j]? = some t := by
        rw [List.getElem?_append_left (List.getElem?_eq_some_iff.mp hi).1]
        exact hi
      apply hnext (M := 0) (fun k _ => hrotate k)
      exact hidle.worker_returns hj ht
termination_by ({x | Live s x}.ncard, {a | (layout s).Active a}.ncard,
  ({x | Live s x} \ ghosts s).ncard, {c | Alive s c}.ncard, i)
decreasing_by
  · exact hless
  · exact .right _ (.right _ (.right _ (.right _ (by omega))))

/-! ## What is left -/

/-- The worker returns, with the queue empty. -/
theorem Idle.drains {s : State} (h : Idle s) :
    ∃ N s', ∀ n k, N ≤ n → N ≤ k → Acid.workerRun k n s = some s' := by
  by_cases hw : s.work = []
  · exact ⟨0, s, fun n k _ _ => workerRun_nil k n hw⟩
  · obtain ⟨t, ht, hprod⟩ := h.productive hw
    obtain ⟨i, hi⟩ := List.mem_iff_getElem?.mp ht
    exact h.worker_returns hi hprod

/-- Between the tasks, with none left, what is in use is reachable. -/
theorem Idle.live_iff {s : State} (h : Idle s) (hw : s.work = []) (o : ℕ) :
    Live s o ↔ Reachable s o := by
  constructor
  · intro ho
    obtain ⟨r, _, hclaim, hpath⟩ := h.any.strong_acyclic.reached (live_finite s)
      (P := fun x => 0 < s.claims x)
      (fun x hx => (h.run.strong_of_quiet hw h.running hx).imp id id) ho
    have hsub : ∀ a b, StrongEdge s a b → Edge s a b := fun a b ⟨l, hl, ht, _⟩ => ⟨l, hl, ht⟩
    exact ⟨r, hclaim, Relation.ReflTransGen.mono hsub r o hpath⟩
  · exact fun ho => h.sound.live_of_inUse (h.sound.inUse_of_reachable rfl ho)

/-- The difference of the world counters is the number of objects in use. -/
theorem Sound.world_sub {s : State} {L : Ledger} (h : Sound s L) :
    (s.acidWorldCount : ℤ) - s.acidCollectCount = {o | Live s o}.ncard := by
  have hset : {o | Live s o} =
      ↑((Finset.range s.objectCount).filter fun o => ¬ (s.objects o).freed = true) := by
    ext o
    simp [Live]
  have hsplit := Finset.card_filter_add_card_filter_not (s := Finset.range s.objectCount)
    (fun o => (s.objects o).freed = true)
  have hcollected := h.deletes.collected
  rw [tally_eq_card] at hcollected
  rw [Finset.card_range] at hsplit
  rw [hset, Set.ncard_coe_finset, h.deletes.world, hcollected]
  omega

/-- What a state is like in which the worker has collected everything that `s` could not reach. -/
structure Collected (s s' : State) : Prop where
  work : s'.work = []
  running : s'.running = []
  live : ∀ o, Live s' o ↔ Reachable s o
  plain : ∀ o, Reachable s o → (s'.objects o).phantomized = false
  fields : ∀ o, Reachable s o → ∀ f, objectGet s' o f = objectGet s o f
  world : (s'.acidWorldCount : ℤ) - s'.acidCollectCount = {o | Reachable s o}.ncard
  asserts : AssertionsHold s'

theorem Idle.collected {s s' : State} (h : Idle s') (hw : s'.work = []) (hkeeps : KeepsReachable s s') :
    Collected s s' := by
  have hlive : ∀ o, Live s' o ↔ Reachable s o :=
    fun o => (h.live_iff hw o).trans (hkeeps.reachable_iff o)
  have hset : {o | Live s' o} = {o | Reachable s o} := Set.ext hlive
  refine ⟨hw, h.running, hlive, fun o ho => ?_, fun o ho => hkeeps.objectGet ho, ?_, h.asserts⟩
  · by_contra hp
    have hm : o ∈ ghosts s' := ⟨(hlive o).mpr ho, by simpa using hp⟩
    rw [h.quiet hw] at hm
    exact hm
  · rw [h.sound.world_sub, hset]

/-- When the program has made its last call, the worker comes to the end of its queue. By then it
has freed what the program cannot reach, and nothing else: the rest has its fields and is not
phantomized, the world counters differ by the number of these objects, and no assertion has failed. -/
theorem run_collects {s : State} (run : Run TakesTurns initial s) :
    ∃ N s', (∀ n k, N ≤ n → N ≤ k → workerFinish k n s = some s') ∧ s'.work = [] ∧
      s'.running = [] ∧ (∀ o, Live s' o ↔ Reachable s o) ∧
      (∀ o, Reachable s o → (s'.objects o).phantomized = false ∧
        ∀ f, objectGet s' o f = objectGet s o f) ∧
      (s'.acidWorldCount : ℤ) - s'.acidCollectCount = {o | Reachable s o}.ncard ∧
      AssertionsHold s' := by
  obtain ⟨M, s1, hs1, hidle, hkeeps⟩ : ∃ M s1, (∀ k, M ≤ k → runSteps k s = some s1) ∧ Idle s1 ∧
      KeepsReachable s s1 := by
    rcases run.inTurn with hidle | ⟨c, loop, hrun⟩
    · exact ⟨0, s, fun k _ => runSteps_nil k hidle.running, hidle, .refl s⟩
    · obtain ⟨M, s1, hs1⟩ := runSteps_returns hrun.any hrun.running
      exact ⟨M, s1, hs1, runSteps_idle hrun (hs1 M (le_refl M))⟩
  obtain ⟨N, s', hs'⟩ := hidle.drains
  obtain ⟨hidle', hnil, hrest⟩ := hidle.workerRun (hs' N N (le_refl N) (le_refl N))
  have hcollected := hidle'.collected hnil (hkeeps.trans hrest)
  refine ⟨M + N, s', fun n k hn hk => ?_, hnil, hcollected.running, hcollected.live,
    fun o ho => ⟨hcollected.plain o ho, hcollected.fields o ho⟩, hcollected.world,
    hcollected.asserts⟩
  rw [workerFinish, hs1 k (by omega)]
  exact hs' n k (by omega) (by omega)

theorem run_collects_droppedCycle : ∃ N s', workerFinish N N (replay initial droppedCycle) = some s' ∧
    s'.work = [] ∧ Live s' 2 := by
  obtain ⟨N, s', hs', hnil, _, hlive, _⟩ := run_collects run_droppedCycle
  exact ⟨N, s', hs' N N (le_refl N) (le_refl N), hnil,
    (hlive 2).mpr (reachable_of_mem_reached (by decide +kernel))⟩

end Acid

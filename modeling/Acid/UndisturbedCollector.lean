import Acid.Chained
import Acid.Undisturbed

set_option autoImplicit false

/-!
# `safelist.c` and `collector.c` undisturbed
-/
namespace Acid.Locked

open Procedure PointerForest Filter

variable {s : State}

/-! ## The lists -/

theorem computes_safelistChase {r q : ListRef} (h : LeadsTo s.listForward r q) :
    ∀ᶠ n in atTop, Computes 0 (safelistChase n r) s q s := by
  induction h with
  | root h =>
    filter_upwards [eventually_ge_atTop 1] with n hn
    obtain ⟨k, rfl⟩ : ∃ k, n = k + 1 := ⟨n - 1, by omega⟩
    apply Computes.gets
    rw [h]
    exact computes_pure _
  | step h _ ih =>
    filter_upwards [eventually_succ ih] with n hn
    obtain ⟨k, rfl, hk⟩ := hn
    apply Computes.gets
    rw [h]
    exact hk

theorem computes_safelistAdd_root {r : ListRef} (h : s.listForward r = none) (n x : ℕ) :
    Computes 0 (safelistAdd (n + 1) r x) s () (safelistPush s r x) := by
  apply Computes.start1
  apply Computes.gets
  rw [h]
  apply Computes.modify
  rw [if_pos rfl]
  exact Computes.stop (computes_pure ())

theorem computes_safelistAdd (h : Chained s) (r : ListRef) (x : ℕ) :
    ∀ᶠ n in atTop, Computes 0 (safelistAdd n r x) s () (Acid.safelistAdd s r x) := by
  unfold Acid.safelistAdd
  cases hf : s.listForward r with
  | none =>
    filter_upwards [eventually_ge_atTop 1] with n hn
    obtain ⟨k, rfl⟩ : ∃ k, n = k + 1 := ⟨n - 1, by omega⟩
    exact computes_safelistAdd_root hf k x
  | some f =>
    have hlead := h.lists_leadsTo f
    filter_upwards [eventually_succ (computes_safelistChase hlead), eventually_ge_atTop 2]
      with n hn hlarge
    obtain ⟨k, rfl, hchase⟩ := hn
    obtain ⟨j, rfl⟩ : ∃ j, k = j + 1 := ⟨k - 1, by omega⟩
    apply Computes.start1
    apply Computes.gets
    rw [hf]
    apply Computes.modify
    rw [if_neg (by simp)]
    apply Computes.stop
    exact hchase.bind (computes_safelistAdd_root hlead.isRoot j x)

theorem computes_safelistPoll (r : ListRef) :
    Computes 0 (safelistPoll r) s (Acid.safelistPoll s r).2 (Acid.safelistPoll s r).1 := by
  apply Computes.start1
  apply Computes.call
  exact Computes.stop (computes_pure _)

/-- The loop of `safelist_forward`, whose destination takes what is added to it itself. -/
theorem computes_drain {r dest : ListRef} (hne : r ≠ dest) {n : ℕ} (hn : 1 ≤ n) (xs : List ℕ) :
    ∀ {s : State} {k : ℕ}, (s.safelist r).data = xs → s.listForward dest = none → xs.length < k →
      Computes 0 (pollLoop r (fun obj => safelistAdd n dest obj) k) s ()
        (safelistDrain dest r xs.length s) := by
  obtain ⟨n, rfl⟩ : ∃ m, n = m + 1 := ⟨n - 1, by omega⟩
  induction xs with
  | nil =>
    intro s k hd _ hk
    obtain ⟨k, rfl⟩ : ∃ j, k = j + 1 := ⟨k - 1, by omega⟩
    have hpoll := computes_safelistPoll (s := s) r
    rw [safelistPoll_nil hd] at hpoll
    exact hpoll.bind (computes_pure ())
  | cons o rest ih =>
    intro s k hd hdest hk
    rw [List.length_cons] at hk
    obtain ⟨k, rfl⟩ : ∃ j, k = j + 1 := ⟨k - 1, by omega⟩
    have hpoll := computes_safelistPoll (s := s) r
    have hplaces := safelistPoll_places s r
    rw [List.length_cons, safelistDrain]
    rw [safelistPoll_cons hd] at hpoll hplaces ⊢
    dsimp only at hpoll hplaces ⊢
    have hrest : (((counterDecStore s r.1).modifySafelist r fun l =>
        { l with data := rest }).safelist r).data = rest := by
      rw [State.modifySafelist_safelist, if_pos rfl]
    generalize (counterDecStore s r.1).modifySafelist r (fun l => { l with data := rest }) = s1
      at hpoll hplaces hrest ⊢
    have hdest1 : s1.listForward dest = none := by
      rw [hplaces.listForward]
      exact hdest
    apply hpoll.bind
    apply (computes_safelistAdd_root hdest1 n o).bind
    have hadd : Acid.safelistAdd s1 dest o = safelistPush s1 dest o := by
      rw [Acid.safelistAdd, hdest1]
    rw [hadd]
    have hpush := safelistPush_places s1 dest o
    apply ih
    · rw [safelistPush, State.modifySafelist_safelist, if_neg hne, counterIncStore, State.safelist,
        State.modifyCollector_collectors]
      split_ifs with hr
      · rw [← hrest, State.safelist, hr]
      · exact hrest
    · rw [hpush.listForward]
      exact hdest1
    · omega

theorem computes_safelistForward {r dest : ListRef} (hne : r ≠ dest) (hd : s.listForward dest = none)
    {n : ℕ} (hn : (s.safelist r).data.length < n) :
    Computes 0 (safelistForward n r (some dest)) s () (Acid.safelistForward s r dest) := by
  have hdrain := computes_drain hne (show 1 ≤ n by omega) _ rfl hd hn
  apply Computes.start2
  apply hdrain.bind
  apply Computes.modify
  exact computes_lockerEnd

/-! ## The collectors -/

theorem computes_objectSetCollector (x : ℕ) (c : Option ℕ) :
    Computes 0 (objectSetCollector x c) s () (Acid.objectSetCollector s x c) := by
  apply Computes.start1
  apply Computes.modify
  exact computes_lockerEnd

theorem computes_collectorUpdate {c r : ℕ} (h : LeadsTo s.forward c r) :
    ∀ᶠ n in atTop, Computes 0 (collectorUpdate n (some c)) s r s := by
  induction h with
  | root h =>
    filter_upwards [eventually_ge_atTop 1] with n hn
    obtain ⟨k, rfl⟩ : ∃ k, n = k + 1 := ⟨n - 1, by omega⟩
    apply Computes.start1
    apply Computes.gets
    rw [h]
    exact Computes.stop (computes_pure _)
  | step h _ ih =>
    filter_upwards [eventually_succ ih] with n hn
    obtain ⟨k, rfl, hk⟩ := hn
    apply Computes.start1
    apply Computes.gets
    rw [h]
    exact Computes.stop hk

theorem collectorCreate_safelistInit (s : State) (n : ListName) :
    (Acid.collectorCreate s).1.modifySafelist (s.numCollector, n) (fun _ => {}) =
      (Acid.collectorCreate s).1 := by
  simp [Acid.collectorCreate, State.modifySafelist, State.modifyCollector]

theorem computes_collectorCreate :
    Computes 0 collectorCreate s (Acid.collectorCreate s).2 (Acid.collectorCreate s).1 := by
  have hinit : ∀ n, Computes 0 (safelistInit ((Acid.collectorCreate s).2, n))
      (Acid.collectorCreate s).1 () (Acid.collectorCreate s).1 := by
    intro n
    apply (computes_idlockInit _).bind
    have h := computes_modify (s := (Acid.collectorCreate s).1)
      fun u => u.modifySafelist (s.numCollector, n) fun _ => {}
    rw [collectorCreate_safelistInit] at h
    exact h
  apply Computes.call
  iterate 5 apply (hinit _).bind
  apply (computes_idlockInit _).bind
  exact computes_pure _

theorem computes_collectorDestroy (c : ℕ) :
    Computes 0 (collectorDestroy c) s () (Acid.collectorDestroy s c) := by
  have hdeinit : ∀ (u : State) (n : ListName), Acid.collectorDestroy
      (u.modifySafelist (c, n) fun l => { l with data := [] }) c = Acid.collectorDestroy u c := by
    intro u n
    simp [Acid.collectorDestroy, State.modifySafelist, State.modifyCollector, State.emit]
  iterate 5 apply Computes.modify
  refine Eq.mp (congrArg (Computes 0 _ _ ()) ?_)
    (computes_modify fun u => Acid.collectorDestroy u c)
  simp only [hdeinit]

theorem computes_collectorSetForward (c : ℕ) (f : Option ℕ) :
    Computes 0 (collectorSetForward c f) s () (Acid.collectorSetForward s c f) := by
  apply Computes.gets
  apply Computes.start3
  apply Computes.gets
  unfold Acid.collectorSetForward
  split_ifs with h
  · exact computes_lockerEnd
  · apply Computes.modify
    apply Computes.modify
    exact computes_lockerEnd

theorem computes_collectorTerminate (c : ℕ) :
    Computes 0 (collectorTerminate c) s () (Acid.collectorTerminate s c) := by
  apply Computes.gets
  apply Computes.start2
  apply (computes_collectorSetForward c none).bind
  exact computes_lockerEnd

theorem computes_collectorForwardSafelistsTo {c t : ℕ} (hne : c ≠ t)
    (ht : ∀ n, s.listForward (t, n) = none) :
    ∀ᶠ n in atTop, Computes 0 (collectorForwardSafelistsTo n c t) s ()
      (Acid.collectorForwardSafelistsTo s c t) := by
  have hstep : ∀ (u : State) (m : ListName), (∀ n, u.listForward (t, n) = none) →
      (∀ᶠ n in atTop, Computes 0 (safelistForward n (c, m) (some (t, route m))) u ()
        (Acid.safelistForward u (c, m) (t, route m))) ∧
      ∀ n, (Acid.safelistForward u (c, m) (t, route m)).listForward (t, n) = none := by
    intro u m hu
    constructor
    · filter_upwards [eventually_gt_atTop (u.safelist (c, m)).data.length] with n hn
      exact computes_safelistForward (fun h => hne (congrArg Prod.fst h)) (hu _) hn
    · intro n
      rw [safelistForward_listForward, if_neg fun h => hne (congrArg Prod.fst h).symm]
      exact hu n
  obtain ⟨h1, hs1⟩ := hstep s .collect ht
  obtain ⟨h2, hs2⟩ := hstep _ .merged hs1
  obtain ⟨h3, hs3⟩ := hstep _ .rebuild hs2
  obtain ⟨h4, hs4⟩ := hstep _ .clean hs3
  obtain ⟨h5, _⟩ := hstep _ .recovery hs4
  filter_upwards [h1, h2, h3, h4, h5] with n h1 h2 h3 h4 h5
  apply Computes.start2
  apply h1.bind
  apply h2.bind
  apply h3.bind
  apply h4.bind
  apply h5.bind
  exact computes_lockerEnd

theorem computes_collectorMerge {t c : ℕ} (hne : c ≠ t) (ht : ∀ n, s.listForward (t, n) = none) :
    ∀ᶠ n in atTop, Computes 0 (collectorMerge n t c) s () (Acid.collectorMerge s t c) := by
  filter_upwards [computes_collectorForwardSafelistsTo hne ht] with n h
  apply Computes.start2
  apply h.bind
  apply (computes_collectorSetForward c (some t)).bind
  exact computes_lockerEnd

/-- The loop of `collector_add_object` from any place of the chain. -/
theorem computes_addObjectLoop (x : ℕ) {a r : ℕ} (h : LeadsTo s.forward a r)
    (hlist : s.listForward (r, .collect) = none) :
    ∃ K, ∀ n k, 1 ≤ n → K ≤ k → Computes 0 (addObjectLoop n x k a) s ()
      (Acid.objectSetCollector (Acid.safelistAdd ((s.modifyObject x fun o =>
        { o with count := Function.update o.count o.which (o.count o.which + 1) }).modifyObject x
          fun o => { o with count2 := o.count2 + 1 }) (r, .collect) x) x (some r)) := by
  induction h with
  | @root a h =>
    refine ⟨1, fun n k hn hk => ?_⟩
    obtain ⟨n, rfl⟩ : ∃ j, n = j + 1 := ⟨n - 1, by omega⟩
    obtain ⟨k, rfl⟩ : ∃ j, k = j + 1 := ⟨k - 1, by omega⟩
    apply Computes.start2
    apply Computes.gets
    rw [h]
    apply Computes.modify
    apply Computes.modify
    generalize hu : (s.modifyObject x fun o =>
      { o with count := Function.update o.count o.which (o.count o.which + 1) }).modifyObject x
        (fun o => { o with count2 := o.count2 + 1 }) = u
    have hroot : u.listForward (a, .collect) = none := by
      rw [← hu]
      exact hlist
    have hadd : Acid.safelistAdd u (a, .collect) x = safelistPush u (a, .collect) x := by
      rw [Acid.safelistAdd, hroot]
    rw [hadd]
    apply (computes_safelistAdd_root hroot n x).bind
    apply (computes_objectSetCollector x (some a)).bind
    exact computes_lockerEnd
  | step h _ ih =>
    obtain ⟨K, hK⟩ := ih hlist
    refine ⟨K + 1, fun n k hn hk => ?_⟩
    obtain ⟨k, rfl⟩ : ∃ j, k = j + 1 := ⟨k - 1, by omega⟩
    apply Computes.start2
    apply Computes.gets
    rw [h]
    exact Computes.stop (hK n k hn (by omega))

theorem computes_collectorAddObject (h : Chained s) (c x : ℕ) :
    ∀ᶠ n in atTop, Computes 0 (collectorAddObject n c x) s () (Acid.collectorAddObject s c x) := by
  have hlead : LeadsTo s.forward c (Acid.collectorUpdate s c) := root_leadsTo h.ranked h.bound c
  obtain ⟨K, hK⟩ := computes_addObjectLoop x hlead (h.root_lists hlead.isRoot .collect)
  filter_upwards [eventually_ge_atTop 1, eventually_ge_atTop K] with n h1 h2
  exact hK n n h1 h2

/-- `collector_equals` of a collector with itself, which returns at its first test. -/
theorem computes_collectorEquals_self {n : ℕ} (hn : 1 ≤ n) (c : Option ℕ) :
    Computes 0 (collectorEquals n c c) s true s := by
  obtain ⟨k, rfl⟩ : ∃ k, n = k + 1 := ⟨n - 1, by omega⟩
  apply Computes.start2
  rw [if_pos rfl]
  exact Computes.stop (computes_pure true)

end Acid.Locked

import Acid.UndisturbedCollector

set_option autoImplicit false

/-!
# `object.c` and `link.c` undisturbed
-/
namespace Acid.Locked

open Procedure PointerForest Filter

variable {s : State}

theorem computes_objectInit :
    Computes 0 objectInit s (Acid.objectInit s).2 (Acid.objectInit s).1 := by
  apply Computes.call
  apply (computes_idlockInit _).bind
  exact computes_pure _

theorem computes_objectIncStrong (x : ℕ) :
    Computes 0 (objectIncStrong x) s () (Acid.objectIncStrong s x) := by
  apply Computes.start1
  apply Computes.modify
  exact computes_lockerEnd

theorem computes_objectInitStrong :
    Computes 0 objectInitStrong s (Acid.objectInitStrong s).2 (Acid.objectInitStrong s).1 := by
  apply computes_objectInit.bind
  apply (computes_objectIncStrong _).bind
  exact computes_pure _

/-! ## References that are dropped -/

theorem computes_objectDecZero (h : Chained s) (x : ℕ) :
    ∀ᶠ n in atTop, Computes 0 (objectDecZero n x) s ()
      (if (s.objects x).count (!(s.objects x).which) = 0 ∧ (s.objects x).count2 = 0 then
        Acid.objectRequestDelete s x
      else match ((objectEnsureCollector s x).objects x).collector with
        | some c => Acid.collectorAddObject (objectEnsureCollector s x) c x
        | none => objectEnsureCollector s x) := by
  by_cases hlast : (s.objects x).count (!(s.objects x).which) = 0 ∧ (s.objects x).count2 = 0
  · refine .of_forall fun n => ?_
    apply Computes.gets
    rw [if_pos hlast, if_pos hlast]
    exact computes_modify _
  · rw [if_neg hlast]
    cases hc : (s.objects x).collector with
    | some c =>
      have hensure : objectEnsureCollector s x = s := by
        rw [objectEnsureCollector, hc]
      rw [hensure, hc]
      filter_upwards [computes_collectorAddObject h c x] with n hn
      apply Computes.gets
      rw [if_neg hlast]
      apply Computes.gets
      rw [hc]
      exact hn
    | none =>
      have hensure : objectEnsureCollector s x =
          (Acid.objectSetCollector (Acid.collectorCreate s).1 x (some s.numCollector)).addTask
            (.run s.numCollector) := by
        rw [objectEnsureCollector, hc]
        rfl
      have hself : ((objectEnsureCollector s x).objects x).collector = some s.numCollector := by
        rw [hensure]
        change ((Acid.objectSetCollector _ x _).objects x).collector = _
        rw [objectSetCollector_collector, if_pos rfl]
      have hadd := computes_collectorAddObject (h.ensureCollector x) s.numCollector x
      rw [hself]
      rw [hensure] at hadd ⊢
      filter_upwards [hadd] with n hn
      apply Computes.gets
      rw [if_neg hlast]
      apply Computes.gets
      rw [hc]
      apply computes_collectorCreate.bind
      apply (computes_objectSetCollector x _).bind
      apply Computes.modify
      exact hn

theorem computes_objectDec (h : Chained s) (x : ℕ) (w : Bool) :
    ∀ᶠ n in atTop, Computes 0 (objectDec n x w) s () (Acid.objectDec s x w) := by
  unfold Acid.objectDec
  dsimp only
  have hcount := (h.modifyObject x (f := fun o =>
    { o with count := Function.update o.count w (o.count w - 1) }) fun _ => rfl).check
      (0 ≤ ((s.modifyObject x fun o =>
        { o with count := Function.update o.count w (o.count w - 1) }).objects x).count w)
      (.assertFailed .decCount)
  filter_upwards [computes_objectDecZero hcount x] with n hn
  apply Computes.start1
  apply Computes.modify
  apply Computes.assertion
  apply Computes.gets
  split_ifs with hzero hlast
  · rw [if_pos hlast] at hn
    exact hn.bind computes_lockerEnd
  · rw [if_neg hlast] at hn
    exact hn.bind computes_lockerEnd
  · exact (computes_pure ()).bind computes_lockerEnd

theorem computes_objectDecPhantom (x : ℕ) :
    Computes 0 (objectDecPhantom x) s () (Acid.objectDecPhantom s x) := by
  unfold Acid.objectDecPhantom
  apply Computes.start1
  apply Computes.modify
  apply Computes.assertion
  apply Computes.gets
  dsimp only
  split_ifs
  · exact (computes_modify _).bind computes_lockerEnd
  · exact (computes_objectSetCollector x none).bind computes_lockerEnd
  · exact (computes_pure ()).bind computes_lockerEnd

theorem computes_objectDecStrong (h : Chained s) (x : ℕ) :
    ∀ᶠ n in atTop, Computes 0 (objectDecStrong n x) s () (Acid.objectDecStrong s x) := by
  filter_upwards [computes_objectDec h x (s.objects x).which] with n hn
  exact Computes.gets hn

/-! ## Collectors that are merged -/

/-- The two chains get shorter until both positions are roots. -/
theorem computes_mergeLoop (h : Chained s) {rank : ℕ → ℕ}
    (hr : ∀ a b, s.forward a = some b → rank b < rank a) (obj target j : ℕ) :
    ∀ {t c : ℕ}, rank t + rank c < j → ∃ K, ∀ᶠ n in atTop, ∀ k, K ≤ k →
      Computes 0 (mergeLoop n obj target k t c) s (Acid.mergeLoop obj target j s t c).2
        (Acid.mergeLoop obj target j s t c).1 := by
  induction j with
  | zero =>
    intro t c hj
    omega
  | succ j ih =>
    intro t c hj
    rw [Acid.mergeLoop]
    by_cases h1 : s.forward t = some c ∧ s.forward c = none
    · refine ⟨1, .of_forall fun n k hk => ?_⟩
      obtain ⟨k, rfl⟩ : ∃ i, k = i + 1 := ⟨k - 1, by omega⟩
      apply Computes.start4
      apply Computes.gets
      apply Computes.gets
      rw [if_pos h1, if_pos h1]
      apply (computes_objectSetCollector target (some c)).bind
      apply (computes_objectSetCollector obj (some c)).bind
      exact Computes.stop (computes_pure false)
    by_cases h2 : s.forward c = some t ∧ s.forward t = none
    · refine ⟨1, .of_forall fun n k hk => ?_⟩
      obtain ⟨k, rfl⟩ : ∃ i, k = i + 1 := ⟨k - 1, by omega⟩
      apply Computes.start4
      apply Computes.gets
      apply Computes.gets
      rw [if_neg h1, if_pos h2, if_neg h1, if_pos h2]
      apply (computes_objectSetCollector target (some t)).bind
      apply (computes_objectSetCollector obj (some t)).bind
      exact Computes.stop (computes_pure false)
    rw [if_neg h1, if_neg h2]
    cases ht : s.forward t with
    | some t' =>
      have hlt := hr t t' ht
      obtain ⟨K, hK⟩ := @ih t' c (by omega)
      refine ⟨K + 1, ?_⟩
      filter_upwards [hK] with n hn k hk
      obtain ⟨k, rfl⟩ : ∃ i, k = i + 1 := ⟨k - 1, by omega⟩
      apply Computes.start4
      apply Computes.gets
      apply Computes.gets
      rw [if_neg h1, if_neg h2, ht]
      exact Computes.stop (hn k (by omega))
    | none =>
      cases hc : s.forward c with
      | some c' =>
        have hlt := hr c c' hc
        obtain ⟨K, hK⟩ := @ih t c' (by omega)
        refine ⟨K + 1, ?_⟩
        filter_upwards [hK] with n hn k hk
        obtain ⟨k, rfl⟩ : ∃ i, k = i + 1 := ⟨k - 1, by omega⟩
        apply Computes.start4
        apply Computes.gets
        apply Computes.gets
        rw [if_neg h1, if_neg h2, ht, hc]
        exact Computes.stop (hn k (by omega))
      | none =>
        refine ⟨1, ?_⟩
        by_cases hct : c = t
        · refine .of_forall fun n k hk => ?_
          obtain ⟨k, rfl⟩ : ∃ i, k = i + 1 := ⟨k - 1, by omega⟩
          apply Computes.start4
          apply Computes.gets
          apply Computes.gets
          rw [if_neg h1, if_neg h2, ht, hc]
          dsimp only
          rw [if_pos hct, if_pos hct]
          exact Computes.stop (computes_pure false)
        · filter_upwards [computes_collectorMerge hct (h.root_lists ht)] with n hn k hk
          obtain ⟨k, rfl⟩ : ∃ i, k = i + 1 := ⟨k - 1, by omega⟩
          apply Computes.start4
          apply Computes.gets
          apply Computes.gets
          rw [if_neg h1, if_neg h2, ht, hc]
          dsimp only
          rw [if_neg hct, if_neg hct]
          apply hn.bind
          apply Computes.assertion
          apply (computes_objectSetCollector target (some t)).bind
          apply (computes_objectSetCollector obj (some t)).bind
          exact Computes.stop (computes_pure true)

theorem computes_objectMergeCollectors (h : Chained s) (obj target : ℕ) :
    ∀ᶠ n in atTop, Computes 0 (objectMergeCollectors n obj target) s
      (Acid.objectMergeCollectors s obj target).2 (Acid.objectMergeCollectors s obj target).1 := by
  unfold Acid.objectMergeCollectors
  cases hc : (s.objects obj).collector with
  | none =>
    cases ht : (s.objects target).collector with
    | none =>
      refine .of_forall fun n => ?_
      apply Computes.gets
      apply Computes.gets
      rw [hc, ht]
      exact computes_pure false
    | some t =>
      refine .of_forall fun n => ?_
      apply Computes.gets
      apply Computes.gets
      rw [hc, ht]
      exact (computes_objectSetCollector obj (some t)).bind (computes_pure false)
  | some c =>
    cases ht : (s.objects target).collector with
    | none =>
      refine .of_forall fun n => ?_
      apply Computes.gets
      apply Computes.gets
      rw [hc, ht]
      exact (computes_objectSetCollector target (some c)).bind (computes_pure false)
    | some t =>
      obtain ⟨rank, hr, hb⟩ := h.ranked.bounded s.numCollector h.bound
      have hrt := hb t
      have hrc := hb c
      obtain ⟨K, hK⟩ := computes_mergeLoop h hr obj target (2 * s.numCollector + 1)
        (t := t) (c := c) (by omega)
      filter_upwards [hK, eventually_ge_atTop K] with n hn hlarge
      apply Computes.gets
      apply Computes.gets
      rw [hc, ht]
      dsimp only
      split_ifs
      · exact computes_pure false
      · exact hn n hlarge

/-! ## Links -/

theorem computes_linkCreate (src target : ℕ) :
    Computes 0 (linkCreate src (some target)) s (Acid.linkCreate s src target).2
      (Acid.linkCreate s src target).1 := by
  intro m t hm hn ht
  refine ⟨_, returns_act.mpr ⟨by rw [hm]; rfl, rfl⟩, by rw [hm]; rfl, ?_, Option.some.inj ht⟩
  intro l
  dsimp only
  rw [Function.update_apply]
  split_ifs
  · rfl
  · exact hn l

theorem computes_linkDec (h : Chained s) (l : ℕ) :
    ∀ᶠ n in atTop, Computes 0 (linkDec n l) s () (Acid.linkDec s l) := by
  unfold Acid.linkDec
  filter_upwards [computes_objectDec h (s.links l).target (s.links l).which] with n hn
  apply Computes.target
  apply Computes.gets
  apply Computes.start2
  apply Computes.gets
  dsimp only
  split_ifs
  · exact (computes_objectDecPhantom _).bind computes_lockerEnd
  · exact hn.bind computes_lockerEnd

theorem computes_linkDestroy (h : Chained s) (l : ℕ) :
    ∀ᶠ n in atTop, Computes 0 (linkDestroy n l) s () (Acid.linkDestroy s l) := by
  filter_upwards [computes_linkDec h l] with n hn
  apply Computes.gets
  apply Computes.start1
  apply Computes.target
  apply Computes.stop
  rw [if_neg (by simp)]
  exact hn.bind (computes_modify _)

section
variable {p : Setting}

/-- The assertion is about one collector, whether it is compiled in or not. -/
theorem computes_assertCollectorEquals {src target n : ℕ}
    (h : (s.objects src).collector = (s.objects target).collector) (hn : 1 ≤ n) :
    Computes 0 (assertCollectorEquals (p.within n) src target) s ()
      (s.check (Acid.collectorEquals s (s.objects target).collector (s.objects src).collector = true)
        (.assertFailed .linkEquals)) := by
  rw [h, collectorEquals_self]
  unfold assertCollectorEquals
  split_ifs
  · exact computes_pure ()
  · apply Computes.gets
    apply Computes.gets
    rw [h]
    exact (computes_collectorEquals_self hn _).bind (computes_assertion _ _)

theorem computes_linkPhantomize (h : Chained s) (l : ℕ) :
    ∀ᶠ n in atTop, Computes 0 (linkPhantomize (p.within n) l) s () (Acid.linkPhantomize s l) := by
  unfold Acid.linkPhantomize
  dsimp only
  by_cases hph : (s.links l).phantomized = true
  · rw [if_pos hph]
    refine .of_forall fun n => ?_
    apply Computes.gets
    apply Computes.target
    apply Computes.start2
    apply Computes.target
    apply Computes.gets
    rw [if_pos hph]
    exact computes_lockerEnd
  · rw [if_neg hph]
    have h1 := h.modifyObject (s.links l).target (f := fun o => { o with count2 := o.count2 + 1 })
      fun _ => rfl
    have hdec := computes_linkDec h1 l
    have h2 := (h1.linkDec l).check
      (((Acid.linkDec (s.modifyObject (s.links l).target fun o =>
        { o with count2 := o.count2 + 1 }) l).objects (s.links l).target).collector ≠ none ∨
      ((Acid.linkDec (s.modifyObject (s.links l).target fun o =>
        { o with count2 := o.count2 + 1 }) l).objects (s.links l).src).collector ≠ none)
      (.assertFailed .linkCollector)
    have hmerge := computes_objectMergeCollectors h2 (s.links l).src (s.links l).target
    have hforest := h2.toForest
    have hsame := hforest.mergeCollectors_collector_eq (s.links l).src (s.links l).target
    filter_upwards [hdec, hmerge, eventually_ge_atTop 1] with n hdec hmerge hlarge
    apply Computes.gets
    apply Computes.target
    apply Computes.start2
    apply Computes.target
    apply Computes.gets
    rw [if_neg hph]
    apply Computes.modify
    apply hdec.bind
    apply Computes.assertion
    apply hmerge.bind
    apply Computes.modify
    refine Computes.bind (a := ()) ?_ computes_lockerEnd
    exact computes_assertCollectorEquals hsame hlarge

theorem computes_phantomizeSnapshot (h : Chained s) (obj l : ℕ) :
    ∀ᶠ n in atTop, Computes 0 (phantomizeSnapshot (p.within n) obj l) s ()
      (Acid.phantomizeSnapshot obj s l) := by
  unfold Acid.phantomizeSnapshot
  dsimp only
  have h1 := h.check ((s.objects obj).phantomized = true) (.assertFailed .phantomizeObject)
  generalize hs1 : s.check ((s.objects obj).phantomized = true)
    (.assertFailed .phantomizeObject) = s1 at h1 ⊢
  have h3 := (h1.check ((s1.objects (s1.links l).src).phantomized = true)
    (.assertFailed .phantomizeSource)).check
    (((s1.check ((s1.objects (s1.links l).src).phantomized = true)
      (.assertFailed .phantomizeSource)).objects (s1.links l).src).collector ≠ none)
      (.assertFailed .phantomizeSourceCollector)
  filter_upwards [computes_linkPhantomize h3 l] with n hn
  apply Computes.target
  apply Computes.start2
  apply Computes.assertion
  rw [hs1]
  apply Computes.gets
  split_ifs
  · exact (computes_pure ()).bind computes_lockerEnd
  · refine Computes.bind (a := ()) ?_ computes_lockerEnd
    apply Computes.assertion
    apply Computes.assertion
    exact hn

/-! ## The nodes that a collector visits -/

/-- The flags of an object that is not phantomized yet. -/
theorem computes_phantomizeObject (x : ℕ) : Computes 0 (phantomizeObject x) s
    (if ((phantomizeFlip s x).objects x).phantomized then none
      else some ((phantomizeFlip s x).objects x).links.values)
    (if ((phantomizeFlip s x).objects x).phantomized then phantomizeFlip s x
      else phantomizeStart (phantomizeFlip s x) x) := by
  apply Computes.modify
  change Computes 0 _ (phantomizeFlip s x) _ _
  apply Computes.gets
  split_ifs
  · exact computes_pure none
  · rw [← phantomizeStart_table (phantomizeFlip s x) x x]
    apply Computes.modify
    apply Computes.assertion
    apply Computes.modify
    exact computes_gets _

theorem computes_objectPhantomizeNode (h : Chained s) {x : ℕ} (hx : (s.objects x).collector ≠ none) :
    ∀ᶠ n in atTop, Computes 0 (objectPhantomizeNode (p.within n) x) s ()
      (Acid.objectPhantomizeNode s x) := by
  obtain ⟨c, hc⟩ := Option.ne_none_iff_exists'.mp hx
  have hupdate : objectUpdateCollector s x =
      Acid.objectSetCollector s x (some (Acid.collectorUpdate s c)) := by
    rw [objectUpdateCollector, hc]
  have hcount := (h.updateCollector x).modifyObject x (f := fun o =>
    { o with count := Function.update o.count o.which (o.count o.which - 1) }) fun _ => rfl
  have hstart := computes_collectorUpdate (h.leadsTo c)
  rw [objectPhantomizeNode_eq]
  dsimp only
  generalize hs1 : (objectUpdateCollector s x).modifyObject x (fun o =>
    { o with count := Function.update o.count o.which (o.count o.which - 1) }) = s1 at hcount ⊢
  have hcheck := hcount.check (0 ≤ (s1.objects x).count (s1.objects x).which)
    (.assertFailed .phantomizeCount)
  generalize hs2 : s1.check (0 ≤ (s1.objects x).count (s1.objects x).which)
    (.assertFailed .phantomizeCount) = s2 at hcheck ⊢
  have hsnapshots := Computes.forM (P := Chained)
    (p := fun n l => phantomizeSnapshot (p.within n) x l)
    (f := fun l u => Acid.phantomizeSnapshot x u l)
    (fun l u hu => ⟨computes_phantomizeSnapshot hu x l, hu.phantomizeSnapshot x l⟩)
    ((phantomizeFlip s2 x).objects x).links.values (phantomizeStart (phantomizeFlip s2 x) x)
    ((hcheck.phantomizeFlip x).phantomizeStart x)
  filter_upwards [hstart, hsnapshots] with n hstart hsnapshots
  apply Computes.start1
  apply Computes.gets
  rw [hc]
  apply hstart.bind
  apply (computes_objectSetCollector x _).bind
  rw [← hupdate]
  apply Computes.modify
  rw [hs1]
  apply Computes.assertion
  rw [hs2]
  apply Computes.gets
  split_ifs with hpos hph
  · exact computes_lockerEnd
  · have hflags := computes_phantomizeObject (s := s2) x
    rw [if_pos hph, if_pos hph] at hflags
    apply hflags.bind
    apply Computes.stop
    exact computes_pure ()
  · have hflags := computes_phantomizeObject (s := s2) x
    rw [if_neg hph, if_neg hph] at hflags
    apply hflags.bind
    apply Computes.stop
    apply hsnapshots.bind
    apply Computes.start1
    apply Computes.modify
    rw [objectPhantomizeLinks_eq]
    exact computes_lockerEnd

end

theorem computes_rebuildTarget (h : Chained s) (c l : ℕ) :
    ∀ᶠ n in atTop, Computes 0 (rebuildTarget n (c, .rebuild) l (s.links l).target) s ()
      (rebuildQueue c (((rebuildCollector (rebuildCount s l) (s.links l).target).modifyLink l fun lk =>
        { lk with phantomized := false }).check
          (0 ≤ (((rebuildCollector (rebuildCount s l) (s.links l).target).modifyLink l fun lk =>
            { lk with phantomized := false }).objects (s.links l).target).count2)
          (.assertFailed .rebuildCount)) (s.links l).target) := by
  have h1 := h.rebuildCount l
  have h2 := ((h1.rebuildCollector (s.links l).target).modifyLink l fun lk =>
    { lk with phantomized := false }).check
      (0 ≤ (((rebuildCollector (rebuildCount s l) (s.links l).target).modifyLink l fun lk =>
        { lk with phantomized := false }).objects (s.links l).target).count2)
      (.assertFailed .rebuildCount)
  filter_upwards [computes_safelistAdd h2 (c, .rebuild) (s.links l).target] with n hn
  apply Computes.gets
  apply Computes.modify
  apply Computes.modify
  apply Computes.modify
  change Computes 0 _ (rebuildCount s l) _ _
  apply Computes.gets
  have hcollector : ∀ (u : State) (x : ℕ), Computes 0
      (if (u.objects x).count2 = 0 then objectSetCollector x none else pure ()) u ()
      (rebuildCollector u x) := by
    intro u x
    unfold rebuildCollector
    split_ifs
    · exact computes_objectSetCollector x none
    · exact computes_pure ()
  apply (hcollector _ _).bind
  apply Computes.modify
  apply Computes.assertion
  apply Computes.gets
  unfold rebuildQueue
  split_ifs
  · exact hn
  · exact computes_pure ()

theorem computes_objectRebuildLink (h : Chained s) (c l : ℕ) :
    ∀ᶠ n in atTop, Computes 0 (objectRebuildLink n (c, .rebuild) l) s ()
      (Acid.objectRebuildLink c s l) := by
  rw [objectRebuildLink_eq]
  filter_upwards [computes_rebuildTarget h c l] with n hn
  apply Computes.gets
  apply Computes.target
  apply Computes.start2
  apply Computes.gets
  dsimp only
  split_ifs
  · exact hn.bind computes_lockerEnd
  · exact (computes_pure ()).bind computes_lockerEnd

/-- Every key of the snapshot finds its link again. -/
theorem computes_recoverKeys (obj c : ℕ) (es : List (ℕ × ℕ)) :
    ∀ {s : State} (lk : Option ℕ), Chained s → (∀ e ∈ es, e ∈ (s.objects obj).links.entries) →
      ∃ r, ∀ᶠ n in atTop, Computes 0
        ((es.map Prod.fst).foldlM (recoverKey n obj (c, .rebuild)) lk) s r
        ((es.map Prod.snd).foldl (Acid.objectRebuildLink c) s) := by
  induction es with
  | nil => exact fun lk _ _ => ⟨lk, .of_forall fun _ => computes_pure lk⟩
  | cons e es ih =>
    intro s lk h hes
    have hget := ((s.objects obj).links.get_eq_some e.1 e.2).mpr (hes e (List.mem_cons_self ..))
    obtain ⟨r, hr⟩ := ih (some e.2) (h.rebuildLink c e.2) fun e' he' => by
      rw [(objectRebuildLink_frame c s e.2).table]
      exact hes e' (List.mem_cons_of_mem _ he')
    refine ⟨r, ?_⟩
    filter_upwards [hr, computes_objectRebuildLink h c e.2] with n hrest hlink
    rw [List.map_cons, List.map_cons, List.foldl_cons, List.foldlM_cons]
    refine Computes.bind (a := some e.2) ?_ hrest
    apply Computes.gets
    rw [hget]
    exact hlink.bind (computes_pure (some e.2))

theorem computes_recoverWait {x : ℕ} (hx : ¬ ((s.objects x).phantomized = true ∧
    ¬ (s.objects x).phantomizationComplete = true)) (n wcount : ℕ) :
    Computes 0 (recoverWait x (n + 1) wcount) s () s := by
  apply Computes.gets
  rw [if_neg hx]
  exact computes_pure ()

/-- No other thread is in the middle of phantomizing the object. -/
theorem computes_objectRecoverNode (h : Chained s) {x : ℕ}
    (hx : (s.objects x).phantomized = true → (s.objects x).phantomizationComplete = true) (c : ℕ) :
    ∀ᶠ n in atTop, Computes 0 (objectRecoverNode n x c) s () (Acid.objectRecoverNode s x c) := by
  have h1 := h.recoverUpdate x
  have hf1 := recoverUpdate_frame s x
  have hupdate : ∀ᶠ n in atTop, Computes 0
      (if (s.objects x).collector = none then pure ()
      else do
        let c ← collectorUpdate n (s.objects x).collector
        objectSetCollector x (some c)) s () (recoverUpdate s x) := by
    unfold recoverUpdate objectUpdateCollector
    cases hc : (s.objects x).collector with
    | none =>
      refine .of_forall fun n => ?_
      rw [if_pos rfl, if_neg (by simp)]
      exact computes_pure ()
    | some d =>
      filter_upwards [computes_collectorUpdate (h.leadsTo d)] with n hn
      rw [if_neg (by simp), if_pos (by simp)]
      exact hn.bind (computes_objectSetCollector x _)
  rw [objectRecoverNode_eq]
  dsimp only
  have hwait : ¬ (((recoverUpdate s x).objects x).phantomized = true ∧
      ¬ ((recoverUpdate s x).objects x).phantomizationComplete = true) := by
    rw [hf1.phantomized, hf1.complete]
    tauto
  generalize recoverUpdate s x = u at h1 hupdate hwait ⊢
  by_cases hpos : 0 < (u.objects x).count (u.objects x).which
  · rw [if_pos hpos]
    have hstart : recoverStart u x = (u.check ((u.objects x).phantomizationComplete = true)
        (.assertFailed .recoverComplete)).modifyObject x fun o => { o with phantomized := false } := by
      have hdone : ¬ ((u.objects x).phantomized = true ∧
          (u.objects x).phantomizationComplete = false) := by simpa using hwait
      rw [recoverStart, State.check_pos u hdone]
    have htable : ((recoverStart u x).objects x).links = (u.objects x).links := by
      rw [recoverStart_objects, if_pos rfl]
    obtain ⟨r, hr⟩ := computes_recoverKeys x c (u.objects x).links.entries none (h1.recoverStart x)
      fun e he => htable ▸ he
    filter_upwards [hupdate, hr, eventually_ge_atTop 1] with n hupdate hr hlarge
    obtain ⟨k, rfl⟩ : ∃ k, n = k + 1 := ⟨n - 1, by omega⟩
    apply Computes.start1
    apply Computes.gets
    apply hupdate.bind
    have hsection : Computes 0 (recoverObject (k + 1) x) u ((u.objects x).links.entries.map Prod.fst)
        (recoverStart u x) := by
      apply Computes.gets
      rw [if_pos hpos]
      apply (computes_recoverWait hwait k 0).bind
      apply Computes.assertion
      apply Computes.modify
      rw [← hstart, ← htable]
      exact computes_gets _
    apply hsection.bind
    apply Computes.stop
    apply hr.bind
    apply Computes.start1
    apply Computes.assertion
    exact computes_lockerEnd
  · rw [if_neg hpos]
    filter_upwards [hupdate] with n hupdate
    apply Computes.start1
    apply Computes.gets
    apply hupdate.bind
    have hsection : Computes 0 (recoverObject n x) u []
        (u.check ((u.objects x).count (!(u.objects x).which) = 0) (.assertFailed .recoverWeak)) := by
      apply Computes.gets
      rw [if_neg hpos]
      apply Computes.assertion
      exact computes_pure []
    apply hsection.bind
    apply Computes.stop
    apply (computes_pure none).bind
    apply Computes.start1
    apply Computes.assertion
    exact computes_lockerEnd

theorem computes_objectRemoveLinks (h : Chained s) (x : ℕ) :
    ∀ᶠ n in atTop, Computes 0 (objectRemoveLinks n x) s () (Acid.objectRemoveLinks s x) := by
  rw [objectRemoveLinks_eq]
  have hdestroy := Computes.forM (P := Chained) (p := fun n l => linkDestroy n l)
    (f := fun l u => Acid.linkDestroy u l)
    (fun l u hu => ⟨computes_linkDestroy hu l, hu.linkDestroy l⟩)
    (s.objects x).links.values _ (h.removeStart x)
  filter_upwards [hdestroy] with n hdestroy
  apply Computes.modify
  apply Computes.start1
  apply Computes.gets
  apply Computes.modify
  apply Computes.assertion
  apply Computes.assertion
  apply Computes.stop
  exact hdestroy

theorem computes_objectCleanNode (h : Chained s) (x : ℕ) :
    ∀ᶠ n in atTop, Computes 0 (objectCleanNode n x) s () (Acid.objectCleanNode s x) := by
  unfold Acid.objectCleanNode
  have h1 := (h.check (0 ≤ (s.objects x).count false) (.assertFailed .cleanCount)).check
    (0 ≤ ((s.check (0 ≤ (s.objects x).count false) (.assertFailed .cleanCount)).objects x).count true)
    (.assertFailed .cleanCount)
  filter_upwards [computes_objectRemoveLinks h1 x] with n hn
  apply Computes.start1
  apply Computes.assertion
  apply Computes.assertion
  apply Computes.gets
  apply Computes.stop
  dsimp only
  split_ifs
  · exact (computes_pure ()).bind (computes_objectDecPhantom x)
  · exact hn.bind (computes_objectDecPhantom x)

/-! ## Deletion -/

/-- The destructor leaves the heap alone. -/
def Quiet (p : Setting) : Prop := ∀ (x : ℕ) (s : State), Computes 0 (p.dtor x) s () s

theorem computes_objectDel {p : Setting} (hp : Quiet p) (x : ℕ) :
    Computes 0 (objectDel p x) s () (Acid.objectDel s x) := by
  have hdtor : ∀ u : State, Computes 0 (do
      modify fun s => s.emit (.dtor x)
      p.dtor x) u () (u.emit (.dtor x)) := fun u => Computes.modify (hp x _)
  unfold Acid.objectDel
  apply Computes.modify
  apply Computes.start1
  apply (computes_objectSetCollector x none).bind
  apply Computes.assertion
  apply Computes.modify
  apply Computes.gets
  dsimp only
  split_ifs
  · apply (hdtor _).bind
    apply Computes.stop
    apply Computes.modify
    exact computes_modify _
  · apply (computes_pure ()).bind
    apply Computes.stop
    apply Computes.modify
    exact computes_modify _

theorem computes_objectRequestDeleteTaskRun {p : Setting} (hp : Quiet p) (h : Chained s) (x : ℕ) :
    ∀ᶠ n in atTop, Computes 0 (objectRequestDeleteTaskRun (p.within n) x) s false
      (Acid.objectRequestDeleteTaskRun s x) := by
  filter_upwards [computes_objectRemoveLinks h x] with n hn
  apply hn.bind
  exact (computes_objectDel (p := p.within n) hp x).bind (computes_pure false)

/-! ## Fields -/

theorem computes_objectGet (x f : ℕ) :
    Computes 0 (objectGet x f) s (Acid.objectGet s x f) s := by
  apply Computes.start1
  apply Computes.gets
  apply Computes.targetOf
  exact Computes.stop (computes_pure _)

theorem computes_objectSetLabel (h : Chained s) (x r l : ℕ) :
    ∀ᶠ n in atTop, Computes 0 (objectSetLabel n x r l) s () (Acid.objectSetLabel s x r l) := by
  unfold Acid.objectSetLabel
  filter_upwards [computes_objectMergeCollectors h x r] with n hn
  apply Computes.gets
  by_cases hp : (s.objects x).phantomized = true
  · rw [if_pos hp, if_pos hp]
    apply hn.bind
    apply Computes.assertion
    apply Computes.modify
    exact computes_modify _
  · rw [if_neg hp, if_neg hp]
    apply Computes.gets
    apply Computes.modify
    exact computes_modify _

theorem computes_objectSetReferent (h : Chained s) (x f r : ℕ) :
    ∀ᶠ n in atTop, Computes 0 (do
      let lk ← linkCreate x (some r)
      modify fun s => s.modifyObject x fun o => { o with links := o.links.add f lk }
      objectSetLabel n x r lk) s () (Acid.objectSetReferent s x f r) := by
  have h1 := (h.linkCreate x r).modifyObject x (f := fun o =>
    { o with links := o.links.add f (Acid.linkCreate s x r).2 }) fun _ => rfl
  filter_upwards [computes_objectSetLabel h1 x r (Acid.linkCreate s x r).2] with n hn
  apply (computes_linkCreate x r).bind
  apply Computes.modify
  exact hn

/-- `object_set` releases the link that it has replaced. -/
theorem computes_objectSet_release {u : State} (h : Chained u) {x f : ℕ} {referent old : Option ℕ}
    (hlink : ∀ᶠ n in atTop, Computes 0 (objectSetLink n x f referent) s old u) :
    ∀ᶠ n in atTop, Computes 0 (objectSet n x f referent) s () (old.elim u (Acid.linkDec u)) := by
  cases old with
  | none =>
    filter_upwards [hlink] with n hlink
    apply Computes.start2
    apply hlink.bind
    apply Computes.stop
    exact computes_pure ()
  | some l =>
    filter_upwards [hlink, computes_linkDec h l] with n hlink hdec
    apply Computes.start2
    apply hlink.bind
    apply Computes.stop
    exact hdec

theorem computes_objectSet (h : Chained s) (x f : ℕ) (referent : Option ℕ) :
    ∀ᶠ n in atTop, Computes 0 (objectSet n x f referent) s () (Acid.objectSet s x f referent) := by
  cases referent with
  | none =>
    have hlink : ∀ n, Computes 0 (objectSetLink n x f none) s ((s.objects x).links.get f)
        (s.modifyObject x fun o => { o with links := o.links.remove f }) := by
      intro n
      apply Computes.gets
      apply Computes.modify
      exact computes_pure _
    have hremoved := h.modifyObject x (f := fun o => { o with links := o.links.remove f }) fun _ => rfl
    have hset := computes_objectSet_release hremoved (.of_forall hlink)
    cases hold : (s.objects x).links.get f <;> simpa [Acid.objectSet, hold] using hset
  | some r =>
    by_cases hsame : ((s.objects x).links.get f).map (fun l => (s.links l).target) = some r
    · obtain ⟨l, hold, htarget⟩ := Option.map_eq_some_iff.mp hsame
      have hlink : ∀ n, Computes 0 (objectSetLink n x f (some r)) s none s := by
        intro n
        apply Computes.gets
        apply Computes.targetOf
        rw [if_pos hsame]
        exact computes_pure none
      have hset := computes_objectSet_release h (.of_forall hlink)
      simpa [Acid.objectSet, hold, htarget] using hset
    · have hlink : ∀ᶠ n in atTop, Computes 0 (objectSetLink n x f (some r)) s
          ((s.objects x).links.get f) (Acid.objectSetReferent s x f r) := by
        filter_upwards [computes_objectSetReferent h x f r] with n hn
        apply Computes.gets
        apply Computes.targetOf
        rw [if_neg hsame]
        have hrest := hn.bind (d := 0) (f := fun _ => pure ((s.objects x).links.get f)) (computes_pure _)
        simpa only [bind_assoc] using hrest
      have hset := computes_objectSet_release (h.setReferent x f r) hlink
      cases hold : (s.objects x).links.get f with
      | none => simpa [Acid.objectSet, hold] using hset
      | some l =>
        have htarget : (s.links l).target ≠ r := by simpa [hold] using hsame
        simpa [Acid.objectSet, hold, htarget] using hset

end Acid.Locked

import Acid.CollectLayout

set_option autoImplicit false

/-!
# What a collector pointer stands for

An object keeps its collector pointer with its phantom references: the pointer goes with
the last of them, and an object that has none waits for its delete task.
-/
namespace Acid
open PointerForest Tally

/-- Every object with a collector pointer has a phantom reference, or a delete task that is queued
or runs as `D` says. -/
def Pointed (s : State) (D : List ℕ) : Prop :=
  ∀ x, (s.objects x).collector ≠ none → 0 < (s.objects x).count2 ∨ Doomed s D x

theorem Doomed.mono {s s' : State} {D : List ℕ} {x : ℕ} (h : Doomed s D x)
    (hw : s.work <+: s'.work) : Doomed s' D x :=
  h.imp (fun hm => hw.subset hm) id

/-- An object keeps its pointer with the last of its phantom references, or dies with it. -/
theorem objectDecPhantom_collector {s : State} {x y : ℕ}
    (hy : ((objectDecPhantom s x).objects y).collector ≠ none) :
    (s.objects y).collector ≠ none ∧
      (y = x → (s.objects x).count2 = 1 → .delete x ∈ (objectDecPhantom s x).work) := by
  unfold objectDecPhantom at hy ⊢
  dsimp only at hy ⊢
  have hobj := (s.modifyObject x fun o => { o with count2 := o.count2 - 1 }).check_objects
    (0 ≤ ((s.modifyObject x fun o => { o with count2 := o.count2 - 1 }).objects x).count2)
    (.assertFailed .decPhantomCount)
  generalize (s.modifyObject x fun o => { o with count2 := o.count2 - 1 }).check
    (0 ≤ ((s.modifyObject x fun o => { o with count2 := o.count2 - 1 }).objects x).count2)
    (.assertFailed .decPhantomCount) = u at hobj hy ⊢
  have hcount : (u.objects x).count2 = (s.objects x).count2 - 1 := by
    rw [hobj, State.modifyObject_objects_self]
  have hcol : (u.objects y).collector = (s.objects y).collector := by
    rw [hobj, State.modifyObject_objects]
    split_ifs with hyx
    · rw [hyx]
    · rfl
  rw [← hcol]
  split_ifs at hy ⊢ with hzero hdead
  · refine ⟨hy, fun _ _ => ?_⟩
    simp [objectRequestDelete, State.addTask]
  · rw [objectSetCollector_collector] at hy
    split_ifs at hy with hyx
    · exact absurd rfl hy
    · exact ⟨hy, fun heq => absurd heq hyx⟩
  · refine ⟨hy, fun _ hone => ?_⟩
    omega

theorem Forest.mergeCollectors_collector {s : State} (h : Forest s) {obj target y : ℕ} (ho : y ≠ obj)
    (ht : y ≠ target) :
    ((objectMergeCollectors s obj target).1.objects y).collector = (s.objects y).collector := by
  have hout := h.outcome obj target
  generalize objectMergeCollectors s obj target = p at hout ⊢
  cases hout with
  | neither => rfl
  | given => rw [objectSetCollector_collector, if_neg ht]
  | taken => rw [objectSetCollector_collector, if_neg ho]
  | equal => rfl
  | found =>
    rw [objectSetCollector_collector, if_neg ho, objectSetCollector_collector, if_neg ht]
  | merged =>
    rw [objectSetCollector_collector, if_neg ho, objectSetCollector_collector, if_neg ht,
      (collectorMerge_rest s _ _).1]

namespace Pointed
variable {s s' : State} {D : List ℕ} (h : Pointed s D)
include h

/-- An object is left alone, or has a phantom reference or a delete task afterwards. -/
theorem step (hw : s.work <+: s'.work) (hobj : ∀ x, (s'.objects x).collector ≠ none →
      0 < (s'.objects x).count2 ∨ Doomed s' D x ∨
        ((s.objects x).collector ≠ none ∧ (s.objects x).count2 ≤ (s'.objects x).count2)) :
    Pointed s' D := by
  intro x hx
  rcases hobj x hx with hpos | hd | ⟨hold, hle⟩
  · exact .inl hpos
  · exact .inr hd
  · rcases h x hold with hpos | hd
    · exact .inl (lt_of_lt_of_le hpos hle)
    · exact .inr (hd.mono hw)

theorem congr (hw : s.work <+: s'.work)
    (hcol : ∀ x, (s'.objects x).collector = (s.objects x).collector)
    (hcount2 : ∀ x, (s'.objects x).count2 = (s.objects x).count2) : Pointed s' D := by
  apply h.step hw
  intro x hx
  rw [hcol] at hx
  exact .inr (.inr ⟨hx, (hcount2 x).ge⟩)

/-- A change of one record that keeps its pointer and its phantom references. -/
theorem edit {x : ℕ} {f : Object → Object} (hw : s.work <+: s'.work)
    (hobj : ∀ y, s'.objects y = if y = x then f (s.objects x) else s.objects y)
    (hcol : ∀ o, (f o).collector = o.collector) (hcount2 : ∀ o, o.count2 ≤ (f o).count2) :
    Pointed s' D := by
  apply h.step hw
  intro y hy
  rw [hobj] at hy ⊢
  split_ifs at hy ⊢ with hyx
  · subst hyx
    rw [hcol] at hy
    exact .inr (.inr ⟨hy, hcount2 _⟩)
  · exact .inr (.inr ⟨hy, le_refl _⟩)

theorem modifyObject (x : ℕ) {f : Object → Object} (hcol : ∀ o, (f o).collector = o.collector)
    (hcount2 : ∀ o, o.count2 ≤ (f o).count2) : Pointed (s.modifyObject x f) D :=
  h.edit (List.prefix_refl _) (fun y => s.modifyObject_objects x y f) hcol hcount2

theorem check (p : Prop) [Decidable p] (e : Event) : Pointed (s.check p e) D := by
  apply h.congr
  · rw [State.check_work]
  · intro x
    rw [State.check_objects]
  · intro x
    rw [State.check_objects]

theorem setCollector {x : ℕ} {c : Option ℕ}
    (hx : c ≠ none → (s.objects x).collector ≠ none ∨ 0 < (s.objects x).count2) :
    Pointed (objectSetCollector s x c) D := by
  have hcount := fun y => (objectSetCollector_count s x c y).2
  apply h.step (objectSetCollector_frame s x c).work
  intro y hy
  rw [objectSetCollector_collector] at hy
  rw [hcount]
  split_ifs at hy with hyx
  · subst y
    rcases hx hy with hcol | hpos
    · exact .inr (.inr ⟨hcol, le_refl _⟩)
    · exact .inl hpos
  · exact .inr (.inr ⟨hy, le_refl _⟩)

/-- A dropped reference that puts its object in a list adds a phantom reference. -/
theorem dec {x : ℕ} (w : Bool) (hx : 0 ≤ (s.objects x).count2) : Pointed (objectDec s x w) D := by
  have h1 := (h.modifyObject x (f := fun o =>
    { o with count := Function.update o.count w (o.count w - 1) }) (fun _ => rfl) fun _ => le_refl _)
  unfold objectDec
  dsimp only
  have hx1 : 0 ≤ ((s.modifyObject x fun o =>
      { o with count := Function.update o.count w (o.count w - 1) }).objects x).count2 := by
    rw [State.modifyObject_objects_self]
    exact hx
  generalize s.modifyObject x (fun o =>
    { o with count := Function.update o.count w (o.count w - 1) }) = s1 at h1 hx1 ⊢
  have h2 := h1.check (0 ≤ (s1.objects x).count w) (.assertFailed .decCount)
  rw [← s1.check_objects (0 ≤ (s1.objects x).count w) (.assertFailed .decCount)] at hx1
  generalize s1.check (0 ≤ (s1.objects x).count w) (.assertFailed .decCount) = s2 at h2 hx1 ⊢
  have hens := objectEnsureCollector_frame s2 x
  have hcount := Sound.ensureCollector_count s2 x
  have hcol : ∀ y, y ≠ x →
      ((objectEnsureCollector s2 x).objects y).collector = (s2.objects y).collector := by
    intro y hy
    unfold objectEnsureCollector
    split
    · rfl
    · change ((objectSetCollector (collectorCreate s2).1 x _).objects y).collector = _
      rw [objectSetCollector_collector, if_neg hy]
      rfl
  split_ifs
  · exact h2.congr (objectRequestDelete_frame s2 x).work (fun _ => rfl) fun _ => rfl
  · obtain ⟨c, hc⟩ := Sound.ensureCollector_collector s2 x
    rw [hc]
    dsimp only
    apply h2.step (hens.trans (collectorAddObject_frame _ c x)).work
    intro y hy
    rw [collectorAddObject_count2, (hcount y).2]
    by_cases hyx : y = x
    · subst y
      rw [if_pos rfl]
      exact .inl (by omega)
    · rw [if_neg hyx, add_zero]
      refine .inr (.inr ⟨?_, le_refl _⟩)
      rw [← hcol y hyx]
      unfold collectorAddObject at hy
      dsimp only at hy
      rw [objectSetCollector_collector, if_neg hyx, (safelistAdd_same _ _ _).objects,
        State.modifyObject_objects_ne _ _ hyx, State.modifyObject_objects_ne _ _ hyx] at hy
      exact hy
  · exact h2

theorem decPhantom {x : ℕ} (hx : 0 < (s.objects x).count2) : Pointed (objectDecPhantom s x) D := by
  apply h.step (objectDecPhantom_frame s x).work
  intro y hy
  obtain ⟨hcol, hdead⟩ := objectDecPhantom_collector hy
  rw [objectDecPhantom_count2]
  by_cases hyx : y = x
  · subst hyx
    rw [if_pos rfl]
    by_cases hone : (s.objects y).count2 = 1
    · exact .inr (.inl (.inl (hdead rfl hone)))
    · exact .inl (by omega)
  · rw [if_neg hyx, sub_zero]
    exact .inr (.inr ⟨hcol, le_refl _⟩)

theorem linkDec {l : ℕ} (hpos : 0 ≤ (s.objects (s.links l).target).count2)
    (hp : (s.links l).phantomized = true → 0 < (s.objects (s.links l).target).count2) :
    Pointed (Acid.linkDec s l) D := by
  unfold Acid.linkDec
  dsimp only
  split_ifs with hph
  · exact h.decPhantom (hp hph)
  · exact h.dec _ hpos

/-- The object has a pointer before its class joins that of the target. -/
theorem mergeCollectors {obj target : ℕ} (hforest : Forest s)
    (ho : (s.objects obj).collector ≠ none) (ht : 0 < (s.objects target).count2) :
    Pointed (objectMergeCollectors s obj target).1 D := by
  apply h.step (objectMergeCollectors_frame s obj target).work
  intro y hy
  rw [(objectMergeCollectors_count s obj target y).2]
  by_cases hyt : y = target
  · exact .inl (hyt ▸ ht)
  · refine .inr (.inr ⟨?_, le_refl _⟩)
    by_cases hyo : y = obj
    · exact hyo ▸ ho
    · rwa [hforest.mergeCollectors_collector hyo hyt] at hy

theorem updateCollector (x : ℕ) : Pointed (objectUpdateCollector s x) D := by
  unfold objectUpdateCollector
  split
  · rename_i c hc
    apply h.setCollector
    intro _
    rw [hc]
    exact .inl (by simp)
  · exact h.congr (List.prefix_refl _) (fun _ => rfl) fun _ => rfl

theorem add (r : ListRef) (x : ℕ) : Pointed (safelistAdd s r x) D := by
  apply h.congr (safelistAdd_frame s r x).work
  · intro y
    rw [(safelistAdd_same s r x).objects]
  · intro y
    rw [(safelistAdd_same s r x).objects]

end Pointed

/-! ## Loops and tasks -/

theorem objectDel_work (s : State) (obj : ℕ) : s.work <+: (objectDel s obj).work := by
  obtain ⟨_, _, _, _, _, hwork, _⟩ := objectFree_rest (delStart s obj) obj
  rw [objectDel_eq, hwork]
  exact (delStart_frame s obj).work

namespace Pointed
variable {s : State} {L : Ledger} {D : List ℕ}

/-- The source of the link is the object that the collector works on. -/
theorem linkPhantomize (h : Pointed s D) (hs : Sound s L) {l c : ℕ} (hl : l ∈ L.refs)
    (hcur : ((s.links l).src, c) ∈ L.curated) : Pointed (Acid.linkPhantomize s l) D := by
  unfold Acid.linkPhantomize
  dsimp only
  split_ifs with hp
  · exact h
  · have hdec := hs.phantomizeDec hl (by simpa using hp)
    have hnn := hs.balance.count2_nonneg (s.links l).target
    have h1 := h.modifyObject (s.links l).target (f := fun o => { o with count2 := o.count2 + 1 })
      (fun _ => rfl) fun o => by
        dsimp only
        omega
    have h2 : Pointed (Acid.linkDec (s.modifyObject (s.links l).target fun o =>
        { o with count2 := o.count2 + 1 }) l) D := by
      apply h1.linkDec
      · change 0 ≤ ((s.modifyObject (s.links l).target _).objects (s.links l).target).count2
        rw [State.modifyObject_objects_self]
        dsimp only
        omega
      · exact fun hph => absurd hph hp
    generalize Acid.linkDec (s.modifyObject (s.links l).target fun o =>
      { o with count2 := o.count2 + 1 }) l = s2 at hdec h2 ⊢
    have h3 := h2.check ((s2.objects (s.links l).target).collector ≠ none ∨
      (s2.objects (s.links l).src).collector ≠ none) (.assertFailed .linkCollector)
    have hcheck := hdec.check ((s2.objects (s.links l).target).collector ≠ none ∨
      (s2.objects (s.links l).src).collector ≠ none) (e := .assertFailed .linkCollector) rfl
    generalize s2.check ((s2.objects (s.links l).target).collector ≠ none ∨
      (s2.objects (s.links l).src).collector ≠ none) (.assertFailed .linkCollector) = s3
      at hcheck h3 ⊢
    have h4 := h3.mergeCollectors hcheck.collectors.forest (hcheck.classes.held hcur).1.ne_none
      (Balance.count2_pos_of_hand (L := { L with refs := L.refs.erase l }) hcheck.balance)
    generalize (objectMergeCollectors s3 (s.links l).src (s.links l).target).1 = s4 at h4 ⊢
    have h5 : Pointed (s4.modifyLink l fun lk => { lk with phantomized := true }) D :=
      h4.congr (List.prefix_refl _) (fun _ => rfl) fun _ => rfl
    exact h5.check _ _

theorem phantomizeSnapshot (h : Pointed s D) (hs : Sound s L) {obj l c : ℕ} (hl : l ∈ L.refs)
    (hsrc : (s.links l).src = obj) (hcur : (obj, c) ∈ L.curated) :
    Pointed (Acid.phantomizeSnapshot obj s l) D := by
  unfold Acid.phantomizeSnapshot
  dsimp only
  have h1 := hs.check ((s.objects obj).phantomized = true) (e := .assertFailed .phantomizeObject) rfl
  have hf1 := check_frame s ((s.objects obj).phantomized = true) (.assertFailed .phantomizeObject)
  have hp1 := h.check ((s.objects obj).phantomized = true) (.assertFailed .phantomizeObject)
  generalize s.check ((s.objects obj).phantomized = true) (.assertFailed .phantomizeObject) = s1
    at h1 hf1 hp1 ⊢
  split_ifs
  · exact hp1
  · have h2 := h1.check ((s1.objects (s1.links l).src).phantomized = true)
      (e := .assertFailed .phantomizeSource) rfl
    have hf2 := hf1.trans (check_frame s1 ((s1.objects (s1.links l).src).phantomized = true)
      (.assertFailed .phantomizeSource))
    have hp2 := hp1.check ((s1.objects (s1.links l).src).phantomized = true)
      (.assertFailed .phantomizeSource)
    generalize s1.check ((s1.objects (s1.links l).src).phantomized = true)
      (.assertFailed .phantomizeSource) = s2 at h2 hf2 hp2 ⊢
    have hf3 := hf2.trans (check_frame s2 ((s2.objects (s1.links l).src).collector ≠ none)
      (.assertFailed .phantomizeSourceCollector))
    apply (hp2.check _ _).linkPhantomize (h2.check _ rfl) hl
    rw [hf3.links, hsrc]
    exact hcur

theorem foldl_phantomizeSnapshot (h : Pointed s D) (hs : Sound s L) {obj c : ℕ} (hlive : Live s obj)
    (hcur : (obj, c) ∈ L.curated) (ls : List ℕ) (hls : ∀ l ∈ ls, l ∈ L.refs ∧ (s.links l).src = obj) :
    Pointed (ls.foldl (Acid.phantomizeSnapshot obj) s) D := by
  induction ls generalizing s with
  | nil => exact h
  | cons l ls ih =>
    obtain ⟨hl, hsrc⟩ := hls l (List.mem_cons_self ..)
    have hf := phantomizeSnapshot_frame obj s l
    apply ih (h.phantomizeSnapshot hs hl hsrc hcur) (hs.phantomizeSnapshot hl (by rwa [hsrc]))
      ((hf.live_iff obj).mpr hlive)
    intro k hk
    obtain ⟨h1, h2⟩ := hls k (List.mem_cons_of_mem _ hk)
    exact ⟨h1, (hf.src k).trans h2⟩

theorem phantomizeSection (h : Pointed s D) (obj : ℕ) :
    Pointed (Acid.phantomizeSection s obj).heap D := by
  have h1 := h.updateCollector obj
  unfold Acid.phantomizeSection
  generalize objectUpdateCollector s obj = s1 at h1 ⊢
  have h2 := h1.modifyObject obj (f := fun o =>
    { o with count := Function.update o.count o.which (o.count o.which - 1) }) (fun _ => rfl)
    fun _ => le_refl _
  dsimp only
  generalize s1.modifyObject obj (fun o =>
    { o with count := Function.update o.count o.which (o.count o.which - 1) }) = s2 at h2 ⊢
  have h3 := h2.check (0 ≤ (s2.objects obj).count (s2.objects obj).which)
    (.assertFailed .phantomizeCount)
  generalize s2.check (0 ≤ (s2.objects obj).count (s2.objects obj).which)
    (.assertFailed .phantomizeCount) = s3 at h3 ⊢
  have hflip : Pointed (phantomizeFlip s3 obj) D := by
    unfold phantomizeFlip
    split_ifs
    · exact h3.modifyObject obj (fun _ => rfl) fun _ => le_refl _
    · exact h3
  split_ifs
  · exact h3
  · exact hflip
  · apply hflip.edit (f := fun o => { o with phantomized := true, phantomizationComplete := false })
    · simp [phantomizeStart, State.modifyObject]
    · exact phantomizeStart_objects _ obj
    · exact fun _ => rfl
    · exact fun _ => le_refl _

theorem phantomizeNode {obj c : ℕ} (h : Pointed s D) (hs : Sound s {
      refs := tableLinks s
      strong := [(obj, (s.objects obj).which)]
      curated := [(obj, c)] }) : Pointed (objectPhantomizeNode s obj) D := by
  have hcur : (obj, c) ∈ [(obj, c)] := List.mem_singleton_self _
  have hsec := hs.phantomizeSection
  have h1 := h.phantomizeSection obj
  rw [objectPhantomizeNode_sections, phantomizing_rest]
  have hfold : Pointed ((Acid.phantomizeSection s obj).phantoms.foldl (Acid.phantomizeSnapshot obj)
      (Acid.phantomizeSection s obj).heap) D := by
    rcases (layout_phantomizeSection s obj).2 with hnil | ⟨_, _, hls⟩
    · rw [hnil]
      exact h1
    · apply h1.foldl_phantomizeSnapshot hsec (hsec.live_of_curated hcur) hcur
      intro l hl
      rw [hls] at hl
      exact ⟨hsec.mem_tableLinks.mpr ⟨obj, hl⟩, (hsec.tables.owned hl).2⟩
  unfold phantomizeComplete
  split_ifs
  · exact hfold.modifyObject obj (fun _ => rfl) fun _ => le_refl _
  · exact hfold

/-- The target of a rebuilt link loses its pointer with its last phantom reference. -/
theorem rebuildLink (h : Pointed s D) (hs : Sound s L) {c l : ℕ} (hl : l ∈ L.refs) :
    Pointed (objectRebuildLink c s l) D := by
  rw [objectRebuildLink_eq]
  dsimp only
  split_ifs with hp
  · have hpos := hs.balance.count2_pos_of_link hl hp
    have hne : ∀ y, y ≠ (s.links l).target →
        (rebuildCount s l).objects y = s.objects y := by
      intro y hy
      unfold rebuildCount
      dsimp only
      rw [State.modifyObject_objects_ne _ _ hy, State.modifyObject_objects_ne _ _ hy]
      rfl
    have htarget := rebuildCount_target s l
    have hone : (s.objects (s.links l).target).count2 = 1 → _ := rebuildCollector_one (s := s) (l := l)
    have h1 : Pointed (rebuildCollector (Acid.rebuildCount s l) (s.links l).target) D := by
      apply h.step ((rebuildCount_frame s l).work.trans (rebuildCollector_frame _ _).work)
      intro y hy
      have hcount : ((rebuildCollector (Acid.rebuildCount s l) (s.links l).target).objects y).count2 =
          ((Acid.rebuildCount s l).objects y).count2 := by
        unfold rebuildCollector
        split_ifs
        · exact (objectSetCollector_count _ _ _ y).2
        · rfl
      have hcol : ((Acid.rebuildCount s l).objects y).collector ≠ none := by
        unfold rebuildCollector at hy
        split_ifs at hy
        · rw [objectSetCollector_collector] at hy
          split_ifs at hy
          · exact absurd rfl hy
          · exact hy
        · exact hy
      rw [hcount]
      by_cases hyt : y = (s.links l).target
      · subst hyt
        left
        rw [htarget]
        dsimp only
        by_contra hle
        exact hy (hone (by omega))
      · rw [hne y hyt] at hcol ⊢
        exact .inr (.inr ⟨hcol, le_refl _⟩)
    generalize rebuildCollector (Acid.rebuildCount s l) (s.links l).target = u at h1 ⊢
    have h2 : Pointed (u.modifyLink l fun lk => { lk with phantomized := false }) D :=
      h1.congr (List.prefix_refl _) (fun _ => rfl) fun _ => rfl
    unfold rebuildQueue
    split_ifs
    · exact (h2.check _ _).add _ _
    · exact h2.check _ _
  · exact h

theorem foldl_rebuildLink (h : Pointed s D) {c : ℕ} (ls : List ℕ) (hs : Sound s L) (hk : L.kept = ∅)
    (hstrict : ¬ L.strict) (hb : L.before = none) (hls : ∀ l ∈ ls, l ∈ L.refs)
    (hruns : 0 < runTasks s c) : Pointed (ls.foldl (objectRebuildLink c) s) D := by
  induction ls generalizing s with
  | nil => exact h
  | cons l ls ih =>
    have hl := hls l (List.mem_cons_self ..)
    have hstep : Sound (objectRebuildLink c s l) L := by
      apply hs.rebuildLink hl hruns
      · intro _ hm
        rw [hk] at hm
        cases hm
      · exact fun hx => absurd hx hstrict
      · exact hb
    apply ih (h.rebuildLink hs hl) hstep
    · exact fun k hk => hls k (List.mem_cons_of_mem _ hk)
    · exact hruns.trans_le ((objectRebuildLink_frame c s l).runTasks_le c)

theorem recoverNode (h : Pointed s D) {obj c : ℕ} (hs : Sound s L) (hk : L.kept = ∅)
    (hstrict : ¬ L.strict) (hb : L.before = none)
    (hrefs : ∀ l ∈ (s.objects obj).links.values, l ∈ L.refs) (hruns : 0 < runTasks s c) :
    Pointed (objectRecoverNode s obj c) D := by
  have hf1 := recoverUpdate_frame s obj
  have h1 : Pointed (recoverUpdate s obj) D ∧ Sound (recoverUpdate s obj) L := by
    unfold recoverUpdate
    split_ifs
    · exact ⟨h.updateCollector obj, hs.updateCollector⟩
    · exact ⟨h, hs⟩
  rw [objectRecoverNode_eq]
  dsimp only
  generalize recoverUpdate s obj = s1 at hf1 h1 ⊢
  apply Pointed.check
  split_ifs with hpos
  · have h2 := h1.2.recoverStart hpos
    have hp2 : Pointed (Acid.recoverStart s1 obj) D :=
      ((h1.1.check _ _).check _ _).modifyObject obj (fun _ => rfl) fun _ => le_refl _
    apply hp2.foldl_rebuildLink _ h2
    · rw [hk, Set.empty_sdiff]
    · exact hstrict
    · exact hb
    · rw [hf1.table]
      exact hrefs
    · have hruns2 : runTasks (Acid.recoverStart s1 obj) c = runTasks s1 c := by
        simp [Acid.recoverStart, State.modifyObject, runTasks]
      rw [hruns2]
      exact hruns.trans_le (hf1.link.runTasks_le c)
  · exact h1.1.check _ _

theorem linkDestroy (h : Pointed s D) (hs : Sound s L) {l : ℕ} (hl : l ∈ L.refs) :
    Pointed (Acid.linkDestroy s l) D := by
  have hdec : Pointed (Acid.linkDec s l) D :=
    h.linkDec (hs.balance.count2_nonneg _) fun hp => hs.balance.count2_pos_of_link hl hp
  exact hdec.congr (List.prefix_refl _) (fun _ => rfl) fun _ => rfl

theorem foldl_linkDestroy (h : Pointed s D) {ls : List ℕ} (hs : Sound s L) (hk : L.kept = ∅)
    (hnd : ls.Nodup) (hls : ∀ l ∈ ls, l ∈ L.refs) : Pointed (ls.foldl Acid.linkDestroy s) D := by
  induction ls generalizing s L with
  | nil => exact h
  | cons l ls ih =>
    obtain ⟨hnot, hnd'⟩ := List.nodup_cons.mp hnd
    have hl := hls l (List.mem_cons_self ..)
    have hstep : Sound (Acid.linkDestroy s l) { L with refs := L.refs.erase l } := by
      apply hs.linkDestroy hl
      intro _ _ _
      rw [hk]
      exact Set.notMem_empty _
    apply ih (h.linkDestroy hs hl) hstep hk hnd'
    intro k hm
    refine Finset.mem_erase.mpr ⟨?_, hls k (List.mem_cons_of_mem _ hm)⟩
    intro hkl
    exact hnot (hkl ▸ hm)

theorem removeLinks (h : Pointed s D) {obj : ℕ} (hs : Sound s L) (hk : L.kept = ∅)
    (hrefs : ∀ l ∈ (s.objects obj).links.values, l ∈ L.refs) :
    Pointed (objectRemoveLinks s obj) D := by
  have hstart : Pointed (Acid.removeStart s obj) D := by
    apply h.edit (f := fun o => { o with links := o.links.removeAll })
    · simp [Acid.removeStart, State.emit, State.modifyObject]
    · exact removeStart_objects s obj
    · exact fun _ => rfl
    · exact fun _ => le_refl _
  rw [objectRemoveLinks_eq]
  exact hstart.foldl_linkDestroy (hs.removeStart obj) hk (hs.tables.nodup obj) hrefs

/-- The object of the task is the one that a clean loop has polled. -/
theorem cleanNode (h : Pointed s D) {obj c : ℕ} (hs : Sound s L) (hk : L.kept = ∅)
    (hcur : (obj, c) ∈ L.curated) (hrefs : ∀ l ∈ (s.objects obj).links.values, l ∈ L.refs) :
    Pointed (objectCleanNode s obj) D := by
  have hnn := hs.balance.count_nonneg obj
  unfold objectCleanNode
  dsimp only
  rw [State.check_pos _ (hnn false), State.check_pos _ (hnn true)]
  split_ifs
  · exact h.decPhantom (hs.balance.count2_pos_of_curated hcur)
  · have hremoved := hs.removeLinks hrefs (.inl fun l _ _ => by
      rw [hk]
      exact Set.notMem_empty _)
    exact (h.removeLinks hs hk hrefs).decPhantom (hremoved.balance.count2_pos_of_curated hcur)

/-- The object of a delete task has no pointer when the task ends. -/
theorem del {obj : ℕ} (h : Pointed s [obj]) : Pointed (objectDel s obj) [] := by
  have hw := objectDel_work s obj
  have hobj : ∀ y, ((objectDel s obj).objects y).collector =
      (if y = obj then none else (s.objects y).collector) ∧
      ((objectDel s obj).objects y).count2 = (s.objects y).count2 := by
    intro y
    have hset := objectSetCollector_objects (s.emit (.objectDel obj)) obj none
    have hdel : (delStart s obj).objects y =
        if y = obj then disownRecord { s.objects obj with collector := none } else s.objects y := by
      rw [delStart, State.modifyObject_objects]
      simp only [State.check_objects, hset]
      split_ifs with hy
      · rfl
      · rfl
    rw [objectDel_eq, objectFree_objects]
    split_ifs with hy
    · subst hy
      rw [hdel, if_pos rfl]
      exact ⟨rfl, rfl⟩
    · rw [hdel, if_neg hy]
      exact ⟨rfl, rfl⟩
  intro y hy
  rw [(hobj y).1] at hy
  rw [(hobj y).2]
  split_ifs at hy with hyo
  · exact absurd rfl hy
  · refine (h y hy).imp id fun hd => ?_
    rcases hd with hm | hm
    · exact .inl (hw.subset hm)
    · exact absurd (List.mem_singleton.mp hm) hyo

/-- Other queues and other collectors, with the same delete tasks. -/
theorem requeue {s' : State} {D' : List ℕ} (h : Pointed s D) (hobj : s'.objects = s.objects)
    (hd : ∀ x, Doomed s D x → Doomed s' D' x) : Pointed s' D' := by
  intro x hx
  rw [hobj] at hx ⊢
  exact (h x hx).imp id (hd x)

/-- A new link gives its target a pointer together with a phantom reference. -/
theorem setReferent (h : Pointed s D) {o x : ℕ} (f : ℕ) (hforest : Forest (Acid.linkAdded s o f x))
    (hx : 0 ≤ (s.objects x).count2)
    (ho : (s.objects o).phantomized = true → (s.objects o).collector ≠ none) :
    Pointed (objectSetReferent s o f x) D := by
  have hcreate : s.work <+: (Acid.linkAdded s o f x).work := List.prefix_refl _
  have hw : s.work <+: (objectSetReferent s o f x).work :=
    hcreate.trans (objectSetLabel_frame _ o x s.linkCount).work
  apply h.step hw
  intro y hy
  have hle := objectSetReferent_count2 s o f x y
  have hadded : ∀ z, ((Acid.linkAdded s o f x).objects z).collector = (s.objects z).collector ∧
      ((Acid.linkAdded s o f x).objects z).count2 = (s.objects z).count2 ∧
      ((Acid.linkAdded s o f x).objects z).phantomized = (s.objects z).phantomized := by
    intro z
    rw [linkAdded_objects]
    split_ifs with hz
    · rw [hz]
      exact ⟨rfl, rfl, rfl⟩
    · exact ⟨rfl, rfl, rfl⟩
  cases hp : (s.objects o).phantomized with
  | false =>
    refine .inr (.inr ⟨?_, hle⟩)
    rw [objectSetReferent_eq, objectSetLabel_eq, (hadded o).2.2, hp, if_neg (by simp)] at hy
    dsimp only at hy
    rw [State.modifyObject_objects, State.modifyLink_objects] at hy
    rw [← (hadded y).1]
    split_ifs at hy with hyx
    · rw [hyx]
      exact hy
    · exact hy
  | true =>
    rw [objectSetReferent_eq, objectSetLabel_eq, (hadded o).2.2, if_pos hp] at hy hle ⊢
    dsimp only at hy hle ⊢
    rw [State.modifyLink_objects, State.modifyObject_objects, State.check_objects] at hy hle ⊢
    by_cases hyx : y = x
    · left
      have hcount := (objectMergeCollectors_count (Acid.linkAdded s o f x) o x x).2
      rw [(hadded x).2.1] at hcount
      rw [if_pos hyx]
      dsimp only
      omega
    · rw [if_neg hyx] at hy hle ⊢
      refine .inr (.inr ⟨?_, hle⟩)
      by_cases hyo : y = o
      · exact hyo ▸ ho hp
      · rwa [hforest.mergeCollectors_collector hyo hyx, (hadded y).1] at hy

theorem set (h : Pointed s []) (hs : Sound s (restLedger False False s)) {o f : ℕ} {r : Option ℕ}
    (ho : Live s o) (hp : (s.objects o).phantomized = true → (s.objects o).collector ≠ none) :
    Pointed (objectSet s o f r) [] := by
  have hold : ∀ l, (s.objects o).links.get f = some l → l ≠ s.linkCount ∧
      0 ≤ (s.objects (s.links l).target).count2 ∧
      ((s.links l).phantomized = true → 0 < (s.objects (s.links l).target).count2) := by
    intro l hget
    have hl : l ∈ (s.objects o).links.values := ((s.objects o).links.mem_values l).mpr
      ⟨f, ((s.objects o).links.get_eq_some f l).mp hget⟩
    have href := hs.mem_tableLinks.mpr ⟨o, hl⟩
    exact ⟨Nat.ne_of_lt (hs.tables.owned hl).1, hs.balance.count2_nonneg _,
      fun hph => hs.balance.count2_pos_of_link href hph⟩
  unfold objectSet
  dsimp only
  cases r with
  | none =>
    have h1 := h.modifyObject o (f := fun a => { a with links := a.links.remove f }) (fun _ => rfl)
      fun _ => le_refl _
    have hcount : ∀ y, ((s.modifyObject o fun a => { a with links := a.links.remove f }).objects
        y).count2 = (s.objects y).count2 := by
      intro y
      rw [State.modifyObject_objects]
      split_ifs with hy
      · rw [hy]
      · rfl
    cases hget : (s.objects o).links.get f with
    | none => exact h1
    | some l =>
      obtain ⟨_, hnn, hpos⟩ := hold l hget
      apply h1.linkDec
      · rw [hcount]
        exact hnn
      · rw [hcount]
        exact hpos
  | some x =>
    have h1 : Pointed (objectSetReferent s o f x) [] :=
      h.setReferent f (hs.linkAdded f ho).collectors.forest (hs.balance.count2_nonneg x) hp
    cases hget : (s.objects o).links.get f with
    | none => exact h1
    | some l =>
      obtain ⟨hne, hnn, hpos⟩ := hold l hget
      have hle := objectSetReferent_count2 s o f x (s.links l).target
      dsimp only
      split_ifs
      · exact h
      · apply h1.linkDec
        · rw [objectSetReferent_links s o f x hne]
          omega
        · rw [objectSetReferent_links s o f x hne]
          intro hph
          have := hpos hph
          omega

end Pointed

theorem mem_eraseIdx_of_ne {ts : List Task} {i : ℕ} {t u : Task} (hi : ts[i]? = some t) (hu : u ≠ t)
    (hm : u ∈ ts) : u ∈ ts.eraseIdx i := by
  have hcount := count_eraseIdx hi u
  rw [if_neg hu, add_zero] at hcount
  rw [← List.count_pos_iff, ← hcount]
  exact List.count_pos_iff.mpr hm

/-- Between steps, where phantomized objects have collectors. -/
theorem Pointed.exec {s : State} (h : Pointed s []) (hs : Sound s (restLedger False False s))
    {a : Action} (he : Enabled s a)
    (hcol : ∀ o, Live s o → (s.objects o).phantomized = true → (s.objects o).collector ≠ none) :
    Pointed (Acid.exec s a) [] := by
  cases a with
  | initStrong d =>
    intro x hx
    by_cases hxo : x = s.objectCount
    · subst hxo
      simp [Acid.exec, State.addClaim, objectInitStrong, objectIncStrong, objectInit,
        State.modifyObject] at hx
    · have hsame : (Acid.exec s (.initStrong d)).objects x = s.objects x := by
        simp [Acid.exec, State.addClaim, objectInitStrong, objectIncStrong, objectInit,
          State.modifyObject, Function.update_of_ne hxo]
      rw [hsame] at hx ⊢
      exact h x hx
  | incStrong o =>
    have h1 : Pointed (objectIncStrong s o) [] := h.modifyObject o (fun _ => rfl) fun _ => le_refl _
    exact h1.congr (List.prefix_refl _) (fun _ => rfl) fun _ => rfl
  | decStrong o =>
    have h1 : Pointed (s.dropClaim o) [] := h.congr (List.prefix_refl _) (fun _ => rfl) fun _ => rfl
    exact h1.dec _ (hs.balance.count2_nonneg o)
  | set o f r =>
    have ho : Live s o := by
      apply hs.live_of_inUse
      cases r with
      | none => exact hs.inUse_of_reachable rfl he
      | some x => exact hs.inUse_of_reachable rfl he.1
    exact h.set hs ho (hcol o ho)
  | enter i c =>
    have hkeep : ∀ x, .delete x ∈ s.work → .delete x ∈ s.work.eraseIdx i :=
      fun x hm => mem_eraseIdx_of_ne he (by simp) hm
    unfold Acid.exec collectorEnter
    dsimp only
    split_ifs
    · exact h.requeue rfl fun x hd => hd.imp (fun hm => List.mem_append_left _ (hkeep x hm)) id
    · exact h.requeue rfl fun x hd => hd.imp (hkeep x) id
  | iterate i c loop =>
    change Pointed (runIteration s i c loop) []
    rcases runIteration_cases s i c loop with ⟨_, _, heq⟩ | ⟨_, _, heq⟩ | ⟨_, _, heq⟩ |
      ⟨hloop, obj, rest, hd, heq⟩
    · have hre := hs.collectors.retire_eq c
      rw [heq]
      refine h.requeue ?_ fun x hx => hx.imp (fun hm => ?_) id
      · change (retire s c).objects = _
        rw [hre]
      · change _ ∈ (retire s c).work
        rw [hre]
        exact hm
    · rw [heq]
      exact h.requeue rfl fun x hx => hx.imp (fun hm => List.mem_append_left _ hm) id
    · rw [heq]
      exact h.requeue rfl fun _ => id
    · rw [heq]
      have hframe := afterPoll_frame s c loop obj
      have hobj := afterPoll_objects s c loop obj
      have hpolled : Pointed (afterPoll s c loop obj) [] := by
        apply h.congr hframe.work
        · intro x
          rw [hobj]
        · intro x
          rw [hobj]
      have hruns := runTasks_afterPoll obj he
      have hpoll : Sound (afterPoll s c loop obj) (({ refs := tableLinks (afterPoll s c loop obj) } :
          Ledger).polled loop.list (s.objects obj).which obj c) := by
        rw [tableLinks_congr hframe.graph]
        exact ((hs.poll hd rfl).check _ rfl).weaken (Set.empty_subset _) (Set.empty_subset _)
      rw [← hobj] at hpoll
      generalize afterPoll s c loop obj = u at hpolled hruns hpoll
      have hrefs : ∀ l ∈ (u.objects obj).links.values, l ∈ tableLinks u :=
        fun l hl => hpoll.mem_tableLinks.mpr ⟨obj, hl⟩
      have hbody : Pointed (loopBody u c loop obj) [] := by
        cases loop with
        | merged => exact hpolled.add _ _
        | collect => exact (hpolled.phantomizeNode hpoll).add _ _
        | recovery => exact (hpolled.recoverNode hpoll rfl id rfl hrefs hruns).add _ _
        | rebuild => exact hpolled.recoverNode hpoll rfl id rfl hrefs hruns
        | clean => exact hpolled.cleanNode hpoll rfl (List.mem_singleton_self _) hrefs
        | exit => exact absurd rfl hloop
      exact hbody.requeue rfl fun _ => id
  | delete i o =>
    have h1 := (hs.takeDelete he).weaken (K := ∅) (S := Set.univ \ {o}) (Set.empty_subset _) le_rfl
    have hp1 : Pointed { s with work := s.work.eraseIdx i } [o] := by
      refine h.requeue rfl fun x hd => ?_
      by_cases hx : x = o
      · exact .inr (List.mem_singleton.mpr hx)
      · rcases hd with hm | hm
        · exact .inl (mem_eraseIdx_of_ne he (by simpa using hx) hm)
        · cases hm
    refine (hp1.removeLinks h1 rfl fun l hl => ?_).del
    exact hs.mem_tableLinks.mpr ⟨o, hl⟩

end Acid

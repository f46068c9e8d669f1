import Acid.SoundMutators

set_option autoImplicit false

/-!
# What each operation does to the graph and to its flags

The state before an operation, with the flags of one object rewritten, is related
to the state after it by the frame of the link operations.
-/
namespace Acid

theorem LinkFrame.modifyObject {s s' : State} (h : LinkFrame s s') (o : ℕ) (f : Object → Object)
    (hf : ∀ a, (f a).shape = f a.shape) :
    LinkFrame (s.modifyObject o f) (s'.modifyObject o f) := by
  refine ⟨?_, h.objectCount, h.target, h.src, h.linkCount, h.claims, h.running,
    h.acidWorldCount, h.acidCollectCount, h.work, h.trace⟩
  intro x
  rw [State.modifyObject_objects, State.modifyObject_objects]
  split_ifs
  · rw [hf, hf, h.shape]
  · exact h.shape x

theorem modifyObject_modifyObject (s : State) (o : ℕ) (f g : Object → Object) :
    (s.modifyObject o f).modifyObject o g = s.modifyObject o (g ∘ f) := by
  simp [State.modifyObject]

theorem modifyObject_congr {s : State} {o : ℕ} {f g : Object → Object}
    (h : f (s.objects o) = g (s.objects o)) : s.modifyObject o f = s.modifyObject o g := by
  rw [State.modifyObject, State.modifyObject, h]

theorem LinkFrame.graph {s s' : State} (h : LinkFrame s s') : SameGraph s s' where
  table := h.table
  magic o := show (s'.objects o).shape.magic = (s.objects o).shape.magic by rw [h.shape o]
  target := h.target
  src := h.src
  linkCount := h.linkCount
  objectCount := h.objectCount
  claims := h.claims

/-- The side that `object_phantomize_node` leaves an object on. -/
def phantomizeWhich (s : State) (obj : ℕ) : Bool :=
  if 0 < (s.objects obj).count (!(s.objects obj).which) then !(s.objects obj).which
  else (s.objects obj).which

/-- The flags of the object after it has been phantomized. -/
def phantomizeRecord (w : Bool) (o : Object) : Object :=
  { o with
    which := w
    phantomized := true
    phantomizationComplete := o.phantomizationComplete || !o.phantomized }

theorem phantomizeRecord_of_phantomized (w : Bool) {o : Object} (hp : o.phantomized = true) :
    phantomizeRecord w o = { o with which := w } := by
  cases o
  simp_all [phantomizeRecord]

theorem objectUpdateCollector_count (s : State) (obj x : ℕ) :
    ((objectUpdateCollector s obj).objects x).count = (s.objects x).count := by
  unfold objectUpdateCollector
  split
  · exact (objectSetCollector_count s obj _ x).1
  · rfl

theorem objectPhantomizeLinks_frame (s : State) (obj : ℕ) :
    LinkFrame (s.modifyObject obj fun o =>
      { o with phantomized := true, phantomizationComplete := true })
      (objectPhantomizeLinks s obj) := by
  have hstart : LinkFrame (s.modifyObject obj fun o =>
      { o with phantomized := true, phantomizationComplete := false }) (phantomizeStart s obj) := by
    have hc := check_frame (s.modifyObject obj fun o => { o with phantomized := true })
      (((s.modifyObject obj fun o => { o with phantomized := true }).objects obj).collector ≠ none)
      (.assertFailed .phantomizeCollector)
    have hm := hc.link.modifyObject obj (fun o => { o with phantomizationComplete := false })
      fun _ => rfl
    rw [modifyObject_modifyObject] at hm
    exact hm
  have hfold := hstart.trans (foldl_linkFrame (phantomizeSnapshot_frame obj)
    (s.objects obj).links.values (phantomizeStart s obj))
  have hm := hfold.modifyObject obj (fun o => { o with phantomizationComplete := true })
    fun _ => rfl
  rw [modifyObject_modifyObject, ← objectPhantomizeLinks_eq] at hm
  exact hm

theorem objectPhantomizeLinks_links (s : State) (obj k : ℕ) :
    (objectPhantomizeLinks s obj).links k =
      if k ∈ (s.objects obj).links.values then { s.links k with phantomized := true }
      else s.links k := by
  have hlinks : (phantomizeStart s obj).links = s.links := by
    simp [phantomizeStart, State.modifyObject]
  rw [objectPhantomizeLinks_eq, State.modifyObject_links, foldl_phantomizeSnapshot_links, hlinks]

/-- Either nothing but counts changes, or the object ends phantomized with all its links. -/
theorem objectPhantomizeNode_cases (s : State) (obj : ℕ) :
    (1 < (s.objects obj).count (s.objects obj).which ∧ Frame s (objectPhantomizeNode s obj)) ∨
    ((s.objects obj).count (s.objects obj).which ≤ 1 ∧
      LinkFrame (s.modifyObject obj (phantomizeRecord (phantomizeWhich s obj)))
        (objectPhantomizeNode s obj) ∧
      ∀ k, (objectPhantomizeNode s obj).links k =
        if (s.objects obj).phantomized = false ∧ k ∈ (s.objects obj).links.values then
          { s.links k with phantomized := true }
        else s.links k) := by
  have hf1 := objectUpdateCollector_frame s obj
  have hc1 := objectUpdateCollector_count s obj obj
  rw [objectPhantomizeNode_eq]
  generalize objectUpdateCollector s obj = s1 at *
  have hf2 := hf1.trans (modifyObject_frame s1 obj (f := fun o =>
    { o with count := Function.update o.count o.which (o.count o.which - 1) }) rfl)
  have hc2 : ((s1.modifyObject obj fun o =>
      { o with count := Function.update o.count o.which (o.count o.which - 1) }).objects obj).count =
      Function.update (s.objects obj).count (s.objects obj).which
        ((s.objects obj).count (s.objects obj).which - 1) := by
    rw [State.modifyObject_objects_self, hc1, hf1.which]
  dsimp only
  generalize s1.modifyObject obj (fun o =>
    { o with count := Function.update o.count o.which (o.count o.which - 1) }) = s2 at *
  have hf3 := hf2.trans (check_frame s2 (0 ≤ (s2.objects obj).count (s2.objects obj).which)
    (.assertFailed .phantomizeCount))
  have hobj3 := s2.check_objects (0 ≤ (s2.objects obj).count (s2.objects obj).which)
    (.assertFailed .phantomizeCount)
  rw [← hobj3] at hc2
  generalize s2.check (0 ≤ (s2.objects obj).count (s2.objects obj).which)
    (.assertFailed .phantomizeCount) = s3 at *
  have hcount : (s3.objects obj).count (s3.objects obj).which =
      (s.objects obj).count (s.objects obj).which - 1 := by
    rw [hc2, hf3.which, Function.update_self]
  by_cases hpos : 0 < (s3.objects obj).count (s3.objects obj).which
  · left
    rw [if_pos hpos]
    exact ⟨by omega, hf3⟩
  · right
    rw [if_neg hpos]
    have hflip : phantomizeFlip s3 obj =
        s3.modifyObject obj fun o => { o with which := phantomizeWhich s obj } := by
      have hother : (s3.objects obj).count (!(s3.objects obj).which) =
          (s.objects obj).count (!(s.objects obj).which) := by
        rw [hc2, hf3.which, Function.update_of_ne (by simp)]
      unfold phantomizeFlip phantomizeWhich
      rw [hother]
      split_ifs
      · apply modifyObject_congr
        rw [hf3.which]
      · rw [← hf3.which]
        simp [State.modifyObject]
    have hf4 : LinkFrame (s.modifyObject obj fun o => { o with which := phantomizeWhich s obj })
        (phantomizeFlip s3 obj) := by
      rw [hflip]
      exact hf3.link.modifyObject obj _ fun _ => rfl
    have hl4 : (phantomizeFlip s3 obj).links = s.links := by
      rw [phantomizeFlip_links, hf3.links]
    have hself := s.modifyObject_objects_self obj fun o => { o with which := phantomizeWhich s obj }
    have hp4 : ((phantomizeFlip s3 obj).objects obj).phantomized = (s.objects obj).phantomized := by
      rw [hf4.phantomized, hself]
    have ht4 : ((phantomizeFlip s3 obj).objects obj).links = (s.objects obj).links := by
      rw [hf4.table, hself]
    generalize phantomizeFlip s3 obj = s4 at *
    rw [hp4]
    refine ⟨by omega, ?_⟩
    by_cases hp : (s.objects obj).phantomized = true
    · rw [if_pos hp]
      refine ⟨?_, fun k => by simp [hp, hl4]⟩
      have hsame : s.modifyObject obj (phantomizeRecord (phantomizeWhich s obj)) =
          s.modifyObject obj fun o => { o with which := phantomizeWhich s obj } := by
        apply modifyObject_congr
        exact phantomizeRecord_of_phantomized _ hp
      rw [hsame]
      exact hf4
    · rw [if_neg hp]
      refine ⟨?_, fun k => by rw [objectPhantomizeLinks_links, ht4, hl4]; simp [hp]⟩
      have hm := hf4.modifyObject obj (fun o =>
        { o with phantomized := true, phantomizationComplete := true }) fun _ => rfl
      rw [modifyObject_modifyObject] at hm
      have hsame : s.modifyObject obj (phantomizeRecord (phantomizeWhich s obj)) =
          s.modifyObject obj ((fun o => { o with
            phantomized := true, phantomizationComplete := true }) ∘
            fun o => { o with which := phantomizeWhich s obj }) := by
        apply modifyObject_congr
        simp [phantomizeRecord, hp]
      rw [hsame]
      exact hm.trans (objectPhantomizeLinks_frame s4 obj)

/-- The flags of the object after it has been recovered. -/
def recoverRecord (o : Object) : Object := { o with phantomized := false }

/-- Either nothing but the collector pointer changes, or the object is recovered and its links
are rebuilt. -/
theorem objectRecoverNode_cases (s : State) (obj c : ℕ) :
    ((s.objects obj).count (s.objects obj).which ≤ 0 ∧ Frame s (objectRecoverNode s obj c)) ∨
    (0 < (s.objects obj).count (s.objects obj).which ∧
      LinkFrame (s.modifyObject obj recoverRecord) (objectRecoverNode s obj c) ∧
      (∀ k, ((objectRecoverNode s obj c).links k).phantomized =
        (decide (k ∉ (s.objects obj).links.values) && (s.links k).phantomized)) ∧
      (∀ k, k ∉ (s.objects obj).links.values ∨ (s.links k).phantomized = false →
        (objectRecoverNode s obj c).links k = s.links k) ∧
      ∀ k ∈ (s.objects obj).links.values, (s.links k).phantomized = true →
        (objectRecoverNode s obj c).links k = { s.links k with
          which := rebuildWhich (s.modifyObject obj recoverRecord) k, phantomized := false }) := by
  have hf1 := recoverUpdate_frame s obj
  have hc1 := recoverUpdate_count s obj obj
  rw [objectRecoverNode_eq]
  dsimp only
  generalize recoverUpdate s obj = s1 at *
  by_cases hpos : 0 < (s1.objects obj).count (s1.objects obj).which
  · right
    rw [if_pos hpos]
    rw [hc1, hf1.which] at hpos
    have hstart : LinkFrame (s.modifyObject obj recoverRecord) (recoverStart s1 obj) := by
      have hc := (hf1.trans (check_frame s1 (¬ ((s1.objects obj).phantomized = true ∧
        (s1.objects obj).phantomizationComplete = false)) (.assertFailed .recoverWait))).trans
        (check_frame _ ((s1.objects obj).phantomizationComplete = true)
          (.assertFailed .recoverComplete))
      exact hc.link.modifyObject obj recoverRecord fun _ => rfl
    have hl2 : (recoverStart s1 obj).links = s.links := by
      rw [← hf1.links]
      simp [recoverStart, State.modifyObject]
    have htable : (s1.objects obj).links = (s.objects obj).links := hf1.table obj
    generalize recoverStart s1 obj = s2 at *
    have hfold := hstart.trans (foldl_linkFrame (objectRebuildLink_frame c)
      (s1.objects obj).links.values s2)
    have hlinks := fun k => foldl_objectRebuildLink_links c (s1.objects obj).links.values s2 k
    rw [htable] at hfold hlinks ⊢
    refine ⟨hpos, hfold.trans (check_frame _ _ _).link, fun k => ?_, fun k hk => ?_, fun k hk hp => ?_⟩
    · rw [State.check_links, (hlinks k).1, hl2]
    · rw [State.check_links, (hlinks k).2 (by rw [hl2]; exact hk), hl2]
    · rw [State.check_links, foldl_objectRebuildLink_label c hk (by rw [hl2]; exact hp), hl2,
        rebuildWhich_congr hstart]
  · left
    rw [if_neg hpos]
    rw [hc1, hf1.which] at hpos
    exact ⟨not_lt.mp hpos, (hf1.trans (check_frame _ _ _)).trans (check_frame _ _ _)⟩

/-- An object without links. -/
def emptyRecord (o : Object) : Object := { o with links := o.links.removeAll }

theorem foldl_linkDestroy_links (ls : List ℕ) (s : State) (k : ℕ) :
    (ls.foldl linkDestroy s).links k =
      if k ∈ ls then { s.links k with freed := true } else s.links k := by
  induction ls generalizing s with
  | nil => rfl
  | cons l ls ih =>
    rw [List.foldl_cons, ih, linkDestroy_links]
    by_cases hk : k = l
    · subst k
      simp
    · simp [hk]

theorem objectRemoveLinks_frame (s : State) (obj : ℕ) :
    LinkFrame (s.modifyObject obj emptyRecord) (objectRemoveLinks s obj) := by
  have hstart : Frame (s.modifyObject obj emptyRecord) (removeStart s obj) := by
    have he : Frame (s.modifyObject obj emptyRecord)
        ((s.emit (.removeLinks obj)).modifyObject obj emptyRecord) := by
      refine ⟨fun _ => rfl, rfl, rfl, rfl, rfl, rfl, rfl, rfl, List.prefix_refl _, ?_⟩
      exact List.suffix_cons _ _
    exact (he.trans (check_frame _ _ _)).trans (check_frame _ _ _)
  rw [objectRemoveLinks_eq]
  exact hstart.link.trans (foldl_linkFrame linkDestroy_frame _ _)

theorem objectRemoveLinks_links (s : State) (obj k : ℕ) : (objectRemoveLinks s obj).links k =
    if k ∈ (s.objects obj).links.values then { s.links k with freed := true }
    else s.links k := by
  rw [objectRemoveLinks_eq, foldl_linkDestroy_links, removeStart_links]

/-- Either nothing but counts changes, or the table is emptied. -/
theorem objectCleanNode_cases (s : State) (obj : ℕ) :
    ((∃ b, (s.objects obj).count b ≠ 0) ∧ Frame s (objectCleanNode s obj)) ∨
    ((∀ b, (s.objects obj).count b = 0) ∧
      LinkFrame (s.modifyObject obj emptyRecord) (objectCleanNode s obj) ∧
      ∀ k, (objectCleanNode s obj).links k =
        if k ∈ (s.objects obj).links.values then { s.links k with freed := true }
        else s.links k) := by
  have hf1 := (check_frame s (0 ≤ (s.objects obj).count false) (.assertFailed .cleanCount)).trans
    (check_frame _ (0 ≤ ((s.check (0 ≤ (s.objects obj).count false)
      (.assertFailed .cleanCount)).objects obj).count true) (.assertFailed .cleanCount))
  have hobj1 : ((s.check (0 ≤ (s.objects obj).count false) (.assertFailed .cleanCount)).check
      (0 ≤ ((s.check (0 ≤ (s.objects obj).count false)
      (.assertFailed .cleanCount)).objects obj).count true) (.assertFailed .cleanCount)).objects =
      s.objects := by
    rw [State.check_objects, State.check_objects]
  unfold objectCleanNode
  dsimp only
  generalize (s.check (0 ≤ (s.objects obj).count false) (.assertFailed .cleanCount)).check
    (0 ≤ ((s.check (0 ≤ (s.objects obj).count false)
      (.assertFailed .cleanCount)).objects obj).count true) (.assertFailed .cleanCount) = s1 at *
  rw [hobj1]
  split_ifs with huse
  · left
    refine ⟨?_, hf1.trans (objectDecPhantom_frame s1 obj)⟩
    exact huse.elim (fun hb => ⟨false, hb⟩) fun hb => ⟨true, hb⟩
  · right
    push Not at huse
    have hdec := objectDecPhantom_frame (objectRemoveLinks s1 obj) obj
    refine ⟨fun b => by cases b <;> tauto, ?_, fun k => ?_⟩
    · exact ((hf1.link.modifyObject obj emptyRecord fun _ => rfl).trans
        (objectRemoveLinks_frame s1 obj)).trans hdec.link
    · rw [hdec.links, objectRemoveLinks_links, hf1.links, hf1.table]

/-- What is left of an object after its delete task. -/
def deletedRecord (o : Object) : Object := { disownRecord o with freed := true }

theorem delStart_frame (s : State) (obj : ℕ) :
    LinkFrame (s.modifyObject obj disownRecord) (delStart s obj) := by
  have hf := ((emit_frame s (.objectDel obj)).trans
    (objectSetCollector_frame (s.emit (.objectDel obj)) obj none)).trans
    (check_frame _ (((objectSetCollector (s.emit (.objectDel obj)) obj none).objects
      obj).links.size = 0) (.assertFailed .delLinks))
  exact hf.link.modifyObject obj disownRecord fun _ => rfl

theorem delStart_links (s : State) (obj : ℕ) : (delStart s obj).links = s.links := by
  rw [delStart, State.modifyObject_links, State.check_links, (objectSetCollector_frame _ obj none).links]
  rfl

theorem objectRequestDeleteTaskRun_effect (s : State) (obj : ℕ) :
    (∀ x, ((objectRequestDeleteTaskRun s obj).objects x).shape =
      ((s.modifyObject obj deletedRecord).objects x).shape) ∧
    (∀ k, (objectRequestDeleteTaskRun s obj).links k =
      if k ∈ (s.objects obj).links.values then { s.links k with freed := true }
      else s.links k) ∧
    (objectRequestDeleteTaskRun s obj).objectCount = s.objectCount ∧
    (objectRequestDeleteTaskRun s obj).linkCount = s.linkCount ∧
    (objectRequestDeleteTaskRun s obj).claims = s.claims ∧
    (objectRequestDeleteTaskRun s obj).running = s.running := by
  have hl := objectRemoveLinks_links s obj
  have hf := ((objectRemoveLinks_frame s obj).modifyObject obj disownRecord fun _ => rfl).trans
    (delStart_frame (objectRemoveLinks s obj) obj)
  rw [modifyObject_modifyObject] at hf
  unfold objectRequestDeleteTaskRun
  rw [objectDel_eq]
  obtain ⟨hn, hlinks, hlc, _, _, _, hrun, hclaims, _⟩ :=
    objectFree_rest (delStart (objectRemoveLinks s obj) obj) obj
  refine ⟨fun x => ?_, fun k => ?_, ?_, ?_, ?_, ?_⟩
  · have hx := hf.shape x
    rw [State.modifyObject_objects] at hx
    rw [objectFree_objects, State.modifyObject_objects]
    split_ifs at hx ⊢ with hxo
    · subst x
      change { (Object.shape _) with freed := true } = _
      rw [hx]
      rfl
    · exact hx
  · rw [hlinks, delStart_links, hl]
  · exact hn.trans hf.objectCount
  · exact hlc.trans hf.linkCount
  · exact hclaims.trans hf.claims
  · exact hrun.trans hf.running

theorem objectSetLabel_frame (s : State) (obj referent l : ℕ) :
    LinkFrame s (objectSetLabel s obj referent l) := by
  rw [objectSetLabel_eq]
  split_ifs
  · exact (((objectMergeCollectors_frame s obj referent).trans
      (check_frame _ _ _)).trans (modifyObject_frame _ referent rfl)).link.trans
      (modifyLink_frame _ l rfl rfl)
  · exact (modifyLink_frame s l rfl rfl).trans (modifyObject_frame _ referent rfl).link

/-- The link that `object_set` stores. -/
def newLink (s : State) (obj referent : ℕ) : Link where
  which := if (s.objects obj).phantomized then false else setWhich s obj referent
  phantomized := (s.objects obj).phantomized
  target := referent
  src := obj

theorem objectSetReferent_newLink (s : State) (obj f x : ℕ) :
    (objectSetReferent s obj f x).links s.linkCount = newLink s obj x := by
  have hl := linkAdded_links s obj f x s.linkCount
  rw [if_pos rfl] at hl
  have hp : ((linkAdded s obj f x).objects obj).phantomized = (s.objects obj).phantomized := by
    rw [linkAdded_objects, if_pos rfl]
  rw [objectSetReferent_eq, objectSetLabel_eq, hp, newLink]
  split_ifs with hph
  · dsimp only
    rw [State.modifyLink_links, if_pos rfl, State.modifyObject_links, State.check_links,
      (objectMergeCollectors_frame _ obj x).links, hl, hph]
  · dsimp only
    rw [State.modifyObject_links, State.modifyLink_links, if_pos rfl, hl, setWhich_linkAdded]
    simp [hph]

/-- The three effects of `object_set`: clear, keep, link anew. -/
theorem objectSet_cases (s : State) (obj f : ℕ) (r : Option ℕ) :
    (r = none ∧ LinkFrame (s.modifyObject obj fun o => { o with links := o.links.remove f })
        (objectSet s obj f r) ∧ (objectSet s obj f r).links = s.links) ∨
    (objectSet s obj f r = s ∧
      ∃ l, (s.objects obj).links.get f = some l ∧ r = some (s.links l).target) ∨
    (∃ x, r = some x ∧ LinkFrame (linkAdded s obj f x) (objectSet s obj f r) ∧
      (∀ l, (s.objects obj).links.get f = some l → (s.links l).target ≠ x) ∧
      ∀ k, (objectSet s obj f r).links k =
        if k = s.linkCount then newLink s obj x else s.links k) := by
  have hset : ∀ x, LinkFrame (linkAdded s obj f x) (objectSetReferent s obj f x) :=
    fun x => objectSetLabel_frame _ obj x s.linkCount
  have hlinks : ∀ x k, (objectSetReferent s obj f x).links k =
      if k = s.linkCount then newLink s obj x else s.links k := by
    intro x k
    split_ifs with hk
    · rw [hk, objectSetReferent_newLink]
    · exact objectSetReferent_links s obj f x hk
  cases r with
  | none =>
    refine .inl ⟨rfl, ?_⟩
    unfold objectSet
    dsimp only
    split
    · exact ⟨(linkDec_frame _ _).link, (linkDec_frame _ _).links⟩
    · exact ⟨.refl _, rfl⟩
  | some x =>
    right
    unfold objectSet
    dsimp only
    cases hget : (s.objects obj).links.get f with
    | none => exact .inr ⟨x, rfl, hset x, (fun l hl => by cases hl), hlinks x⟩
    | some l =>
      dsimp only
      split_ifs with ht
      · exact .inl ⟨rfl, l, rfl, by rw [ht]⟩
      · refine .inr ⟨x, rfl, (hset x).trans (linkDec_frame _ _).link, ?_, fun k => ?_⟩
        · rintro l' ⟨⟩
          exact ht
        · rw [(linkDec_frame _ _).links]
          exact hlinks x k

end Acid

import Acid.Run

set_option autoImplicit false

/-!
# What the reference-counting operations leave alone

Counting, requesting deletions, creating and merging collectors change counts,
collector pointers and collectors only; the object graph stays as it is.
-/
namespace Acid

/-- The fields that no reference-counting operation touches. -/
def Object.shape (o : Object) : Object :=
  { o with count := fun _ => 0, count2 := 0, collector := none }

structure Frame (s s' : State) : Prop where
  shape : ∀ o, (s'.objects o).shape = (s.objects o).shape
  objectCount : s'.objectCount = s.objectCount
  links : s'.links = s.links
  linkCount : s'.linkCount = s.linkCount
  claims : s'.claims = s.claims
  running : s'.running = s.running
  acidWorldCount : s'.acidWorldCount = s.acidWorldCount
  acidCollectCount : s'.acidCollectCount = s.acidCollectCount
  work : s.work <+: s'.work
  trace : s.trace <:+ s'.trace

namespace Frame

theorem refl (s : State) : Frame s s :=
  ⟨fun _ => rfl, rfl, rfl, rfl, rfl, rfl, rfl, rfl, List.prefix_refl _, List.suffix_refl _⟩

theorem trans {s s' s'' : State} (h : Frame s s') (h' : Frame s' s'') : Frame s s'' where
  shape o := (h'.shape o).trans (h.shape o)
  objectCount := h'.objectCount.trans h.objectCount
  links := h'.links.trans h.links
  linkCount := h'.linkCount.trans h.linkCount
  claims := h'.claims.trans h.claims
  running := h'.running.trans h.running
  acidWorldCount := h'.acidWorldCount.trans h.acidWorldCount
  acidCollectCount := h'.acidCollectCount.trans h.acidCollectCount
  work := h.work.trans h'.work
  trace := h.trace.trans h'.trace

variable {s s' : State} (h : Frame s s')
include h

theorem which (o : ℕ) : (s'.objects o).which = (s.objects o).which :=
  show (s'.objects o).shape.which = (s.objects o).shape.which by rw [h.shape o]

theorem phantomized (o : ℕ) : (s'.objects o).phantomized = (s.objects o).phantomized :=
  show (s'.objects o).shape.phantomized = (s.objects o).shape.phantomized by rw [h.shape o]

theorem table (o : ℕ) : (s'.objects o).links = (s.objects o).links :=
  show (s'.objects o).shape.links = (s.objects o).shape.links by rw [h.shape o]

theorem complete (o : ℕ) :
    (s'.objects o).phantomizationComplete = (s.objects o).phantomizationComplete :=
  show (s'.objects o).shape.phantomizationComplete = (s.objects o).shape.phantomizationComplete by rw [h.shape o]

theorem freed (o : ℕ) : (s'.objects o).freed = (s.objects o).freed :=
  show (s'.objects o).shape.freed = (s.objects o).shape.freed by rw [h.shape o]

theorem live_iff (o : ℕ) : Live s' o ↔ Live s o := by
  simp only [Live, h.objectCount, h.freed]

theorem edge_iff (a b : ℕ) : Edge s' a b ↔ Edge s a b := by
  simp only [Edge, h.table, h.links]

theorem edge_eq : Edge s' = Edge s := by
  funext a b
  exact propext (h.edge_iff a b)

theorem reachable_iff (o : ℕ) : Reachable s' o ↔ Reachable s o := by
  simp only [Reachable, h.claims, h.edge_eq]

end Frame

theorem emit_frame (s : State) (e : Event) : Frame s (s.emit e) :=
  { Frame.refl s with trace := List.suffix_cons _ _ }

theorem check_frame (s : State) (p : Prop) [Decidable p] (e : Event) : Frame s (s.check p e) := by
  unfold State.check
  split_ifs
  · exact .refl s
  · exact emit_frame s e

theorem addTask_frame (s : State) (t : Task) : Frame s (s.addTask t) :=
  { Frame.refl s with work := List.prefix_append _ _ }

theorem modifyCollector_frame (s : State) (c : ℕ) (f : Collector → Collector) :
    Frame s (s.modifyCollector c f) :=
  { Frame.refl s with }

theorem modifySafelist_frame (s : State) (r : ListRef) (f : Safelist → Safelist) :
    Frame s (s.modifySafelist r f) :=
  modifyCollector_frame s _ _

theorem modifyObject_frame (s : State) (o : ℕ) {f : Object → Object}
    (hf : (f (s.objects o)).shape = (s.objects o).shape) : Frame s (s.modifyObject o f) := by
  refine { Frame.refl s with shape := ?_ }
  intro x
  rw [State.modifyObject_objects]
  split_ifs with hx
  · rw [hx, hf]
  · rfl

theorem counterIncRef_frame (s : State) (c : ℕ) : Frame s (counterIncRef s c) :=
  modifyCollector_frame s c _

theorem counterDecRef_frame (s : State) (c : ℕ) : Frame s (counterDecRef s c) :=
  (check_frame s _ _).trans (modifyCollector_frame _ c _)

theorem counterDecStore_frame (s : State) (c : ℕ) : Frame s (counterDecStore s c) :=
  (check_frame s _ _).trans (modifyCollector_frame _ c _)

theorem safelistPush_frame (s : State) (r : ListRef) (o : ℕ) : Frame s (safelistPush s r o) :=
  (modifyCollector_frame s r.1 _).trans (modifySafelist_frame _ r _)

theorem safelistAdd_frame (s : State) (r : ListRef) (o : ℕ) : Frame s (safelistAdd s r o) := by
  unfold safelistAdd
  split <;> exact safelistPush_frame s _ o

theorem safelistPoll_frame (s : State) (r : ListRef) : Frame s (safelistPoll s r).1 := by
  cases h : (s.safelist r).data with
  | nil =>
    rw [safelistPoll_nil h]
    exact .refl s
  | cons o rest =>
    rw [safelistPoll_cons h]
    dsimp only
    exact (counterDecStore_frame s r.1).trans (modifySafelist_frame _ r _)

theorem safelistDrain_frame (dest r : ListRef) (n : ℕ) (s : State) :
    Frame s (safelistDrain dest r n s) := by
  induction n generalizing s with
  | zero => exact .refl s
  | succ n ih =>
    have hp := safelistPoll_frame s r
    unfold safelistDrain
    split
    · rename_i s' h
      rwa [h] at hp
    · rename_i s' o h
      rw [h] at hp
      exact (hp.trans (safelistAdd_frame s' dest o)).trans (ih _)

theorem safelistForward_frame (s : State) (r dest : ListRef) : Frame s (safelistForward s r dest) :=
  (safelistDrain_frame dest r _ s).trans (modifySafelist_frame _ r _)

theorem counterRepoint_frame (s : State) (old new : Option ℕ) :
    Frame s (counterRepoint s old new) := by
  cases new <;> cases old
  · exact .refl s
  · exact counterDecRef_frame s _
  · exact counterIncRef_frame s _
  · exact (counterIncRef_frame s _).trans (counterDecRef_frame _ _)

theorem objectSetCollector_frame (s : State) (o : ℕ) (c : Option ℕ) :
    Frame s (objectSetCollector s o c) := by
  unfold objectSetCollector
  split_ifs
  · exact .refl s
  · exact (counterRepoint_frame s _ c).trans (modifyObject_frame _ o rfl)

theorem collectorSetForward_frame (s : State) (c : ℕ) (f : Option ℕ) :
    Frame s (collectorSetForward s c f) := by
  unfold collectorSetForward
  split_ifs
  · exact .refl s
  · exact (counterRepoint_frame s _ f).trans (modifyCollector_frame _ c _)

theorem collectorCreate_frame (s : State) : Frame s (collectorCreate s).1 :=
  { Frame.refl s with }

theorem collectorMerge_frame (s : State) (t c : ℕ) : Frame s (collectorMerge s t c) :=
  (((((safelistForward_frame s _ _).trans (safelistForward_frame _ _ _)).trans
    (safelistForward_frame _ _ _)).trans (safelistForward_frame _ _ _)).trans
    (safelistForward_frame _ _ _)).trans (collectorSetForward_frame _ _ _)

theorem collectorAddObject_frame (s : State) (c o : ℕ) : Frame s (collectorAddObject s c o) :=
  (((modifyObject_frame s o rfl).trans (modifyObject_frame _ o rfl)).trans
    (safelistAdd_frame _ _ o)).trans (objectSetCollector_frame _ o _)

theorem objectRequestDelete_frame (s : State) (o : ℕ) : Frame s (objectRequestDelete s o) :=
  (emit_frame s _).trans (addTask_frame _ _)

theorem objectEnsureCollector_frame (s : State) (o : ℕ) : Frame s (objectEnsureCollector s o) := by
  unfold objectEnsureCollector
  split
  · exact .refl s
  · exact ((collectorCreate_frame s).trans (objectSetCollector_frame _ o _)).trans
      (addTask_frame _ _)

theorem objectDec_frame (s : State) (o : ℕ) (w : Bool) : Frame s (objectDec s o w) := by
  have hd := (modifyObject_frame s o
    (f := fun h => { h with count := Function.update h.count w (h.count w - 1) }) rfl).trans
    (check_frame _ (0 ≤ ((s.modifyObject o fun h =>
      { h with count := Function.update h.count w (h.count w - 1) }).objects o).count w)
      (.assertFailed .decCount))
  unfold objectDec
  dsimp only
  split_ifs
  · exact hd.trans (objectRequestDelete_frame _ o)
  · split
    · exact (hd.trans (objectEnsureCollector_frame _ o)).trans (collectorAddObject_frame _ _ o)
    · exact hd.trans (objectEnsureCollector_frame _ o)
  · exact hd

theorem objectDecPhantom_frame (s : State) (o : ℕ) : Frame s (objectDecPhantom s o) := by
  have hd := (modifyObject_frame s o (f := fun h => { h with count2 := h.count2 - 1 }) rfl).trans
    (check_frame _ (0 ≤ ((s.modifyObject o fun h =>
      { h with count2 := h.count2 - 1 }).objects o).count2) (.assertFailed .decPhantomCount))
  unfold objectDecPhantom
  dsimp only
  split_ifs
  · exact hd.trans (objectRequestDelete_frame _ o)
  · exact hd.trans (objectSetCollector_frame _ o _)
  · exact hd

theorem linkDec_frame (s : State) (l : ℕ) : Frame s (linkDec s l) := by
  unfold linkDec
  dsimp only
  split_ifs
  · exact objectDecPhantom_frame s _
  · exact objectDec_frame s _ _

theorem mergeLoop_frame (o x n : ℕ) (s : State) (t c : ℕ) :
    Frame s (mergeLoop o x n s t c).1 := by
  induction n generalizing t c with
  | zero => exact emit_frame s _
  | succ n ih =>
    unfold mergeLoop
    split
    · exact (objectSetCollector_frame s x _).trans (objectSetCollector_frame _ o _)
    · split
      · exact (objectSetCollector_frame s x _).trans (objectSetCollector_frame _ o _)
      · split
        · exact ih _ _
        · split
          · exact ih _ _
          · split
            · exact .refl s
            · exact ((collectorMerge_frame s t c).trans (check_frame _ _ _)).trans
                ((objectSetCollector_frame _ x _).trans (objectSetCollector_frame _ o _))

theorem objectMergeCollectors_frame (s : State) (o x : ℕ) :
    Frame s (objectMergeCollectors s o x).1 := by
  unfold objectMergeCollectors
  split
  · exact .refl s
  · exact objectSetCollector_frame s x _
  · exact objectSetCollector_frame s o _
  · split
    · exact .refl s
    · exact mergeLoop_frame o x _ s _ _

theorem objectUpdateCollector_frame (s : State) (o : ℕ) : Frame s (objectUpdateCollector s o) := by
  unfold objectUpdateCollector
  split
  · exact objectSetCollector_frame s o _
  · exact emit_frame s _

end Acid

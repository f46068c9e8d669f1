import Acid.Frame

set_option autoImplicit false

/-!
# What the link operations leave alone

Phantomizing, rebuilding and destroying links also change the flags of links;
the tables and the ends of every link stay as they are.
-/
namespace Acid

structure LinkFrame (s s' : State) : Prop where
  shape : ∀ o, (s'.objects o).shape = (s.objects o).shape
  objectCount : s'.objectCount = s.objectCount
  target : ∀ l, (s'.links l).target = (s.links l).target
  src : ∀ l, (s'.links l).src = (s.links l).src
  linkCount : s'.linkCount = s.linkCount
  claims : s'.claims = s.claims
  running : s'.running = s.running
  acidWorldCount : s'.acidWorldCount = s.acidWorldCount
  acidCollectCount : s'.acidCollectCount = s.acidCollectCount
  work : s.work <+: s'.work
  trace : s.trace <:+ s'.trace

theorem Frame.link {s s' : State} (h : Frame s s') : LinkFrame s s' where
  shape := h.shape
  objectCount := h.objectCount
  target l := by rw [h.links]
  src l := by rw [h.links]
  linkCount := h.linkCount
  claims := h.claims
  running := h.running
  acidWorldCount := h.acidWorldCount
  acidCollectCount := h.acidCollectCount
  work := h.work
  trace := h.trace

namespace LinkFrame

theorem refl (s : State) : LinkFrame s s := (Frame.refl s).link

theorem trans {s s' s'' : State} (h : LinkFrame s s') (h' : LinkFrame s' s'') :
    LinkFrame s s'' where
  shape o := (h'.shape o).trans (h.shape o)
  objectCount := h'.objectCount.trans h.objectCount
  target l := (h'.target l).trans (h.target l)
  src l := (h'.src l).trans (h.src l)
  linkCount := h'.linkCount.trans h.linkCount
  claims := h'.claims.trans h.claims
  running := h'.running.trans h.running
  acidWorldCount := h'.acidWorldCount.trans h.acidWorldCount
  acidCollectCount := h'.acidCollectCount.trans h.acidCollectCount
  work := h.work.trans h'.work
  trace := h.trace.trans h'.trace

variable {s s' : State} (h : LinkFrame s s')
include h

theorem which (o : ℕ) : (s'.objects o).which = (s.objects o).which :=
  show (s'.objects o).shape.which = (s.objects o).shape.which by rw [h.shape o]

theorem phantomized (o : ℕ) : (s'.objects o).phantomized = (s.objects o).phantomized :=
  show (s'.objects o).shape.phantomized = (s.objects o).shape.phantomized by rw [h.shape o]

theorem table (o : ℕ) : (s'.objects o).links = (s.objects o).links :=
  show (s'.objects o).shape.links = (s.objects o).shape.links by rw [h.shape o]

theorem freed (o : ℕ) : (s'.objects o).freed = (s.objects o).freed :=
  show (s'.objects o).shape.freed = (s.objects o).shape.freed by rw [h.shape o]

theorem live_iff (o : ℕ) : Live s' o ↔ Live s o := by
  simp only [Live, h.objectCount, h.freed]

end LinkFrame

theorem foldl_linkFrame {f : State → ℕ → State} (hf : ∀ s l, LinkFrame s (f s l)) (ls : List ℕ)
    (s : State) : LinkFrame s (ls.foldl f s) := by
  induction ls generalizing s with
  | nil => exact .refl s
  | cons l ls ih => exact (hf s l).trans (ih _)

theorem modifyLink_frame (s : State) (l : ℕ) {f : Link → Link}
    (ht : (f (s.links l)).target = (s.links l).target)
    (hs : (f (s.links l)).src = (s.links l).src) : LinkFrame s (s.modifyLink l f) := by
  refine { LinkFrame.refl s with target := ?_, src := ?_ }
  · intro k
    rw [State.modifyLink_links]
    split_ifs with hk
    · rw [ht, hk]
    · rfl
  · intro k
    rw [State.modifyLink_links]
    split_ifs with hk
    · rw [hs, hk]
    · rfl

theorem linkDestroy_frame (s : State) (l : ℕ) : LinkFrame s (linkDestroy s l) :=
  ((linkDec_frame s l).link.trans (modifyLink_frame _ l rfl rfl)).trans (emit_frame _ _).link

/-- `link_phantomize` after the counts have moved. -/
theorem linkPhantomize_frame (s : State) (l : ℕ) : LinkFrame s (linkPhantomize s l) := by
  unfold linkPhantomize
  dsimp only
  split_ifs
  · exact .refl s
  · exact ((((((modifyObject_frame s _ rfl).trans (linkDec_frame _ l)).trans
      (check_frame _ _ _)).trans (objectMergeCollectors_frame _ _ _)).link.trans
      (modifyLink_frame _ l rfl rfl)).trans (check_frame _ _ _).link)

theorem phantomizeSnapshot_frame (obj : ℕ) (s : State) (l : ℕ) :
    LinkFrame s (phantomizeSnapshot obj s l) := by
  have hc := check_frame s ((s.objects obj).phantomized = true) (.assertFailed .phantomizeObject)
  unfold phantomizeSnapshot
  dsimp only
  split_ifs
  · exact hc.link
  · exact (((hc.trans (check_frame _ _ _)).trans (check_frame _ _ _)).link.trans
      (linkPhantomize_frame _ l))

/-- The parts of `object_rebuild_link`: the label and the counts, -/
def rebuildCount (s : State) (l : ℕ) : State :=
  let w := rebuildWhich s l
  let x := (s.links l).target
  ((s.modifyLink l fun lk => { lk with which := w }).modifyObject x fun o =>
    { o with count := Function.update o.count w (o.count w + 1) }).modifyObject x fun o =>
    { o with count2 := o.count2 - 1 }

/-- the collector pointer of a target without phantom references, -/
def rebuildCollector (s : State) (x : ℕ) : State :=
  if (s.objects x).count2 = 0 then objectSetCollector s x none else s

/-- and the addition of the target to the rebuild list. -/
def rebuildQueue (c : ℕ) (s : State) (x : ℕ) : State :=
  if (s.objects x).collector ≠ none then safelistAdd s (c, .rebuild) x else s

theorem objectRebuildLink_eq (c : ℕ) (s : State) (l : ℕ) :
    objectRebuildLink c s l =
      if (s.links l).phantomized then
        let x := (s.links l).target
        let s := (rebuildCollector (rebuildCount s l) x).modifyLink l fun lk =>
          { lk with phantomized := false }
        rebuildQueue c (s.check (0 ≤ (s.objects x).count2) (.assertFailed .rebuildCount)) x
      else s := rfl

theorem rebuildCount_frame (s : State) (l : ℕ) : LinkFrame s (rebuildCount s l) := by
  unfold rebuildCount
  dsimp only
  refine (modifyLink_frame s l ?_ ?_).trans (Frame.link (.trans (modifyObject_frame _ _ ?_)
    (modifyObject_frame _ _ ?_))) <;> rfl

theorem rebuildCollector_frame (s : State) (x : ℕ) : Frame s (rebuildCollector s x) := by
  unfold rebuildCollector
  split_ifs
  · exact objectSetCollector_frame s x none
  · exact .refl s

theorem rebuildQueue_frame (c : ℕ) (s : State) (x : ℕ) : Frame s (rebuildQueue c s x) := by
  unfold rebuildQueue
  split_ifs
  · exact safelistAdd_frame s _ x
  · exact .refl s

theorem objectRebuildLink_frame (c : ℕ) (s : State) (l : ℕ) :
    LinkFrame s (objectRebuildLink c s l) := by
  rw [objectRebuildLink_eq]
  split_ifs
  · have hmark := (rebuildCount_frame s l).trans (rebuildCollector_frame _ (s.links l).target).link
    have hclear := hmark.trans (modifyLink_frame _ l (f := fun lk =>
      { lk with phantomized := false }) rfl rfl)
    exact (hclear.trans (check_frame _ _ _).link).trans (rebuildQueue_frame c _ _).link
  · exact .refl s

/-- The snapshot of keys is looked up in an unchanged table, so each key finds its link. -/
theorem foldl_recoverKey {obj : ℕ} (c : ℕ) (es : List (ℕ × ℕ)) (s : State) (lk : Option ℕ)
    (hes : ∀ e ∈ es, e ∈ (s.objects obj).links.entries) :
    ((es.map Prod.fst).foldl (recoverKey obj c) (s, lk)).1 =
      (es.map Prod.snd).foldl (objectRebuildLink c) s := by
  induction es generalizing s lk with
  | nil => rfl
  | cons e es ih =>
    have hget := ((s.objects obj).links.get_eq_some e.1 e.2).mpr (hes e (List.mem_cons_self ..))
    have hstep : recoverKey obj c (s, lk) e.1 = (objectRebuildLink c s e.2, some e.2) := by
      simp [recoverKey, hget]
    simp only [List.map_cons, List.foldl_cons, hstep]
    apply ih
    intro e' he'
    rw [(objectRebuildLink_frame c s e.2).table]
    exact hes e' (List.mem_cons_of_mem _ he')

section
variable (s : State) (l k : ℕ)

theorem linkDestroy_links : (linkDestroy s l).links k =
    if k = l then { s.links l with freed := true } else s.links k := by
  have hf := (linkDec_frame s l).links
  change ((linkDec s l).modifyLink l fun lk => { lk with freed := true }).links k = _
  rw [State.modifyLink_links, hf]

theorem linkPhantomize_links : (linkPhantomize s l).links k =
    if k = l then { s.links l with phantomized := true } else s.links k := by
  unfold linkPhantomize
  dsimp only
  split_ifs with hp hk hk
  · rw [hk, ← hp]
  · rfl
  · rw [State.check_links, State.modifyLink_links, if_pos hk, (objectMergeCollectors_frame _ _ _).links,
      State.check_links, (linkDec_frame _ _).links]
    rfl
  · rw [State.check_links, State.modifyLink_links, if_neg hk, (objectMergeCollectors_frame _ _ _).links,
      State.check_links, (linkDec_frame _ _).links]
    rfl

theorem phantomizeSnapshot_links (obj : ℕ) : (phantomizeSnapshot obj s l).links k =
    if k = l then { s.links l with phantomized := true } else s.links k := by
  unfold phantomizeSnapshot
  dsimp only
  rw [State.check_links]
  by_cases hp : (s.links l).phantomized = true
  · rw [if_pos hp, State.check_links, ← hp]
    split_ifs with hk
    · rw [hk]
    · rfl
  · rw [if_neg hp, linkPhantomize_links]
    simp only [State.check_links]

theorem objectRebuildLink_links (c : ℕ) : (objectRebuildLink c s l).links k =
    if k = l ∧ (s.links l).phantomized = true then
      { s.links l with which := rebuildWhich s l, phantomized := false }
    else s.links k := by
  rw [objectRebuildLink_eq]
  dsimp only
  by_cases hp : (s.links l).phantomized = true
  · rw [if_pos hp, (rebuildQueue_frame c _ _).links, State.check_links, State.modifyLink_links,
      (rebuildCollector_frame _ _).links]
    by_cases hk : k = l
    · simp [hk, hp, rebuildCount, State.modifyObject, State.modifyLink]
    · simp [hk, rebuildCount, State.modifyObject, State.modifyLink]
  · simp [hp]

end

theorem foldl_phantomizeSnapshot_links (obj : ℕ) (ls : List ℕ) (s : State) (k : ℕ) :
    (ls.foldl (phantomizeSnapshot obj) s).links k =
      if k ∈ ls then { s.links k with phantomized := true } else s.links k := by
  induction ls generalizing s with
  | nil => rfl
  | cons l ls ih =>
    rw [List.foldl_cons, ih, phantomizeSnapshot_links]
    by_cases hk : k = l
    · subst k
      simp
    · simp [hk]

/-- Rebuilding decides the flag of each link of the list, and may relabel it. -/
theorem foldl_objectRebuildLink_links (c : ℕ) (ls : List ℕ) (s : State) (k : ℕ) :
    ((ls.foldl (objectRebuildLink c) s).links k).phantomized =
      (decide (k ∉ ls) && (s.links k).phantomized) ∧
    (k ∉ ls ∨ (s.links k).phantomized = false →
      (ls.foldl (objectRebuildLink c) s).links k = s.links k) := by
  induction ls generalizing s with
  | nil => simp
  | cons l ls ih =>
    obtain ⟨h1, h2⟩ := ih (objectRebuildLink c s l)
    have hl := objectRebuildLink_links s l k c
    rw [List.foldl_cons]
    by_cases hk : k = l
    · subst k
      by_cases hp : (s.links l).phantomized = true
      · rw [if_pos ⟨rfl, hp⟩] at hl
        rw [hl] at h1
        refine ⟨by simpa using h1, fun h3 => ?_⟩
        simp [hp] at h3
      · rw [if_neg (by simp [hp])] at hl
        rw [hl] at h1 h2
        have hp' : (s.links l).phantomized = false := by simpa using hp
        refine ⟨by simpa [hp'] using h1, fun _ => h2 (.inr hp')⟩
    · rw [if_neg (by simp [hk])] at hl
      rw [hl] at h1 h2
      refine ⟨by simpa [hk] using h1, fun h3 => h2 (h3.imp (fun h4 => ?_) id)⟩
      exact fun h5 => h4 (List.mem_cons_of_mem _ h5)

theorem rebuildWhich_congr {s s' : State} (h : LinkFrame s s') (k : ℕ) :
    rebuildWhich s' k = rebuildWhich s k := by
  unfold rebuildWhich
  simp only [h.target, h.src, h.which, h.phantomized, h.table]

/-- A phantomized link of the list gets the label of the state before the rebuilding. -/
theorem foldl_objectRebuildLink_label (c : ℕ) {ls : List ℕ} {s : State} {k : ℕ} (hk : k ∈ ls)
    (hp : (s.links k).phantomized = true) : (ls.foldl (objectRebuildLink c) s).links k =
      { s.links k with which := rebuildWhich s k, phantomized := false } := by
  induction ls generalizing s with
  | nil => cases hk
  | cons l ls ih =>
    have hl := objectRebuildLink_links s l k c
    rw [List.foldl_cons]
    by_cases hkl : k = l
    · subst k
      rw [if_pos ⟨rfl, hp⟩] at hl
      have hrest := (foldl_objectRebuildLink_links c ls (objectRebuildLink c s l) l).2
        (.inr (by rw [hl]))
      rw [hrest, hl]
    · rw [if_neg (by simp [hkl])] at hl
      rw [ih ((List.mem_cons.mp hk).resolve_left hkl) (by rw [hl]; exact hp), hl,
        rebuildWhich_congr (objectRebuildLink_frame c s l)]

end Acid

import Acid.Frame

set_option autoImplicit false

/-!
# `acid_set_field`: the link table mirrors the fields
-/
namespace Acid

/-- No table, target or source changes. -/
structure SameGraph (s s' : State) : Prop where
  table : ∀ o, (s'.objects o).links = (s.objects o).links
  magic : ∀ o, (s'.objects o).magic = (s.objects o).magic
  target : ∀ l, (s'.links l).target = (s.links l).target
  src : ∀ l, (s'.links l).src = (s.links l).src
  linkCount : s'.linkCount = s.linkCount
  objectCount : s'.objectCount = s.objectCount
  claims : s'.claims = s.claims

namespace SameGraph

theorem refl (s : State) : SameGraph s s :=
  ⟨fun _ => rfl, fun _ => rfl, fun _ => rfl, fun _ => rfl, rfl, rfl, rfl⟩

theorem trans {s s' s'' : State} (h : SameGraph s s') (h' : SameGraph s' s'') :
    SameGraph s s'' where
  table o := (h'.table o).trans (h.table o)
  magic o := (h'.magic o).trans (h.magic o)
  target l := (h'.target l).trans (h.target l)
  src l := (h'.src l).trans (h.src l)
  linkCount := h'.linkCount.trans h.linkCount
  objectCount := h'.objectCount.trans h.objectCount
  claims := h'.claims.trans h.claims

end SameGraph

theorem Frame.graph {s s' : State} (h : Frame s s') : SameGraph s s' where
  table := h.table
  magic o := show (s'.objects o).shape.magic = (s.objects o).shape.magic by rw [h.shape o]
  target l := by rw [h.links]
  src l := by rw [h.links]
  linkCount := h.linkCount
  objectCount := h.objectCount
  claims := h.claims

theorem modifyLink_graph (s : State) (l : ℕ) {f : Link → Link}
    (ht : (f (s.links l)).target = (s.links l).target)
    (hs : (f (s.links l)).src = (s.links l).src) : SameGraph s (s.modifyLink l f) := by
  refine { SameGraph.refl s with target := ?_, src := ?_ }
  · intro k
    rw [State.modifyLink_links]
    split_ifs with hk
    · rw [ht, hk]
    · rfl
  · intro k
    rw [State.modifyLink_links]
    split_ifs with hk
    · rw [hs, hk]
    · rfl

theorem modifyObject_graph (s : State) (o : ℕ) {f : Object → Object}
    (ht : (f (s.objects o)).links = (s.objects o).links)
    (hm : (f (s.objects o)).magic = (s.objects o).magic) : SameGraph s (s.modifyObject o f) := by
  refine { SameGraph.refl s with table := ?_, magic := ?_ }
  · intro x
    rw [State.modifyObject_objects]
    split_ifs with hx
    · rw [ht, hx]
    · rfl
  · intro x
    rw [State.modifyObject_objects]
    split_ifs with hx
    · rw [hm, hx]
    · rfl

theorem objectSetLabel_graph (s : State) (obj referent l : ℕ) :
    SameGraph s (objectSetLabel s obj referent l) := by
  unfold objectSetLabel
  split_ifs with hp
  · exact (((objectMergeCollectors_frame s obj referent).graph.trans
      (check_frame _ _ _).graph).trans (modifyObject_graph _ referent rfl rfl)).trans
      (modifyLink_graph _ l rfl rfl)
  · exact (modifyLink_graph s l rfl rfl).trans (modifyObject_graph _ referent rfl rfl)
  · exact (modifyLink_graph s l rfl rfl).trans (modifyObject_graph _ referent rfl rfl)
  · exact (modifyLink_graph s l rfl rfl).trans (modifyObject_graph _ referent rfl rfl)

/-- The heap with a new link in the table of `obj`, before its label and count. -/
def linkAdded (s : State) (obj fieldOffset referent : ℕ) : State :=
  (linkCreate s obj referent).1.modifyObject obj fun o =>
    { o with links := o.links.add fieldOffset s.linkCount }

/-- The three effects of `object_set` on the graph: clear, keep, link anew. -/
theorem objectSet_graph (s : State) (obj fieldOffset : ℕ) (referent : Option ℕ) :
    (referent = none ∧ SameGraph
      (s.modifyObject obj fun o => { o with links := o.links.remove fieldOffset })
      (objectSet s obj fieldOffset referent)) ∨
    (∃ l, (s.objects obj).links.get fieldOffset = some l ∧
      referent = some (s.links l).target ∧ objectSet s obj fieldOffset referent = s) ∨
    (∃ x, referent = some x ∧ SameGraph (linkAdded s obj fieldOffset x)
      (objectSet s obj fieldOffset referent)) := by
  have hset : ∀ x, SameGraph (linkAdded s obj fieldOffset x)
      (objectSetReferent s obj fieldOffset x) :=
    fun x => objectSetLabel_graph _ obj x s.linkCount
  cases referent with
  | none =>
    refine .inl ⟨rfl, ?_⟩
    unfold objectSet
    dsimp only
    split
    · exact (linkDec_frame _ _).graph
    · exact .refl _
  | some x =>
    unfold objectSet
    dsimp only
    cases hget : (s.objects obj).links.get fieldOffset with
    | none => exact .inr (.inr ⟨x, rfl, hset x⟩)
    | some l =>
      dsimp only
      split_ifs with ht
      · exact .inr (.inl ⟨l, rfl, by rw [ht], rfl⟩)
      · exact .inr (.inr ⟨x, rfl, (hset x).trans (linkDec_frame _ _).graph⟩)

/-- A C pointer: `NULL`, the data of a managed object, or some other address. -/
inductive Pointer where
  | null
  | managed (header : ℕ)
  | raw (address : ℕ)

/-- `acid_is_managed` reads the magic number in front of the data; `raw` is a pointer where
it finds another value. -/
def acidIsManaged (s : State) : Pointer → Bool
  | .null => false
  | .managed h => (s.objects h).magic = objectMagicNumber
  | .raw _ => false

/-- The heap and the field values that the program sees. -/
structure FieldState where
  heap : State
  fields : ℕ → ℕ → Pointer := fun _ _ => .null

/-- One `acid_set_field(var, field, value)`. -/
structure Use where
  var : ℕ
  field : ℕ
  value : Pointer

/-- The macro `acid_set_field`. -/
def acidSetField (st : FieldState) (u : Use) : FieldState where
  heap :=
    match u.value with
    | .null => objectSet st.heap u.var u.field none
    | .managed h =>
      if acidIsManaged st.heap u.value then objectSet st.heap u.var u.field (some h) else st.heap
    | .raw _ => st.heap
  fields := Function.update st.fields u.var
    (Function.update (st.fields u.var) u.field u.value)

/-- The header that `object_get` should find for a field of this value. -/
def Pointer.header : Pointer → Option ℕ
  | .managed h => some h
  | _ => none

/-- `object_get` agrees with every field, and the tables have no other entries. -/
def Mirrors (st : FieldState) : Prop :=
  (∀ o f, objectGet st.heap o f = (st.fields o f).header) ∧
  ∀ o f l, (f, l) ∈ (st.heap.objects o).links.entries →
    st.fields o f = .managed (st.heap.links l).target

/-- Managed objects before any field is assigned. -/
def Unassigned (st : FieldState) : Prop :=
  ∀ o, (st.heap.objects o).links.entries = [] ∧ (st.heap.objects o).magic = objectMagicNumber ∧
    ∀ f, st.fields o f = .null

/-- A managed value is not overwritten with a pointer that the macro passes by. -/
def Clears (st : FieldState) (u : Use) : Prop :=
  ¬ ((∃ p, u.value = .raw p) ∧ ∃ h, st.fields u.var u.field = .managed h)

/-- The tables follow the fields, whose links have been created and whose magic is intact. -/
structure Mirrored (st : FieldState) : Prop where
  entry : ∀ o f l, (f, l) ∈ (st.heap.objects o).links.entries →
    l < st.heap.linkCount ∧ st.fields o f = .managed (st.heap.links l).target
  field : ∀ o f h, st.fields o f = .managed h →
    ∃ l, (f, l) ∈ (st.heap.objects o).links.entries
  magic : ∀ o, (st.heap.objects o).magic = objectMagicNumber

theorem Mirrored.mirrors {st : FieldState} (h : Mirrored st) : Mirrors st := by
  refine ⟨?_, fun o f l hl => (h.entry o f l hl).2⟩
  intro o f
  unfold objectGet
  cases hget : (st.heap.objects o).links.get f with
  | none =>
    have hno := ((st.heap.objects o).links.get_eq_none f).mp hget
    cases hf : st.fields o f with
    | null => rfl
    | raw p => rfl
    | managed x =>
      obtain ⟨l, hl⟩ := h.field o f x hf
      exact absurd hl (hno l)
  | some l =>
    have hl := ((st.heap.objects o).links.get_eq_some f l).mp hget
    rw [(h.entry o f l hl).2]
    rfl

/-- The fields of other objects and at other offsets keep their values. -/
theorem acidSetField_fields (st : FieldState) (u : Use) (o f : ℕ) :
    (acidSetField st u).fields o f =
      if o = u.var ∧ f = u.field then u.value else st.fields o f := by
  unfold acidSetField
  dsimp only
  by_cases ho : o = u.var
  · subst ho
    by_cases hf : f = u.field
    · simp [hf]
    · simp [hf]
  · simp [ho]

/-- Clearing a field, or never having filled it, leaves the other entries. -/
theorem Mirrored.cleared {st : FieldState} (h : Mirrored st) {u : Use}
    (hv : ∀ x, u.value ≠ .managed x) {s' : State}
    (hg : SameGraph (st.heap.modifyObject u.var fun o =>
      { o with links := o.links.remove u.field }) s')
    (hheap : (acidSetField st u).heap = s') : Mirrored (acidSetField st u) := by
  have hent : ∀ o f l, (f, l) ∈ (s'.objects o).links.entries ↔
      (f, l) ∈ (st.heap.objects o).links.entries ∧ ¬ (o = u.var ∧ f = u.field) := by
    intro o f l
    rw [hg.table, State.modifyObject_objects]
    split_ifs with ho
    · subst ho
      rw [HashTable.mem_remove]
      simp
    · simp [ho]
  refine ⟨?_, ?_, ?_⟩
  · intro o f l hl
    rw [hheap, hent] at hl
    rw [hheap, hg.linkCount, hg.target, acidSetField_fields, if_neg hl.2]
    exact h.entry o f l hl.1
  · intro o f x hf
    rw [acidSetField_fields] at hf
    split_ifs at hf with hof
    · exact absurd hf (hv x)
    · obtain ⟨l, hl⟩ := h.field o f x hf
      exact ⟨l, by rw [hheap, hent]; exact ⟨hl, hof⟩⟩
  · intro o
    rw [hheap, hg.magic, State.modifyObject_objects]
    split_ifs with ho
    · exact ho ▸ h.magic u.var
    · exact h.magic o

theorem Mirrored.kept {st : FieldState} (h : Mirrored st) {u : Use}
    (hheap : (acidSetField st u).heap = st.heap)
    (hsame : (∃ x, u.value = .managed x ∧ st.fields u.var u.field = .managed x) ∨
      ((∃ p, u.value = .raw p) ∧ ∀ x, st.fields u.var u.field ≠ .managed x)) :
    Mirrored (acidSetField st u) := by
  refine ⟨?_, ?_, ?_⟩
  · intro o f l hl
    rw [hheap] at hl
    rw [hheap, acidSetField_fields]
    obtain ⟨h1, h2⟩ := h.entry o f l hl
    refine ⟨h1, ?_⟩
    split_ifs with hof
    · obtain ⟨rfl, rfl⟩ := hof
      rcases hsame with ⟨x, hx, hf⟩ | ⟨_, hno⟩
      · rw [hx, ← h2, hf]
      · exact absurd h2 (hno _)
    · exact h2
  · intro o f x hf
    rw [acidSetField_fields] at hf
    rw [hheap]
    split_ifs at hf with hof
    · obtain ⟨rfl, rfl⟩ := hof
      rcases hsame with ⟨y, _, hf'⟩ | ⟨⟨p, hp⟩, _⟩
      · exact h.field _ _ y hf'
      · rw [hp] at hf
        cases hf
    · exact h.field o f x hf
  · intro o
    rw [hheap]
    exact h.magic o

theorem Mirrored.linked {st : FieldState} (h : Mirrored st) {u : Use} {x : ℕ}
    (hv : u.value = .managed x) {s' : State}
    (hg : SameGraph (linkAdded st.heap u.var u.field x) s')
    (hheap : (acidSetField st u).heap = s') : Mirrored (acidSetField st u) := by
  have hobj : ∀ o, ((linkAdded st.heap u.var u.field x).objects o).links = if o = u.var then
      (st.heap.objects u.var).links.add u.field st.heap.linkCount
      else (st.heap.objects o).links := by
    intro o
    rw [linkAdded, State.modifyObject_objects]
    split_ifs <;> rfl
  have htar : ∀ l, ((linkAdded st.heap u.var u.field x).links l).target =
      if l = st.heap.linkCount then x else (st.heap.links l).target := by
    intro l
    by_cases hl : l = st.heap.linkCount <;> simp [linkAdded, linkCreate, State.modifyObject, hl]
  have hcount : (linkAdded st.heap u.var u.field x).linkCount = st.heap.linkCount + 1 := rfl
  have hent : ∀ o f l, (f, l) ∈ (s'.objects o).links.entries ↔
      (o = u.var ∧ f = u.field ∧ l = st.heap.linkCount) ∨
      ((f, l) ∈ (st.heap.objects o).links.entries ∧ ¬ (o = u.var ∧ f = u.field)) := by
    intro o f l
    rw [hg.table, hobj]
    split_ifs with ho
    · subst ho
      rw [HashTable.mem_add]
      simp
    · simp [ho]
  refine ⟨?_, ?_, ?_⟩
  · intro o f l hl
    rw [hheap, hent] at hl
    rw [hheap, hg.linkCount, hg.target, acidSetField_fields, hcount, htar]
    rcases hl with ⟨ho, hf, hl⟩ | ⟨hl, hof⟩
    · rw [if_pos ⟨ho, hf⟩, if_pos hl, hv, hl]
      exact ⟨Nat.lt_succ_self _, rfl⟩
    · obtain ⟨h1, h2⟩ := h.entry o f l hl
      rw [if_neg hof, if_neg (Nat.ne_of_lt h1), h2]
      exact ⟨Nat.lt_succ_of_lt h1, rfl⟩
  · intro o f y hf
    rw [acidSetField_fields] at hf
    rw [hheap]
    split_ifs at hf with hof
    · exact ⟨st.heap.linkCount, (hent o f _).mpr (.inl ⟨hof.1, hof.2, rfl⟩)⟩
    · obtain ⟨l, hl⟩ := h.field o f y hf
      exact ⟨l, (hent o f l).mpr (.inr ⟨hl, hof⟩)⟩
  · intro o
    rw [hheap, hg.magic, linkAdded, State.modifyObject_objects]
    split_ifs with ho
    · exact ho ▸ h.magic u.var
    · exact h.magic o

/-- One use of the macro. -/
theorem Mirrored.step {st : FieldState} (h : Mirrored st) {u : Use} (hc : Clears st u) :
    Mirrored (acidSetField st u) := by
  cases hv : u.value with
  | null =>
    have hheap : (acidSetField st u).heap = objectSet st.heap u.var u.field none := by
      simp [acidSetField, hv]
    rcases objectSet_graph st.heap u.var u.field none with ⟨_, hg⟩ | ⟨l, _, hl, _⟩ | ⟨x, hx, _⟩
    · exact h.cleared (by simp [hv]) hg hheap
    · cases hl
    · cases hx
  | raw p =>
    refine h.kept (by simp [acidSetField, hv]) (.inr ⟨⟨p, hv⟩, ?_⟩)
    intro x hx
    exact hc ⟨⟨p, hv⟩, x, hx⟩
  | managed x =>
    have hheap : (acidSetField st u).heap = objectSet st.heap u.var u.field (some x) := by
      simp [acidSetField, hv, acidIsManaged, h.magic x]
    rcases objectSet_graph st.heap u.var u.field (some x) with ⟨hn, _⟩ | ⟨l, hget, hl, hs⟩ |
      ⟨y, hy, hg⟩
    · cases hn
    · have hent := ((st.heap.objects u.var).links.get_eq_some u.field l).mp hget
      refine h.kept (hheap.trans hs) (.inl ⟨x, hv, ?_⟩)
      rw [(h.entry _ _ _ hent).2, ← Option.some.inj hl]
    · cases hy
      exact h.linked hv hg hheap

/-- The state after a sequence of uses. -/
def runUses (st : FieldState) (uses : List Use) : FieldState := uses.foldl acidSetField st

theorem runUses_mirrored {st : FieldState} (h : Mirrored st) (uses : List Use)
    (hc : ∀ us u us', uses = us ++ u :: us' → Clears (runUses st us) u) :
    Mirrored (runUses st uses) := by
  induction uses using List.reverseRecOn with
  | nil => exact h
  | append_singleton us u ih =>
    have hus : Mirrored (runUses st us) := by
      refine ih fun vs v vs' hv => hc vs v (vs' ++ [u]) ?_
      rw [hv]
      simp
    have hstep : runUses st (us ++ [u]) = acidSetField (runUses st us) u := by
      simp [runUses, List.foldl_append]
    rw [hstep]
    exact hus.step (hc us u [] rfl)

theorem Unassigned.mirrored {st : FieldState} (h : Unassigned st) : Mirrored st := by
  refine ⟨?_, ?_, fun o => (h o).2.1⟩
  · intro o f l hl
    rw [(h o).1] at hl
    cases hl
  · intro o f x hf
    rw [(h o).2.2] at hf
    cases hf

/-- The tables mirror the fields after each use exactly when no use overwrites a managed
value with a pointer that `acid_is_managed` rejects. -/
theorem runUses_mirrors_iff {st : FieldState} (h : Unassigned st) (uses : List Use) :
    (∀ us us', uses = us ++ us' → Mirrors (runUses st us)) ↔
      ∀ us u us', uses = us ++ u :: us' → Clears (runUses st us) u := by
  constructor
  · intro hm us u us' huses
    rintro ⟨⟨p, hp⟩, x, hx⟩
    have hstep : runUses st (us ++ [u]) = acidSetField (runUses st us) u := by
      simp [runUses, List.foldl_append]
    have hbefore := (hm us (u :: us') huses).1 u.var u.field
    have hafter := (hm (us ++ [u]) us' (by rw [huses]; simp)).1 u.var u.field
    have hheap : (acidSetField (runUses st us) u).heap = (runUses st us).heap := by
      simp [acidSetField, hp]
    rw [hstep, acidSetField_fields, if_pos ⟨rfl, rfl⟩, hheap, hbefore, hx, hp] at hafter
    cases hafter
  · intro hc us us' huses
    refine (runUses_mirrored h.mirrored us fun vs v vs' hv => hc vs v (vs' ++ us') ?_).mirrors
    rw [huses, hv]
    simp

/-- Two new objects, numbered 0 and 1. -/
def twoObjects : FieldState := { heap := (objectInitStrong (objectInitStrong {}).1).1 }

theorem unassigned_twoObjects : Unassigned twoObjects := by
  intro o
  have ho : ((twoObjects.heap).objects o).links = .new ∧
      ((twoObjects.heap).objects o).magic = objectMagicNumber := by
    by_cases h1 : o = 1
    · subst h1
      exact ⟨rfl, rfl⟩
    · by_cases h0 : o = 0
      · subst h0
        exact ⟨rfl, rfl⟩
      · simp [twoObjects, objectInitStrong, objectInit, objectIncStrong, State.modifyObject, h0, h1]
  exact ⟨by rw [ho.1, HashTable.entries_new], ho.2, fun _ => rfl⟩

/-- A field at offset 0 that refers to its own object, then cleared. -/
theorem runUses_mirrors_self :
    Mirrors (runUses twoObjects [⟨0, 0, .managed 0⟩, ⟨0, 0, .null⟩]) := by
  refine (runUses_mirrors_iff unassigned_twoObjects [⟨0, 0, .managed 0⟩, ⟨0, 0, .null⟩]).mpr ?_ _
    [] (List.append_nil _).symm
  intro us u us' huses
  rintro ⟨⟨p, hp⟩, _⟩
  have hu : u ∈ [(⟨0, 0, .managed 0⟩ : Use), ⟨0, 0, .null⟩] := by
    rw [huses]
    simp
  rcases List.mem_cons.mp hu with rfl | hu
  · cases hp
  · rw [List.mem_singleton.mp hu] at hp
    cases hp

/-- The old link stays when a string, say, is stored over a managed value. -/
theorem runUses_not_mirrors : ¬ ∀ st, Unassigned st → ∀ uses : List Use,
    Mirrors (runUses st uses) := by
  intro h
  have hm := (h twoObjects unassigned_twoObjects [⟨0, 8, .managed 1⟩, ⟨0, 8, .raw 5⟩]).1 0 8
  have hget : objectGet (runUses twoObjects [⟨0, 8, .managed 1⟩, ⟨0, 8, .raw 5⟩]).heap 0 8 =
      some 1 := by decide
  rw [hget] at hm
  cases hm

end Acid

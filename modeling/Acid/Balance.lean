import Acid.CollectorForest
import Acid.Layout
import Mathlib.Tactic.Linarith

set_option autoImplicit false

/-!
# The references behind each count

A ledger lists what holds references in the middle of a step: the links that
still count, and the references in hand that no link or list accounts for.
-/
namespace Acid
open PointerForest Tally

/-- `curated` holds the phantom reference of an object that collector `c` has polled, and
`deleting` the object of the delete task that runs; `kept` are objects that must not lose
their collector, and `settled` those whose counts are between operations; a `strict` ledger
asks more of these. From the layout `before` objects have only been added or merged. -/
structure Ledger where
  refs : Finset ℕ := ∅
  strong : List (ℕ × Bool) := []
  curated : List (ℕ × ℕ) := []
  phantom : List ℕ := []
  deleting : List ℕ := []
  kept : Set ℕ := ∅
  settled : Set ℕ := ∅
  strict : Prop := False
  before : Option Layout := none

/-- The occurrences of `x` in the lists of name `n` of all collectors. -/
def occurrences (s : State) (n : ListName) (x : ℕ) : ℤ :=
  ∑ c ∈ Finset.range s.numCollector, (((s.collectors c).lists n).data.count x : ℤ)

/-- The occurrences in the four lists whose elements hold a phantom count. -/
def curation (s : State) (x : ℕ) : ℤ :=
  occurrences s .collect x + occurrences s .merged x + occurrences s .recovery x +
    occurrences s .clean x

def strongRefs (s : State) (R : Finset ℕ) (x : ℕ) (b : Bool) : ℤ :=
  tally R fun l => (s.links l).target = x ∧ (s.links l).phantomized = false ∧
    (s.links l).which = b

def phantomRefs (s : State) (R : Finset ℕ) (x : ℕ) : ℤ :=
  tally R fun l => (s.links l).target = x ∧ (s.links l).phantomized = true

/-- External claims and collect lists count on the `which` side. -/
def sideRefs (s : State) (x : ℕ) (b : Bool) : ℤ :=
  if b = (s.objects x).which then s.claims x + occurrences s .collect x else 0

structure Balance (s : State) (L : Ledger) : Prop where
  count : ∀ x b, (s.objects x).count b =
    strongRefs s L.refs x b + sideRefs s x b + L.strong.count (x, b)
  count2 : ∀ x, (s.objects x).count2 =
    phantomRefs s L.refs x + curation s x + (L.curated.map Prod.fst).count x + L.phantom.count x

theorem occurrences_nonneg (s : State) (n : ListName) (x : ℕ) : 0 ≤ occurrences s n x :=
  Finset.sum_nonneg fun _ _ => Int.natCast_nonneg _

theorem occurrences_pos {s : State} {c : ℕ} (hc : c < s.numCollector) {n : ListName} {x : ℕ}
    (hx : x ∈ (s.safelist (c, n)).data) : 0 < occurrences s n x := by
  have hone : 0 < (((s.collectors c).lists n).data.count x : ℤ) := by
    exact_mod_cast List.count_pos_iff.mpr hx
  have hle := Finset.single_le_sum
    (f := fun d => (((s.collectors d).lists n).data.count x : ℤ))
    (fun _ _ => Int.natCast_nonneg _) (Finset.mem_range.mpr hc)
  exact hone.trans_le hle

theorem exists_mem_of_occurrences {s : State} {n : ListName} {x : ℕ}
    (h : 0 < occurrences s n x) : ∃ c < s.numCollector, x ∈ (s.safelist (c, n)).data := by
  obtain ⟨c, hc, hp⟩ := Finset.exists_lt_of_sum_lt
    (s := Finset.range s.numCollector) (f := fun _ => (0 : ℤ))
    (g := fun c => (((s.collectors c).lists n).data.count x : ℤ))
    (by rw [Finset.sum_const_zero]; exact h)
  exact ⟨c, Finset.mem_range.mp hc, List.count_pos_iff.mp (by exact_mod_cast hp)⟩

theorem curation_nonneg (s : State) (x : ℕ) : 0 ≤ curation s x := by
  have h1 := occurrences_nonneg s .collect x
  have h2 := occurrences_nonneg s .merged x
  have h3 := occurrences_nonneg s .recovery x
  have h4 := occurrences_nonneg s .clean x
  unfold curation
  omega

theorem curation_pos {s : State} {r : ListRef} (hr : r.1 < s.numCollector)
    (hn : r.2 ≠ .rebuild) {x : ℕ} (hx : x ∈ (s.safelist r).data) : 0 < curation s x := by
  obtain ⟨c, n⟩ := r
  have hp := occurrences_pos hr hx
  have h1 := occurrences_nonneg s .collect x
  have h2 := occurrences_nonneg s .merged x
  have h3 := occurrences_nonneg s .recovery x
  have h4 := occurrences_nonneg s .clean x
  unfold curation
  cases n
  · omega
  · omega
  · omega
  · exact absurd rfl hn
  · omega

theorem sideRefs_nonneg (s : State) (x : ℕ) (b : Bool) : 0 ≤ sideRefs s x b := by
  have h := occurrences_nonneg s .collect x
  unfold sideRefs
  split_ifs <;> omega

theorem strongRefs_pos {s : State} {R : Finset ℕ} {l : ℕ} (hl : l ∈ R)
    (hp : (s.links l).phantomized = false) :
    0 < strongRefs s R (s.links l).target (s.links l).which :=
  tally_pos hl ⟨rfl, hp, rfl⟩

theorem phantomRefs_pos {s : State} {R : Finset ℕ} {l : ℕ} (hl : l ∈ R)
    (hp : (s.links l).phantomized = true) : 0 < phantomRefs s R (s.links l).target :=
  tally_pos hl ⟨rfl, hp⟩

theorem occurrences_congr {s s' : State} (hn : s'.numCollector = s.numCollector)
    (h : ∀ r, (s'.safelist r).data = (s.safelist r).data) (n : ListName) (x : ℕ) :
    occurrences s' n x = occurrences s n x := by
  unfold occurrences
  rw [hn]
  refine Finset.sum_congr rfl fun c _ => ?_
  have hd := h (c, n)
  unfold State.safelist at hd
  rw [hd]

/-- New data for one list. -/
theorem occurrences_setData (s : State) {c : ℕ} (hc : c < s.numCollector) (n m : ListName)
    (data : List ℕ) (x : ℕ) :
    occurrences (s.modifyCollector c fun k => k.setData n data) m x = occurrences s m x +
      if m = n then (data.count x : ℤ) - (s.safelist (c, n)).data.count x else 0 := by
  have hch := sum_change (S := Finset.range s.numCollector) (Finset.mem_range.mpr hc)
    (f := fun d => (((s.collectors d).lists m).data.count x : ℤ))
    (g := fun d => ((((s.modifyCollector c fun k => k.setData n data).collectors d).lists
      m).data.count x : ℤ))
    (by intro d hd; simp [State.modifyCollector, hd])
  unfold occurrences
  refine hch.trans ?_
  by_cases hm : m = n
  · subst m
    simp [State.modifyCollector, Collector.setData, State.safelist]
    ring
  · simp [State.modifyCollector, Collector.setData, hm]

theorem occurrences_push (s : State) {r : ListRef} (hr : r.1 < s.numCollector) (m : ListName)
    (o x : ℕ) :
    occurrences (safelistPush s r o) m x =
      occurrences s m x + if m = r.2 ∧ o = x then 1 else 0 := by
  have hpush : safelistPush s r o =
      s.modifyCollector r.1 fun k => k.setData r.2 ((s.safelist r).data ++ [o]) := by
    rw [safelistPush_eq]
    simp [State.modifyCollector, State.safelist]
  rw [hpush, occurrences_setData s hr]
  by_cases hm : m = r.2
  · by_cases ho : o = x <;> simp [hm, ho, List.count_append]
  · simp [hm]

theorem occurrences_create (s : State) (n : ListName) (x : ℕ) :
    occurrences (collectorCreate s).1 n x = occurrences s n x := by
  have hs := Finset.sum_range_succ
    (fun c => ((((collectorCreate s).1.collectors c).lists n).data.count x : ℤ)) s.numCollector
  unfold occurrences
  refine hs.trans ?_
  have hnew : (((collectorCreate s).1.collectors s.numCollector).lists n).data = [] := by
    simp [collectorCreate]
  rw [hnew]
  simp only [List.count_nil, Nat.cast_zero, add_zero]
  refine Finset.sum_congr rfl fun c hc => ?_
  have hne : c ≠ s.numCollector := Nat.ne_of_lt (Finset.mem_range.mp hc)
  simp [collectorCreate, hne]

section
variable {s : State} (h : Collectors s) {t c : ℕ} (ht : s.forward t = none)
  (hc : s.forward c = none) (hne : c ≠ t) (hat : Alive s t) (hac : Alive s c)
include h ht hc hne hat hac

/-- A merge moves what the forwarded collector holds. -/
theorem Collectors.occurrences_merge (n : ListName) (x : ℕ) :
    occurrences (collectorMerge s t c) n x = occurrences s n x +
      ((((s.collectors t).gained (s.collectors c)).lists n).data.count x : ℤ) -
      ((s.collectors t).lists n).data.count x - ((s.collectors c).lists n).data.count x := by
  have hcol : ∀ d, (collectorMerge s t c).collectors d =
      Function.update (Function.update s.collectors c ((s.collectors c).ceded t)) t
        ((s.collectors t).gained (s.collectors c)) d := by
    intro d
    rw [h.merge_eq ht hc hne]
    simp [State.putCollectors, State.modifyCollector]
  have hn : (collectorMerge s t c).numCollector = s.numCollector := by
    rw [h.merge_eq ht hc hne]
    rfl
  have h1 := sum_change (S := Finset.range s.numCollector) (Finset.mem_range.mpr hac.1)
    (f := fun d => (((s.collectors d).lists n).data.count x : ℤ))
    (g := fun d => (((Function.update s.collectors c ((s.collectors c).ceded t) d).lists
      n).data.count x : ℤ))
    (by intro d hd; simp [hd])
  have h2 := sum_change (S := Finset.range s.numCollector) (Finset.mem_range.mpr hat.1)
    (f := fun d => (((Function.update s.collectors c ((s.collectors c).ceded t) d).lists
      n).data.count x : ℤ))
    (g := fun d => (((Function.update (Function.update s.collectors c
      ((s.collectors c).ceded t)) t ((s.collectors t).gained (s.collectors c)) d).lists
      n).data.count x : ℤ))
    (by intro d hd; simp [hd])
  unfold occurrences
  rw [hn]
  simp only [hcol]
  refine h2.trans ?_
  rw [h1]
  simp [Function.update_of_ne (Ne.symm hne), Collector.ceded]
  ring

theorem Collectors.occurrences_merge_collect (x : ℕ) :
    occurrences (collectorMerge s t c) .collect x = occurrences s .collect x := by
  rw [h.occurrences_merge ht hc hne hat hac]
  simp only [Collector.gained, List.count_append]
  push_cast
  ring

theorem Collectors.curation_merge (x : ℕ) :
    curation (collectorMerge s t c) x = curation s x := by
  unfold curation
  simp only [h.occurrences_merge ht hc hne hat hac]
  simp only [Collector.gained, List.count_append]
  push_cast
  ring

end

namespace Balance
variable {s : State} {L : Ledger}

theorem count_nonneg (h : Balance s L) (x : ℕ) (b : Bool) : 0 ≤ (s.objects x).count b := by
  have h1 : 0 ≤ strongRefs s L.refs x b := tally_nonneg _ _
  have h2 := sideRefs_nonneg s x b
  rw [h.count]
  omega

theorem count2_nonneg (h : Balance s L) (x : ℕ) : 0 ≤ (s.objects x).count2 := by
  have h1 : 0 ≤ phantomRefs s L.refs x := tally_nonneg _ _
  have h2 := curation_nonneg s x
  rw [h.count2]
  omega

theorem count_pos_of_link (h : Balance s L) {l : ℕ} (hl : l ∈ L.refs)
    (hp : (s.links l).phantomized = false) :
    0 < (s.objects (s.links l).target).count (s.links l).which := by
  have h1 := strongRefs_pos hl hp
  have h2 := sideRefs_nonneg s (s.links l).target (s.links l).which
  rw [h.count]
  omega

theorem count2_pos_of_link (h : Balance s L) {l : ℕ} (hl : l ∈ L.refs)
    (hp : (s.links l).phantomized = true) : 0 < (s.objects (s.links l).target).count2 := by
  have h1 := phantomRefs_pos hl hp
  have h2 := curation_nonneg s (s.links l).target
  rw [h.count2]
  omega

theorem count2_pos_of_curated (h : Balance s L) {x c : ℕ} (hx : (x, c) ∈ L.curated) :
    0 < (s.objects x).count2 := by
  have h1 : 0 ≤ phantomRefs s L.refs x := tally_nonneg _ _
  have h2 := curation_nonneg s x
  have h3 : 0 < (L.curated.map Prod.fst).count x :=
    List.count_pos_iff.mpr (List.mem_map.mpr ⟨(x, c), hx, rfl⟩)
  rw [h.count2]
  omega

theorem count_pos_of_claim (h : Balance s L) {x : ℕ} (hx : 0 < s.claims x) :
    0 < (s.objects x).count (s.objects x).which := by
  have h1 : 0 ≤ strongRefs s L.refs x (s.objects x).which := tally_nonneg _ _
  have h2 := occurrences_nonneg s .collect x
  rw [h.count, sideRefs, if_pos rfl]
  omega

theorem count_pos_of_hand {x : ℕ} {b : Bool}
    (h : Balance s { L with strong := (x, b) :: L.strong }) : 0 < (s.objects x).count b := by
  have h1 : 0 ≤ strongRefs s L.refs x b := tally_nonneg _ _
  have h2 := sideRefs_nonneg s x b
  rw [h.count]
  simp only [List.count_cons_self]
  push_cast
  omega

theorem count2_pos_of_hand {x : ℕ} (h : Balance s { L with phantom := x :: L.phantom }) :
    0 < (s.objects x).count2 := by
  have h1 : 0 ≤ phantomRefs s L.refs x := tally_nonneg _ _
  have h2 := curation_nonneg s x
  rw [h.count2]
  simp only [List.count_cons_self]
  push_cast
  omega

/-- What is kept and what is settled weighs nothing. -/
theorem ledger (h : Balance s L) (K S : Set ℕ) :
    Balance s { L with kept := K, settled := S } :=
  ⟨h.count, h.count2⟩

/-- What is behind a count may change its kind, as long as the links stay as they are. -/
theorem transfer {s' : State} {L' : Ledger} (h : Balance s L) (hrefs : L'.refs = L.refs)
    (hlinks : ∀ l ∈ L.refs, (s'.links l).target = (s.links l).target ∧
      (s'.links l).phantomized = (s.links l).phantomized ∧
      (s'.links l).which = (s.links l).which)
    (hcount : ∀ x b, (s'.objects x).count b - sideRefs s' x b - L'.strong.count (x, b) =
      (s.objects x).count b - sideRefs s x b - L.strong.count (x, b))
    (hcount2 : ∀ x, (s'.objects x).count2 - curation s' x - (L'.curated.map Prod.fst).count x -
        L'.phantom.count x =
      (s.objects x).count2 - curation s x - (L.curated.map Prod.fst).count x -
        L.phantom.count x) : Balance s' L' := by
  constructor
  · intro x b
    have hl : strongRefs s' L'.refs x b = strongRefs s L.refs x b := by
      rw [hrefs]
      apply tally_congr
      intro l hl
      obtain ⟨h1, h2, h3⟩ := hlinks l hl
      rw [h1, h2, h3]
    have hx := h.count x b
    have hy := hcount x b
    omega
  · intro x
    have hl : phantomRefs s' L'.refs x = phantomRefs s L.refs x := by
      rw [hrefs]
      apply tally_congr
      intro l hl
      obtain ⟨h1, h2, _⟩ := hlinks l hl
      rw [h1, h2]
    have hx := h.count2 x
    have hy := hcount2 x
    omega

/-- Only the fields named here matter. -/
theorem congr {s' : State} (h : Balance s L)
    (hcount : ∀ x, (s'.objects x).count = (s.objects x).count)
    (hcount2 : ∀ x, (s'.objects x).count2 = (s.objects x).count2)
    (hwhich : ∀ x, (s'.objects x).which = (s.objects x).which)
    (hlinks : ∀ l ∈ L.refs, (s'.links l).target = (s.links l).target ∧
      (s'.links l).phantomized = (s.links l).phantomized ∧
      (s'.links l).which = (s.links l).which)
    (hclaims : s'.claims = s.claims)
    (hcollect : ∀ x, occurrences s' .collect x = occurrences s .collect x)
    (hcuration : ∀ x, curation s' x = curation s x) : Balance s' L := by
  refine h.transfer rfl hlinks ?_ ?_
  · intro x b
    rw [hcount, sideRefs, sideRefs, hwhich, hclaims, hcollect]
  · intro x
    rw [hcount2, hcuration]

section
variable (x : ℕ) (b : Bool)

theorem recount {f : Object → Object} {L' : Ledger} (h : Balance s L) (hrefs : L'.refs = L.refs)
    (hwhich : (f (s.objects x)).which = (s.objects x).which)
    (hcount : ∀ y b, (if y = x then (f (s.objects x)).count b else (s.objects y).count b) -
        L'.strong.count (y, b) = (s.objects y).count b - L.strong.count (y, b))
    (hcount2 : ∀ y, (if y = x then (f (s.objects x)).count2 else (s.objects y).count2) -
        (L'.curated.map Prod.fst).count y - L'.phantom.count y =
      (s.objects y).count2 - (L.curated.map Prod.fst).count y - L.phantom.count y) :
    Balance (s.modifyObject x f) L' := by
  have hobj : ∀ y, (s.modifyObject x f).objects y =
      if y = x then f (s.objects x) else s.objects y := fun y => s.modifyObject_objects x y f
  refine h.transfer hrefs (fun _ _ => ⟨rfl, rfl, rfl⟩) ?_ ?_
  · intro y a
    have hside : sideRefs (s.modifyObject x f) y a = sideRefs s y a := by
      have hw : ((s.modifyObject x f).objects y).which = (s.objects y).which := by
        rw [hobj]
        split_ifs with hy
        · rw [hwhich, hy]
        · rfl
      unfold sideRefs
      rw [hw]
      rfl
    have hc := hcount y a
    rw [hside, hobj]
    split_ifs at hc ⊢ <;> omega
  · intro y
    have hcur : curation (s.modifyObject x f) y = curation s y := rfl
    have hc := hcount2 y
    rw [hcur, hobj]
    split_ifs at hc ⊢ <;> omega

theorem giveStrong (h : Balance s L) :
    Balance (s.modifyObject x fun o => { o with count := Function.update o.count b (o.count b + 1) })
      { L with strong := (x, b) :: L.strong } := by
  refine h.recount x rfl rfl ?_ ?_
  · intro y a
    by_cases hy : y = x
    · subst y
      by_cases ha : a = b
      · subst a
        simp
      · simp [ha, Ne.symm ha]
    · simp [hy, Ne.symm hy]
  · intro y
    by_cases hy : y = x <;> simp [hy]

theorem takeStrong (h : Balance s { L with strong := (x, b) :: L.strong }) :
    Balance (s.modifyObject x fun o => { o with count := Function.update o.count b (o.count b - 1) })
      L := by
  refine h.recount x rfl rfl ?_ ?_
  · intro y a
    by_cases hy : y = x
    · subst y
      by_cases ha : a = b
      · subst a
        simp
        ring
      · simp [ha, Ne.symm ha]
    · simp [hy, Ne.symm hy]
  · intro y
    by_cases hy : y = x <;> simp [hy]

theorem givePhantom (h : Balance s L) :
    Balance (s.modifyObject x fun o => { o with count2 := o.count2 + 1 })
      { L with phantom := x :: L.phantom } := by
  refine h.recount x rfl rfl ?_ ?_
  · intro y a
    by_cases hy : y = x <;> simp [hy]
  · intro y
    by_cases hy : y = x
    · subst y
      simp
      ring
    · simp [hy, Ne.symm hy]

theorem takePhantom (h : Balance s { L with phantom := x :: L.phantom }) :
    Balance (s.modifyObject x fun o => { o with count2 := o.count2 - 1 }) L := by
  refine h.recount x rfl rfl ?_ ?_
  · intro y a
    by_cases hy : y = x <;> simp [hy]
  · intro y
    by_cases hy : y = x
    · subst y
      simp
      ring
    · simp [hy, Ne.symm hy]

end

/-- A link that stops counting leaves its reference in hand. -/
theorem release (h : Balance s L) {l : ℕ} (hl : l ∈ L.refs) :
    Balance s { L with
      refs := L.refs.erase l
      strong := if (s.links l).phantomized then L.strong
        else ((s.links l).target, (s.links l).which) :: L.strong
      phantom := if (s.links l).phantomized then (s.links l).target :: L.phantom
        else L.phantom } := by
  constructor
  · intro x b
    have hx := h.count x b
    have he : strongRefs s (L.refs.erase l) x b = _ := tally_erase hl _
    rw [he]
    cases hp : (s.links l).phantomized with
    | false =>
      by_cases hm : (s.links l).target = x ∧ (s.links l).which = b
      · obtain ⟨h1, h2⟩ := hm
        simp [h1, h2, hx, strongRefs]
        ring
      · have hne : ¬ ((s.links l).target, (s.links l).which) = (x, b) := by
          simpa [Prod.ext_iff] using hm
        simp [hm, hx, strongRefs, hne]
    | true => simp [hx, strongRefs]
  · intro x
    have hx := h.count2 x
    have he : phantomRefs s (L.refs.erase l) x = _ := tally_erase hl _
    rw [he]
    cases hp : (s.links l).phantomized with
    | false => simp [hx, phantomRefs]
    | true =>
      by_cases hm : (s.links l).target = x
      · simp [hm, hx, phantomRefs]
        ring
      · simp [hm, hx, phantomRefs]

/-- A link that starts counting takes its reference from the hand. -/
theorem hold {l : ℕ} (hl : l ∉ L.refs)
    (h : Balance s { L with
      strong := if (s.links l).phantomized then L.strong
        else ((s.links l).target, (s.links l).which) :: L.strong
      phantom := if (s.links l).phantomized then (s.links l).target :: L.phantom
        else L.phantom }) :
    Balance s { L with refs := insert l L.refs } := by
  constructor
  · intro x b
    have hx := h.count x b
    have he : strongRefs s (insert l L.refs) x b = _ := tally_insert hl _
    rw [he]
    cases hp : (s.links l).phantomized with
    | false =>
      by_cases hm : (s.links l).target = x ∧ (s.links l).which = b
      · obtain ⟨h1, h2⟩ := hm
        simp [h1, h2, hp] at hx
        simp [h1, h2, hx, strongRefs]
        ring
      · have hne : ¬ ((s.links l).target, (s.links l).which) = (x, b) := by
          simpa [Prod.ext_iff] using hm
        simp [hp, hne] at hx
        simp [hm, hx, strongRefs]
    | true =>
      simp [hp] at hx
      simp [hx, strongRefs]
  · intro x
    have hx := h.count2 x
    have he : phantomRefs s (insert l L.refs) x = _ := tally_insert hl _
    rw [he]
    cases hp : (s.links l).phantomized with
    | false =>
      simp [hp] at hx
      simp [hx, phantomRefs]
    | true =>
      by_cases hm : (s.links l).target = x
      · simp [hp, hm] at hx
        simp [hm, hx, phantomRefs]
        ring
      · simp [hp, hm] at hx
        simp [hm, hx, phantomRefs]

end Balance
end Acid

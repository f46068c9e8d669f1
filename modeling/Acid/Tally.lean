import Mathlib.Algebra.BigOperators.Group.Finset.Basic
import Mathlib.Algebra.BigOperators.Ring.Finset
import Mathlib.Algebra.Order.BigOperators.Group.Finset
import Mathlib.Data.Int.Order.Basic
import Mathlib.Tactic.Ring

set_option autoImplicit false

/-!
# Integer sums over finite index sets changed at one point
-/
namespace Acid.Tally

theorem sum_change {S : Finset ℕ} {i : ℕ} (hi : i ∈ S) {f g : ℕ → ℤ}
    (h : ∀ j, j ≠ i → g j = f j) :
    ∑ j ∈ S, g j = ∑ j ∈ S, f j - f i + g i := by
  rw [← Finset.add_sum_erase _ g hi, ← Finset.add_sum_erase _ f hi]
  have hrest : ∑ j ∈ S.erase i, g j = ∑ j ∈ S.erase i, f j :=
    Finset.sum_congr rfl fun j hj => h j (Finset.ne_of_mem_erase hj)
  rw [hrest]
  ring

/-- The number of indices in `S` with the property, as an integer. -/
def tally (S : Finset ℕ) (p : ℕ → Prop) [DecidablePred p] : ℤ :=
  ∑ j ∈ S, if p j then 1 else 0

theorem tally_eq_card (S : Finset ℕ) (p : ℕ → Prop) [DecidablePred p] :
    tally S p = ((S.filter p).card : ℤ) := by
  simp [tally]

theorem tally_change {S : Finset ℕ} {i : ℕ} (hi : i ∈ S) {p q : ℕ → Prop} [DecidablePred p]
    [DecidablePred q] (h : ∀ j, j ≠ i → (q j ↔ p j)) :
    tally S q = tally S p - (if p i then 1 else 0) + (if q i then 1 else 0) := by
  apply sum_change hi
  intro j hj
  simp only [h j hj]

theorem tally_congr {S : Finset ℕ} {p q : ℕ → Prop} [DecidablePred p] [DecidablePred q]
    (h : ∀ j ∈ S, (q j ↔ p j)) : tally S q = tally S p := by
  apply Finset.sum_congr rfl
  intro j hj
  simp only [h j hj]

theorem tally_range_succ (n : ℕ) (p : ℕ → Prop) [DecidablePred p] :
    tally (Finset.range (n + 1)) p = tally (Finset.range n) p + if p n then 1 else 0 :=
  Finset.sum_range_succ _ _

theorem tally_insert {S : Finset ℕ} {i : ℕ} (hi : i ∉ S) (p : ℕ → Prop) [DecidablePred p] :
    tally (insert i S) p = (if p i then 1 else 0) + tally S p :=
  Finset.sum_insert hi

theorem tally_erase {S : Finset ℕ} {i : ℕ} (hi : i ∈ S) (p : ℕ → Prop) [DecidablePred p] :
    tally (S.erase i) p = tally S p - if p i then 1 else 0 := by
  have h := Finset.add_sum_erase S (fun j => if p j then (1 : ℤ) else 0) hi
  unfold tally
  omega

theorem tally_nonneg (S : Finset ℕ) (p : ℕ → Prop) [DecidablePred p] : 0 ≤ tally S p := by
  rw [tally_eq_card]
  exact Int.natCast_nonneg _

theorem tally_pos {S : Finset ℕ} {i : ℕ} {p : ℕ → Prop} [DecidablePred p] (hi : i ∈ S)
    (h : p i) : 0 < tally S p := by
  rw [tally_eq_card]
  have hm : i ∈ S.filter p := by simp [hi, h]
  exact_mod_cast Finset.card_pos.mpr ⟨i, hm⟩

theorem exists_of_tally_pos {S : Finset ℕ} {p : ℕ → Prop} [DecidablePred p] (h : 0 < tally S p) :
    ∃ i ∈ S, p i := by
  rw [tally_eq_card] at h
  obtain ⟨i, hi⟩ := Finset.card_pos.mp (by exact_mod_cast h)
  exact ⟨i, (Finset.mem_filter.mp hi).1, (Finset.mem_filter.mp hi).2⟩

theorem tally_eq_zero {S : Finset ℕ} {p : ℕ → Prop} [DecidablePred p] :
    tally S p = 0 ↔ ∀ i ∈ S, ¬ p i := by
  rw [tally_eq_card]
  constructor
  · intro h i hi hp
    have hm : i ∈ S.filter p := by simp [hi, hp]
    have := Finset.card_pos.mpr ⟨i, hm⟩
    omega
  · intro h
    have : S.filter p = ∅ := Finset.filter_eq_empty_iff.mpr (by intro i hi; exact h i hi)
    simp [this]

end Acid.Tally

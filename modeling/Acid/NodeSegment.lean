import Mathlib.Data.List.Nodup
import Mathlib.Data.Nat.Notation
import Mathlib.Logic.Function.Basic

set_option autoImplicit false

/-!
# Segments of doubly linked nodes

A store holds nodes by address. `Segment m p xs q` says that the nodes at the addresses of
`xs` hold its data and are linked in this order, between the neighbours `p` and `q`.
-/
namespace Acid.NodeSegment

structure Node (κ α : Type) where
  data : α
  next : Option κ := none
  prev : Option κ := none

abbrev Store (κ α : Type) := κ → Option (Node κ α)

section
variable {κ α : Type}

def first (xs : List (κ × α)) : Option κ := xs.head?.map Prod.fst

def last (xs : List (κ × α)) : Option κ := xs.getLast?.map Prod.fst

def Segment (m : Store κ α) : Option κ → List (κ × α) → Option κ → Prop
  | _, [], _ => True
  | p, (a, v) :: rest, q => m a = some ⟨v, (first rest).or q, p⟩ ∧ Segment m (some a) rest q

/-- Only the nodes of the segment matter. -/
theorem Segment.congr {m m' : Store κ α} {p q : Option κ} {xs : List (κ × α)}
    (h : Segment m p xs q) (hm : ∀ a ∈ xs.map Prod.fst, m' a = m a) : Segment m' p xs q := by
  induction xs generalizing p with
  | nil => trivial
  | cons x xs ih =>
    obtain ⟨a, v⟩ := x
    refine ⟨(hm a (by simp)).trans h.1, ih h.2 fun b hb => hm b ?_⟩
    rw [List.map_cons]
    exact List.mem_cons_of_mem _ hb

theorem Segment.mem {m : Store κ α} {p q : Option κ} {xs : List (κ × α)} (h : Segment m p xs q)
    {a : κ} (ha : a ∈ xs.map Prod.fst) : m a ≠ none := by
  induction xs generalizing p with
  | nil => cases ha
  | cons x xs ih =>
    obtain ⟨b, v⟩ := x
    rcases List.mem_cons.mp ha with rfl | ha
    · simp [h.1]
    · exact ih h.2 ha

end

section
variable {κ α : Type} [DecidableEq κ] {m : Store κ α} {p q : Option κ} {xs : List (κ × α)}

theorem Segment.update (h : Segment m p xs q) {a : κ} (ha : a ∉ xs.map Prod.fst)
    (d : Option (Node κ α)) : Segment (Function.update m a d) p xs q := by
  apply h.congr
  intro b hb
  rw [Function.update_of_ne]
  rintro rfl
  exact ha hb

end

end Acid.NodeSegment

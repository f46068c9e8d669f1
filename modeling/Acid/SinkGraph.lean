import Mathlib.Logic.Relation
import Mathlib.Order.WellFounded
import Mathlib.Data.Finite.Defs
import Mathlib.Data.Fintype.Order
import Mathlib.Order.Preorder.Finite

set_option autoImplicit false

/-!
# Acyclic graphs changed at a sink

Edges may be removed anywhere, and added into vertices that have no edge of their
own, without closing a cycle. In a finite acyclic graph every vertex is reached
from one without a predecessor.
-/
namespace Acid.SinkGraph
open Relation
variable {α : Type} {r r' : α → α → Prop}

def Acyclic (r : α → α → Prop) : Prop := ∀ a, ¬ TransGen r a a

/-- A path to a vertex with an edge of its own has no new edge. -/
theorem transGen_old (hsub : ∀ a b, r' a b → r a b ∨ ∀ c, ¬ r' b c) {a b d : α}
    (h : TransGen r' a b) (hb : r' b d) : TransGen r a b := by
  induction h using TransGen.head_induction_on with
  | single hab => exact .single ((hsub _ _ hab).resolve_right fun hs => hs d hb)
  | head hac hcb ih =>
    obtain ⟨e, he, _⟩ := TransGen.head'_iff.mp hcb
    exact .head ((hsub _ _ hac).resolve_right fun hs => hs e he) ih

/-- New edges into sinks close no cycle. -/
theorem Acyclic.sink (h : Acyclic r) (hsub : ∀ a b, r' a b → r a b ∨ ∀ c, ¬ r' b c) :
    Acyclic r' := by
  intro a ha
  obtain ⟨d, hd, _⟩ := TransGen.head'_iff.mp ha
  exact h a (transGen_old hsub ha hd)

/-- In a finite set where each vertex is a source or has a predecessor in the set, an
acyclic graph reaches each vertex from a source. -/
theorem Acyclic.reached (h : Acyclic r) {S : Set α} (hS : S.Finite) {P : α → Prop}
    (hpred : ∀ x ∈ S, P x ∨ ∃ y ∈ S, r y x) {x : α} (hx : x ∈ S) :
    ∃ y ∈ S, P y ∧ ReflTransGen r y x := by
  have : Finite S := hS
  let q : S → S → Prop := fun a b => TransGen r a.1 b.1
  have : IsTrans S q := ⟨fun _ _ _ hab hbc => TransGen.trans hab hbc⟩
  have : Std.Irrefl q := ⟨fun a ha => h a.1 ha⟩
  have wf : WellFounded q := Finite.wellFounded_of_trans_of_irrefl q
  suffices ∀ z : S, ∃ y ∈ S, P y ∧ ReflTransGen r y z.1 from this ⟨x, hx⟩
  intro z
  induction z using wf.induction with
  | _ z ih =>
    rcases hpred z.1 z.2 with hp | ⟨y, hy, hyz⟩
    · exact ⟨z.1, z.2, hp, .refl⟩
    · obtain ⟨w, hw, hp, hwy⟩ := ih ⟨y, hy⟩ (TransGen.single hyz)
      exact ⟨w, hw, hp, hwy.tail hyz⟩

end Acid.SinkGraph

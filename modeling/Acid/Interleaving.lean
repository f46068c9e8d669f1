import Mathlib.Data.Nat.Notation

set_option autoImplicit false

/-!
# Operations that release their locks on the way

An operation cut at its lock releases is a chain of sections. Between two of
them come any number of whole calls that other threads make.
-/
namespace Acid

/-- `advance` is the next section, if one is left, and `call` a call of another thread. -/
structure Sectioned (σ ε : Type) where
  advance : σ → Option σ
  mayCall : σ → ε → Prop
  call : σ → ε → σ

variable {σ ε : Type}

/-- The states of an operation from `w₀` whose sections (`none`) and foreign calls all meet
the condition `ok`. -/
inductive Interleaving (op : Sectioned σ ε) (ok : σ → Option ε → Prop) (w₀ : σ) : σ → Prop where
  | start : Interleaving op ok w₀ w₀
  | advance {w w' : σ} (run : Interleaving op ok w₀ w) (left : op.advance w = some w')
      (meets : ok w none) : Interleaving op ok w₀ w'
  | call {w : σ} {e : ε} (run : Interleaving op ok w₀ w) (enabled : op.mayCall w e)
      (meets : ok w (some e)) : Interleaving op ok w₀ (op.call w e)

variable {op : Sectioned σ ε} {ok : σ → Option ε → Prop} {w₀ w : σ}

/-- What every section and every call preserves holds in all of them. -/
theorem Interleaving.invariant (I : σ → Prop) (run : Interleaving op ok w₀ w) (hi : I w₀)
    (hadvance : ∀ w w', I w → op.advance w = some w' → ok w none → I w')
    (hcall : ∀ w e, I w → op.mayCall w e → ok w (some e) → I (op.call w e)) : I w := by
  induction run with
  | start => exact hi
  | advance _ hleft hok ih => exact hadvance _ _ ih hleft hok
  | call _ he hok ih => exact hcall _ _ ih he hok

/-- The sections in a row, with no call in between. -/
def Sectioned.rest (op : Sectioned σ ε) : ℕ → σ → σ
  | 0, w => w
  | n + 1, w => match op.advance w with
    | some w' => op.rest n w'
    | none => w

theorem Interleaving.rest (hok : ∀ w, ok w none) (run : Interleaving op ok w₀ w) (n : ℕ) :
    Interleaving op ok w₀ (op.rest n w) := by
  induction n generalizing w with
  | zero => exact run
  | succ n ih =>
    unfold Sectioned.rest
    split
    · rename_i w' hleft
      exact ih (run.advance hleft (hok w))
    · exact run

end Acid

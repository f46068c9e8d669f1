import Mathlib.Data.Nat.Notation
import Mathlib.Logic.Basic

set_option autoImplicit false

/-!
# Procedures over a machine

A procedure reads and changes a machine and may stop without a result: it has
crashed, or a loop has used up its bound. The machine in which it stopped is
kept, so that what it did up to there can be reasoned about.
-/
namespace Acid.Procedure

abbrev Proc (μ α : Type) := OptionT (StateM μ) α

variable {μ α β : Type}

def outcome (p : Proc μ α) (m : μ) : Option α × μ := p.run m

/-- `p` returns `a` from `m`, and leaves `m'`. -/
def Returns (p : Proc μ α) (m : μ) (a : α) (m' : μ) : Prop := outcome p m = (some a, m')

def read (f : μ → α) : Proc μ α := OptionT.mk fun m => (some (f m), m)

def act (f : μ → μ × α) : Proc μ α := OptionT.mk fun m => (some (f m).2, (f m).1)

def write (f : μ → μ) : Proc μ Unit := OptionT.mk fun m => (some (), f m)

/-- `f` gives the next machine, or the machine in which the procedure stops. -/
def attempt (f : μ → Except μ μ) : Proc μ Unit := OptionT.mk fun m =>
  match f m with
  | .ok m' => (some (), m')
  | .error m' => (none, m')

theorem outcome_pure (a : α) (m : μ) : outcome (pure a : Proc μ α) m = (some a, m) := rfl

theorem outcome_failure (m : μ) : outcome (failure : Proc μ α) m = (none, m) := rfl

theorem outcome_bind (p : Proc μ α) (f : α → Proc μ β) (m : μ) :
    outcome (p >>= f) m = match outcome p m with
      | (some a, m') => outcome (f a) m'
      | (none, m') => (none, m') := by
  unfold outcome
  rw [OptionT.run_bind]
  change (Option.elimM p.run (pure none) fun a => (f a).run) m = _
  simp only [Option.elimM, bind, StateT.bind]
  rcases p.run m with ⟨_ | a, m'⟩ <;> rfl

theorem outcome_attempt (f : μ → Except μ μ) (m : μ) :
    outcome (attempt f) m = match f m with
      | .ok m' => (some (), m')
      | .error m' => (none, m') := by
  unfold outcome attempt
  cases h : f m <;> simp [OptionT.run, OptionT.mk, h]

theorem returns_pure {a b : α} {m m' : μ} :
    Returns (pure a : Proc μ α) m b m' ↔ b = a ∧ m' = m := by
  simp only [Returns, outcome_pure, Prod.mk.injEq, Option.some.injEq, eq_comm]

theorem not_returns_failure {a : α} {m m' : μ} : ¬ Returns (failure : Proc μ α) m a m' := by
  simp [Returns, outcome_failure]

theorem returns_bind {p : Proc μ α} {f : α → Proc μ β} {m m'' : μ} {b : β} :
    Returns (p >>= f) m b m'' ↔ ∃ a m', Returns p m a m' ∧ Returns (f a) m' b m'' := by
  unfold Returns
  rw [outcome_bind]
  rcases outcome p m with ⟨_ | a, m'⟩
  · simp
  · constructor
    · intro h
      exact ⟨a, m', rfl, h⟩
    · rintro ⟨a', m₁, h1, h2⟩
      cases h1
      exact h2

theorem returns_read {f : μ → α} {a : α} {m m' : μ} :
    Returns (read f) m a m' ↔ a = f m ∧ m' = m := by
  change (some (f m), m) = (some a, m') ↔ _
  simp only [Prod.mk.injEq, Option.some.injEq, eq_comm]

theorem returns_read_bind {f : μ → α} {g : α → Proc μ β} {m m' : μ} {b : β} :
    Returns (read f >>= g) m b m' ↔ Returns (g (f m)) m b m' := Iff.rfl

theorem returns_act {f : μ → μ × α} {a : α} {m m' : μ} :
    Returns (act f) m a m' ↔ a = (f m).2 ∧ m' = (f m).1 := by
  change (some (f m).2, (f m).1) = (some a, m') ↔ _
  simp only [Prod.mk.injEq, Option.some.injEq, eq_comm]

theorem returns_write {f : μ → μ} {u : Unit} {m m' : μ} :
    Returns (write f) m u m' ↔ m' = f m := by
  change (some (), f m) = (some u, m') ↔ _
  simp only [Prod.mk.injEq, eq_comm, true_and]

theorem returns_attempt {f : μ → Except μ μ} {u : Unit} {m m' : μ} :
    Returns (attempt f) m u m' ↔ f m = .ok m' := by
  rw [Returns, outcome_attempt]
  cases f m <;> simp

/-- `p` leaves the part `view` of the machine as it was, whenever it returns. -/
def Keeps {δ : Type} (view : μ → δ) (p : Proc μ α) : Prop :=
  ∀ m a m', Returns p m a m' → view m' = view m

section
variable {δ : Type} {view : μ → δ}

theorem keeps_pure (a : α) : Keeps view (pure a : Proc μ α) := by
  intro m b m' h
  rw [(returns_pure.mp h).2]

theorem keeps_failure : Keeps view (failure : Proc μ α) := by
  intro m a m' h
  exact (not_returns_failure h).elim

theorem Keeps.bind {p : Proc μ α} {f : α → Proc μ β} (hp : Keeps view p)
    (hf : ∀ a, Keeps view (f a)) : Keeps view (p >>= f) := by
  intro m b m'' h
  obtain ⟨a, m', h1, h2⟩ := returns_bind.mp h
  rw [hf a m' b m'' h2, hp m a m' h1]

theorem keeps_read (f : μ → α) : Keeps view (read f) := by
  intro m a m' h
  rw [(returns_read.mp h).2]

theorem keeps_act {f : μ → μ × α} (h : ∀ m, view (f m).1 = view m) : Keeps view (act f) := by
  intro m a m' hr
  rw [(returns_act.mp hr).2]
  exact h m

theorem keeps_write {f : μ → μ} (h : ∀ m, view (f m) = view m) : Keeps view (write f) := by
  intro m u m' hr
  rw [returns_write.mp hr]
  exact h m

theorem Keeps.ite {p q : Proc μ α} {c : Prop} [Decidable c] (hp : Keeps view p)
    (hq : Keeps view q) : Keeps view (if c then p else q) := by
  by_cases h : c
  · rwa [if_pos h]
  · rwa [if_neg h]

theorem Keeps.forM {f : α → Proc μ PUnit} (hf : ∀ a, Keeps view (f a)) (xs : List α) :
    Keeps view (xs.forM f) := by
  induction xs with
  | nil => exact keeps_pure _
  | cons x xs ih => exact (hf x).bind fun _ => ih

theorem Keeps.foldlM {f : β → α → Proc μ β} (hf : ∀ b a, Keeps view (f b a)) (xs : List α) :
    ∀ b, Keeps view (xs.foldlM f b) := by
  induction xs with
  | nil =>
    intro b
    exact keeps_pure b
  | cons x xs ih =>
    intro b
    exact (hf b x).bind ih

end

end Acid.Procedure

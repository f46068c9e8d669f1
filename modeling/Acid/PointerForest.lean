import Mathlib.Data.Finset.Card
import Mathlib.Data.Finset.Range
import Mathlib.Logic.Function.Basic
import Mathlib.Logic.Relation

set_option autoImplicit false

/-!
# Forests of forward pointers

A table of optional pointers `next` is a forest when some rank drops along every
pointer. Chasing pointers then ends at the root of a node, and pointing one root
at another unites exactly two classes.
-/
namespace Acid.PointerForest

/-- Follow at most `n` pointers. -/
def chase {α : Type} (next : α → Option α) : ℕ → α → α
  | 0, a => a
  | n + 1, a =>
    match next a with
    | none => a
    | some b => chase next n b

/-- `LeadsTo next a r`: the chain from `a` ends at the root `r`. -/
inductive LeadsTo {α : Type} (next : α → Option α) : α → α → Prop where
  | root {a : α} (h : next a = none) : LeadsTo next a a
  | step {a b r : α} (h : next a = some b) (tail : LeadsTo next b r) : LeadsTo next a r

theorem LeadsTo.isRoot {α : Type} {next : α → Option α} {a r : α} (h : LeadsTo next a r) :
    next r = none := by
  induction h with
  | root h => exact h
  | step _ _ ih => exact ih

theorem LeadsTo.unique {α : Type} {next : α → Option α} {a r q : α}
    (h : LeadsTo next a r) (h' : LeadsTo next a q) : r = q := by
  induction h with
  | root h =>
    cases h' with
    | root _ => rfl
    | step hs _ => simp [h] at hs
  | step hs _ ih =>
    cases h' with
    | root h => simp [h] at hs
    | step hs' tail => exact ih (by rw [hs] at hs'; cases hs'; exact tail)

/-- `b` lies on the chain of `a`. -/
def Chain {α : Type} (next : α → Option α) : α → α → Prop :=
  Relation.ReflTransGen fun a b => next a = some b

theorem Chain.leadsTo {α : Type} {next : α → Option α} {a b r : α} (h : Chain next a b)
    (hb : LeadsTo next b r) : LeadsTo next a r := by
  induction h using Relation.ReflTransGen.head_induction_on with
  | refl => exact hb
  | head hab _ ih => exact .step hab ih

/-- A rank that drops along every pointer. -/
def Ranked {α : Type} (next : α → Option α) : Prop :=
  ∃ rank : α → ℕ, ∀ a b, next a = some b → rank b < rank a

theorem chase_root {α : Type} {next : α → Option α} {a : α} (h : next a = none) (n : ℕ) :
    chase next n a = a := by
  cases n <;> simp [chase, h]

theorem chase_leadsTo {α : Type} {next : α → Option α} (rank : α → ℕ)
    (hr : ∀ a b, next a = some b → rank b < rank a) (n : ℕ) (a : α) (hn : rank a ≤ n) :
    LeadsTo next a (chase next n a) := by
  induction n generalizing a with
  | zero =>
    have h : next a = none := by
      cases hs : next a with
      | none => rfl
      | some b => have := hr a b hs; omega
    exact .root h
  | succ n ih =>
    cases hs : next a with
    | none => simpa [chase, hs] using LeadsTo.root hs
    | some b =>
      have hb := hr a b hs
      simpa [chase, hs] using LeadsTo.step hs (ih b (by omega))

/-- The chase as a loop that is left at a root only. -/
def chaseLoop {α : Type} (next : α → Option α) : ℕ → α → Option α
  | 0, _ => none
  | n + 1, a =>
    match next a with
    | none => some a
    | some b => chaseLoop next n b

/-- On a forest the loop is left, where the chase ends. -/
theorem chaseLoop_eq {α : Type} {next : α → Option α} (rank : α → ℕ)
    (hr : ∀ a b, next a = some b → rank b < rank a) (n : ℕ) (a : α) (hn : rank a ≤ n) :
    chaseLoop next (n + 1) a = some (chase next n a) := by
  induction n generalizing a with
  | zero =>
    have h : next a = none := by
      cases hs : next a with
      | none => rfl
      | some b => have := hr a b hs; omega
    simp [chaseLoop, chase, h]
  | succ n ih =>
    cases hs : next a with
    | none => simp [chaseLoop, chase, hs]
    | some b =>
      have hb := hr a b hs
      rw [chaseLoop, hs, chase, hs]
      exact ih b (by omega)

/-- Pointers into `range n` leave a rank bounded by `n`: count the smaller nodes. -/
theorem Ranked.bounded {next : ℕ → Option ℕ} (h : Ranked next) (n : ℕ)
    (hn : ∀ a b, next a = some b → b < n) :
    ∃ rank : ℕ → ℕ, (∀ a b, next a = some b → rank b < rank a) ∧ ∀ a, rank a ≤ n := by
  obtain ⟨rank, hr⟩ := h
  refine ⟨fun a => ((Finset.range n).filter (fun d => rank d < rank a)).card, ?_, ?_⟩
  · intro a b hab
    apply Finset.card_lt_card
    refine ⟨?_, ?_⟩
    · intro d hd
      simp only [Finset.mem_filter, Finset.mem_range] at hd ⊢
      exact ⟨hd.1, hd.2.trans (hr a b hab)⟩
    · intro hsub
      have hb : b ∈ (Finset.range n).filter (fun d => rank d < rank a) := by
        simpa using ⟨hn a b hab, hr a b hab⟩
      simpa using hsub hb
  · intro a
    exact (Finset.card_filter_le _ _).trans (by simp)

/-- The final root of `a` among `n` nodes. -/
def root (next : ℕ → Option ℕ) (n a : ℕ) : ℕ := chase next n a

theorem root_leadsTo {next : ℕ → Option ℕ} {n : ℕ} (h : Ranked next)
    (hn : ∀ a b, next a = some b → b < n) (a : ℕ) : LeadsTo next a (root next n a) := by
  obtain ⟨rank, hr, hb⟩ := h.bounded n hn
  exact chase_leadsTo rank hr n a (hb a)

theorem chaseLoop_root {next : ℕ → Option ℕ} {n : ℕ} (h : Ranked next)
    (hn : ∀ a b, next a = some b → b < n) (a : ℕ) :
    chaseLoop next (n + 1) a = some (root next n a) := by
  obtain ⟨rank, hr, hb⟩ := h.bounded n hn
  exact chaseLoop_eq rank hr n a (hb a)

theorem root_eq {next : ℕ → Option ℕ} {n : ℕ} (h : Ranked next)
    (hn : ∀ a b, next a = some b → b < n) {a r : ℕ} (hr : LeadsTo next a r) :
    root next n a = r :=
  (root_leadsTo h hn a).unique hr

theorem root_of_root {next : ℕ → Option ℕ} {n a : ℕ} (h : next a = none) : root next n a = a :=
  chase_root h n

/-- Pointing the root `s` at the root `t`. -/
theorem Ranked.join {next : ℕ → Option ℕ} (h : Ranked next) {s t : ℕ}
    (ht : next t = none) (hst : s ≠ t) : Ranked (Function.update next s (some t)) := by
  obtain ⟨rank, hr⟩ := h
  refine ⟨fun a => if a = s then 1 else if next a = none then 0 else rank a + 2, ?_⟩
  intro a b hab
  by_cases ha : a = s
  · subst a
    have hb : b = t := by simpa using hab.symm
    subst b
    simp [Ne.symm hst, ht]
  · rw [Function.update_of_ne ha] at hab
    have hlt := hr a b hab
    by_cases hb : b = s
    · simp [ha, hb, hab]
    · by_cases hbn : next b = none <;> simp [ha, hb, hbn, hab, hlt]

theorem LeadsTo.join {next : ℕ → Option ℕ} {s t a r : ℕ} (hs : next s = none)
    (ht : next t = none) (hst : s ≠ t) (h : LeadsTo next a r) :
    LeadsTo (Function.update next s (some t)) a (if r = s then t else r) := by
  have htop : LeadsTo (Function.update next s (some t)) t t :=
    .root (by rw [Function.update_of_ne (Ne.symm hst)]; exact ht)
  induction h with
  | @root a h =>
    by_cases ha : a = s
    · subst a
      simpa using LeadsTo.step (by simp) htop
    · have hroot : Function.update next s (some t) a = none := by
        rw [Function.update_of_ne ha]
        exact h
      simpa [ha] using LeadsTo.root hroot
  | @step a b r hab tail ih =>
    have ha : a ≠ s := by
      rintro rfl
      simp [hs] at hab
    exact .step (by rw [Function.update_of_ne ha]; exact hab) ih

theorem root_join {next : ℕ → Option ℕ} {n s t : ℕ} (h : Ranked next)
    (hn : ∀ a b, next a = some b → b < n) (hs : next s = none) (ht : next t = none)
    (hst : s ≠ t) (htn : t < n) (a : ℕ) :
    root (Function.update next s (some t)) n a = if root next n a = s then t else root next n a := by
  apply root_eq (h.join ht hst)
  · intro a b hab
    by_cases ha : a = s
    · subst a
      have hb : t = b := by simpa using hab
      exact hb ▸ htn
    · rw [Function.update_of_ne ha] at hab
      exact hn a b hab
  · exact (root_leadsTo h hn a).join hs ht hst

/-- Clearing the pointer of a node that no pointer enters. -/
theorem Ranked.unlink {next : ℕ → Option ℕ} (h : Ranked next) (s : ℕ) :
    Ranked (Function.update next s none) := by
  obtain ⟨rank, hr⟩ := h
  refine ⟨rank, ?_⟩
  intro a b hab
  by_cases ha : a = s
  · simp [ha] at hab
  · rw [Function.update_of_ne ha] at hab
    exact hr a b hab

theorem LeadsTo.unlink {next : ℕ → Option ℕ} {s a r : ℕ} (hs : ∀ a, next a ≠ some s)
    (ha : a ≠ s) (h : LeadsTo next a r) : LeadsTo (Function.update next s none) a r := by
  induction h with
  | root h => exact .root (by rw [Function.update_of_ne ha]; exact h)
  | @step a b r hab _ ih =>
    have hb : b ≠ s := by
      rintro rfl
      exact hs a hab
    exact .step (by rw [Function.update_of_ne ha]; exact hab) (ih hb)

theorem root_unlink {next : ℕ → Option ℕ} {n s a : ℕ} (h : Ranked next)
    (hn : ∀ a b, next a = some b → b < n) (hs : ∀ a, next a ≠ some s) (ha : a ≠ s) :
    root (Function.update next s none) n a = root next n a := by
  apply root_eq (h.unlink s)
  · intro a b hab
    by_cases ha : a = s
    · simp [ha] at hab
    · rw [Function.update_of_ne ha] at hab
      exact hn a b hab
  · exact (root_leadsTo h hn a).unlink hs ha

theorem root_grow {next : ℕ → Option ℕ} {n m : ℕ} (h : Ranked next)
    (hn : ∀ a b, next a = some b → b < n) (hm : n ≤ m) (a : ℕ) :
    root next m a = root next n a :=
  root_eq h (fun a b hab => (hn a b hab).trans_le hm) (root_leadsTo h hn a)

theorem root_next {next : ℕ → Option ℕ} {n a b : ℕ} (h : Ranked next)
    (hn : ∀ a b, next a = some b → b < n) (hab : next a = some b) :
    root next n a = root next n b :=
  root_eq h hn (.step hab (root_leadsTo h hn b))

theorem root_isRoot {next : ℕ → Option ℕ} {n : ℕ} (h : Ranked next)
    (hn : ∀ a b, next a = some b → b < n) (a : ℕ) : next (root next n a) = none :=
  (root_leadsTo h hn a).isRoot

theorem root_idem {next : ℕ → Option ℕ} {n : ℕ} (h : Ranked next)
    (hn : ∀ a b, next a = some b → b < n) (a : ℕ) :
    root next n (root next n a) = root next n a :=
  root_of_root (root_isRoot h hn a)

theorem root_lt {next : ℕ → Option ℕ} {n a : ℕ} (h : Ranked next)
    (hn : ∀ a b, next a = some b → b < n) (ha : a < n) : root next n a < n := by
  have hl := root_leadsTo h hn a
  generalize root next n a = r at hl
  induction hl with
  | root _ => exact ha
  | step hab _ ih => exact ih (hn _ _ hab)

end Acid.PointerForest

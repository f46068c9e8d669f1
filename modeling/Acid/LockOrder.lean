import Mathlib.Data.List.Basic
import Mathlib.Data.List.Pairwise
import Mathlib.Logic.Function.Basic
import Mathlib.Logic.Relation
import Mathlib.Order.Basic

set_option autoImplicit false

/-!
# Parties that take re-entrant locks in rank order

Each party works through a script of lock and unlock events, of its own and in
any interleaving with the others. Where every lock that is new to a party ranks
above all that the party holds, no party ever waits for itself round a cycle.
-/
namespace Acid.LockOrder

/-- Take the locks one by one in this order, or give each of them back once. -/
inductive Event (κ : Type) where
  | lock (ks : List κ)
  | unlock (ks : List κ)

/-- `pending` are the locks of the current event that are still to be taken. -/
structure Party (κ : Type) where
  hold : κ → ℕ := fun _ => 0
  pending : List κ := []
  script : List (Event κ) := []

variable {κ ι ρ : Type} [DecidableEq κ] [DecidableEq ι] [Preorder ρ] {rank : κ → ρ}

def plus (hold : κ → ℕ) (ks : List κ) : κ → ℕ := fun k => hold k + ks.count k

def minus (hold : κ → ℕ) (ks : List κ) : κ → ℕ := fun k => hold k - ks.count k

/-- A lock is taken only while no other party holds it. -/
inductive Step (s : ι → Party κ) : (ι → Party κ) → Prop where
  | lock {i : ι} {ks : List κ} {rest : List (Event κ)} (idle : (s i).pending = [])
      (next : (s i).script = .lock ks :: rest) :
      Step s (Function.update s i { s i with pending := ks, script := rest })
  | take {i : ι} {k : κ} {ks : List κ} (next : (s i).pending = k :: ks)
      (free : ∀ j, j ≠ i → (s j).hold k = 0) :
      Step s (Function.update s i { s i with hold := plus (s i).hold [k], pending := ks })
  | unlock {i : ι} {ks : List κ} {rest : List (Event κ)} (idle : (s i).pending = [])
      (next : (s i).script = .unlock ks :: rest) :
      Step s (Function.update s i { s i with hold := minus (s i).hold ks, script := rest })

/-- Party `i` is next to take a lock that `j` holds. -/
def Waits (s : ι → Party κ) (i j : ι) : Prop :=
  ∃ k ks, (s i).pending = k :: ks ∧ j ≠ i ∧ 0 < (s j).hold k

variable (rank) in
/-- The locks of `ks` that are new rise in rank, from above all that is held. -/
def Climbs (hold : κ → ℕ) (ks : List κ) : Prop :=
  (∀ k ∈ ks, hold k = 0 → ∀ h, 0 < hold h → rank h < rank k) ∧
    (ks.filter fun k => hold k = 0).Pairwise fun a b => rank a < rank b

variable (rank) in
def Ascends : (κ → ℕ) → List (Event κ) → Prop
  | _, [] => True
  | hold, .lock ks :: rest => Climbs rank hold ks ∧ Ascends (plus hold ks) rest
  | hold, .unlock ks :: rest => Ascends (minus hold ks) rest

variable (rank) in
/-- The party climbs in the event that it is in, and in all that are still to come. -/
structure Orderly (p : Party κ) : Prop where
  climbs : Climbs rank p.hold p.pending
  ascends : Ascends rank (plus p.hold p.pending) p.script

def Exclusive (s : ι → Party κ) : Prop := ∀ i j k, i ≠ j → 0 < (s i).hold k → (s j).hold k = 0

theorem plus_nil (hold : κ → ℕ) : plus hold [] = hold := by
  funext k
  simp [plus]

theorem plus_plus (hold : κ → ℕ) (xs ys : List κ) : plus (plus hold xs) ys = plus hold (xs ++ ys) := by
  funext k
  simp only [plus, List.count_append]
  omega

theorem plus_pos {hold : κ → ℕ} {ks : List κ} {k : κ} :
    0 < plus hold ks k ↔ 0 < hold k ∨ k ∈ ks := by
  unfold plus
  rw [← List.count_pos_iff]
  omega

omit [DecidableEq κ] in
theorem climbs_nil (hold : κ → ℕ) : Climbs rank hold [] :=
  ⟨fun _ hk => absurd hk List.not_mem_nil, List.Pairwise.nil⟩

/-- Taking the first lock leaves a climb over the rest. -/
theorem Climbs.take {hold : κ → ℕ} {k : κ} {ks : List κ} (h : Climbs rank hold (k :: ks)) :
    Climbs rank (plus hold [k]) ks := by
  obtain ⟨habove, hrise⟩ := h
  have hnew : ∀ x, plus hold [k] x = 0 → hold x = 0 ∧ x ≠ k := by
    intro x hx
    have hpos : 0 < plus hold [k] x ↔ 0 < hold x ∨ x ∈ [k] := plus_pos
    rw [List.mem_singleton] at hpos
    constructor
    · by_contra hne
      have := hpos.mpr (.inl (Nat.pos_of_ne_zero hne))
      omega
    · intro heq
      have := hpos.mpr (.inr heq)
      omega
  constructor
  · intro x hx hzero y hy
    obtain ⟨hx0, hxk⟩ := hnew x hzero
    rcases plus_pos.mp hy with hy | hy
    · exact habove x (List.mem_cons_of_mem k hx) hx0 y hy
    · rw [List.mem_singleton] at hy
      subst hy
      by_cases hk : hold y = 0
      · rw [List.filter_cons_of_pos (by simpa using hk)] at hrise
        exact (List.pairwise_cons.mp hrise).1 x (List.mem_filter.mpr ⟨hx, by simpa using hx0⟩)
      · exact habove x (List.mem_cons_of_mem y hx) hx0 y (Nat.pos_of_ne_zero hk)
  · have hsub : (ks.filter fun x => plus hold [k] x = 0).Sublist
        ((k :: ks).filter fun x => hold x = 0) := by
      refine List.Sublist.trans ?_ ((List.sublist_cons_self k ks).filter _)
      apply List.monotone_filter_right
      intro x hx
      simp only [decide_eq_true_eq] at hx ⊢
      exact (hnew x hx).1
    exact hrise.sublist hsub

section
variable {s s' : ι → Party κ}

theorem Step.orderly (h : Step s s') (ho : ∀ i, Orderly rank (s i)) : ∀ i, Orderly rank (s' i) := by
  intro j
  cases h with
  | @lock i ks rest idle next =>
    by_cases hj : j = i
    · subst hj
      rw [Function.update_self]
      have ha := (ho j).ascends
      rw [idle, plus_nil, next] at ha
      exact ⟨ha.1, ha.2⟩
    · rw [Function.update_of_ne hj]
      exact ho j
  | @take i k ks next free =>
    by_cases hj : j = i
    · subst hj
      rw [Function.update_self]
      have hc := (ho j).climbs
      have ha := (ho j).ascends
      rw [next] at hc ha
      refine ⟨hc.take, ?_⟩
      change Ascends rank (plus (plus (s j).hold [k]) ks) (s j).script
      rwa [plus_plus]
    · rw [Function.update_of_ne hj]
      exact ho j
  | @unlock i ks rest idle next =>
    by_cases hj : j = i
    · subst hj
      rw [Function.update_self]
      have ha := (ho j).ascends
      rw [idle, plus_nil, next] at ha
      refine ⟨?_, ?_⟩
      · change Climbs rank (minus (s j).hold ks) (s j).pending
        rw [idle]
        exact climbs_nil _
      · change Ascends rank (plus (minus (s j).hold ks) (s j).pending) rest
        rw [idle, plus_nil]
        exact ha
    · rw [Function.update_of_ne hj]
      exact ho j

omit [DecidableEq κ] in
/-- A step of one party: where it holds more than before, no other party holds that lock. -/
theorem Exclusive.update {i : ι} {p : Party κ} (he : Exclusive s)
    (hp : ∀ k, 0 < p.hold k → 0 < (s i).hold k ∨ ∀ j, j ≠ i → (s j).hold k = 0) :
    Exclusive (Function.update s i p) := by
  intro a b k hab ha
  by_cases hai : a = i
  · subst hai
    rw [Function.update_self] at ha
    rw [Function.update_of_ne (Ne.symm hab)]
    rcases hp k ha with hk | hk
    · exact he a b k hab hk
    · exact hk b (Ne.symm hab)
  · rw [Function.update_of_ne hai] at ha
    by_cases hbi : b = i
    · subst hbi
      rw [Function.update_self]
      by_contra hne
      rcases hp k (Nat.pos_of_ne_zero hne) with hk | hk
      · have := he a b k hab ha
        omega
      · have := hk a hai
        omega
    · rw [Function.update_of_ne hbi]
      exact he a b k hab ha

theorem Step.exclusive (h : Step s s') (he : Exclusive s) : Exclusive s' := by
  cases h with
  | lock idle next => exact he.update fun k hk => .inl hk
  | take next free =>
    apply he.update
    intro x hx
    rcases plus_pos.mp hx with hx | hx
    · exact .inl hx
    · rw [List.mem_singleton.mp hx]
      exact .inr free
  | unlock idle next =>
    apply he.update
    intro x hx
    left
    change 0 < minus _ _ x at hx
    unfold minus at hx
    omega

omit [DecidableEq ι] in
/-- Along a chain of waiting parties the wanted locks rise in rank. -/
theorem waits_rank (ho : ∀ i, Orderly rank (s i)) (he : Exclusive s) {i j : ι}
    (h : Relation.TransGen (Waits s) i j) : ∀ k' ks', (s j).pending = k' :: ks' →
      (s j).hold k' = 0 → ∃ k ks, (s i).pending = k :: ks ∧ rank k < rank k' := by
  induction h with
  | @single j hw =>
    intro k' ks' hp hzero
    obtain ⟨k, ks, hk, _, hheld⟩ := hw
    have hc := (ho j).climbs
    rw [hp] at hc
    exact ⟨k, ks, hk, hc.1 k' List.mem_cons_self hzero k hheld⟩
  | @tail b j _ hw ih =>
    intro k' ks' hp hzero
    obtain ⟨k₁, ks₁, hk₁, hne, hheld⟩ := hw
    have hc := (ho j).climbs
    rw [hp] at hc
    have hlt := hc.1 k' List.mem_cons_self hzero k₁ hheld
    obtain ⟨k, ks, hk, hlt₁⟩ := ih k₁ ks₁ hk₁ (he j b k₁ hne hheld)
    exact ⟨k, ks, hk, hlt₁.trans hlt⟩

end

/-- No reachable state has parties that wait for each other in a cycle. -/
theorem waits_acyclic {s₀ s : ι → Party κ} (hhold : ∀ i k, (s₀ i).hold k = 0)
    (hidle : ∀ i, (s₀ i).pending = []) (ha : ∀ i, Ascends rank (s₀ i).hold (s₀ i).script)
    (h : Relation.ReflTransGen Step s₀ s) (i : ι) : ¬ Relation.TransGen (Waits s) i i := by
  have hinv : (∀ i, Orderly rank (s i)) ∧ Exclusive s := by
    induction h with
    | refl =>
      constructor
      · intro j
        constructor
        · rw [hidle j]
          exact climbs_nil _
        · rw [hidle j, plus_nil]
          exact ha j
      · intro a b k _ hk
        have := hhold a k
        omega
    | tail _ hstep ih => exact ⟨hstep.orderly ih.1, hstep.exclusive ih.2⟩
  obtain ⟨ho, he⟩ := hinv
  intro hcycle
  obtain ⟨j, ⟨k, ks, hk, hne, hheld⟩, _⟩ := Relation.TransGen.head'_iff.mp hcycle
  obtain ⟨k', ks', hk', hlt⟩ := waits_rank ho he hcycle k ks hk (he j i k hne hheld)
  rw [hk] at hk'
  cases hk'
  exact lt_irrefl _ hlt

end Acid.LockOrder

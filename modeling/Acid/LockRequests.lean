import Acid.Fields
import Acid.LockOrder
import Acid.LockScopes

set_option autoImplicit false

/-!
# The requests of a call

`Obeys t P p Q` says that `p`, called by a thread that holds what `t` says on a
memory with `P`, asks for locks in order only, whether it returns or not, and
that it leaves a memory with `Q` if it returns.
-/
namespace Acid.Locked

open Procedure

/-- Objects before collectors before lists. -/
def Lockable.level : Lockable → ℕ
  | .object _ => 0
  | .collector _ => 1
  | .safelist _ => 2

/-- The locks of a `locker_start` that the thread does not hold, in the order of locking. -/
def newLocks (id : Lockable → ℕ) (t : Locker.Thread Lockable) (locks : List (Option Lockable)) :
    List Lockable :=
  (Locker.lockSet id locks).filter fun k => t.hold k = 0

/-- The new locks are of one class, above the classes of all that the thread holds, and are
taken in increasing order of their ids. -/
def Ordered (id : Lockable → ℕ) (t : Locker.Thread Lockable) (locks : List (Option Lockable)) :
    Prop :=
  (∃ level, ∀ k ∈ newLocks id t locks, k.level = level ∧ ∀ h, 0 < t.hold h → h.level < level) ∧
    (newLocks id t locks).Pairwise fun a b => id a < id b

/-- Every `locker_start` of the calls is in order for what the thread holds then. -/
def Disciplined (id : Lockable → ℕ) :
    Locker.Thread Lockable → List (Locker.Call Lockable) → Prop
  | _, [] => True
  | t, .start locks :: rest => Ordered id t locks ∧
      ∀ t', Locker.lockerStart id t locks = some t' → Disciplined id t' rest
  | t, .stop :: rest => ∀ t', Locker.lockerEnd t = some t' → Disciplined id t' rest

/-- The calls of `locker.c` between the machine `m` and the outcome `r` of a procedure. -/
def Follows {α : Type} (m : Machine) (r : Option α × Machine) : Prop :=
  ∃ calls, r.2.calls = calls.reverse ++ m.calls ∧ r.2.id = m.id ∧
    Disciplined m.id m.thread calls ∧
    (r.1.isSome → Locker.calls m.id calls m.thread = some r.2.thread)

def Obeys {α : Type} (t : Locker.Thread Lockable) (P : Memory → Prop) (p : Proc α)
    (Q : α → Memory → Prop) : Prop :=
  ∀ m : Machine, m.thread = t → Function.Injective m.id → P m.toMemory →
    Follows m (outcome p m) ∧ ∀ a m', Returns p m a m' → Q a m'.toMemory

variable {α β : Type} {t t' : Locker.Thread Lockable} {P R : Memory → Prop}

theorem Disciplined.append {id : Lockable → ℕ} {xs ys : List (Locker.Call Lockable)} :
    ∀ {t : Locker.Thread Lockable}, Disciplined id t xs →
      (∀ t', Locker.calls id xs t = some t' → Disciplined id t' ys) →
      Disciplined id t (xs ++ ys) := by
  induction xs with
  | nil =>
    intro t _ hy
    exact hy t rfl
  | cons c xs ih =>
    intro t hx hy
    cases c with
    | start locks =>
      refine ⟨hx.1, ?_⟩
      intro t₁ h₁
      apply ih (hx.2 t₁ h₁)
      intro t₂ h₂
      apply hy
      rw [Locker.calls, Locker.call, h₁, Option.bind_some, h₂]
    | stop =>
      intro t₁ h₁
      apply ih (hx t₁ h₁)
      intro t₂ h₂
      apply hy
      rw [Locker.calls, Locker.call, h₁, Option.bind_some, h₂]

/-- A procedure that calls nothing of `locker.c`. -/
theorem follows_self {m : Machine} {r : Option α × Machine} (hc : r.2.calls = m.calls)
    (hi : r.2.id = m.id) (ht : r.2.thread = m.thread) : Follows m r :=
  ⟨[], hc, hi, trivial, fun _ => congrArg some ht.symm⟩

theorem Follows.bind {p : Proc α} {f : α → Proc β} {m : Machine} (hp : Follows m (outcome p m))
    (hf : ∀ a m', Returns p m a m' → Follows m' (outcome (f a) m')) :
    Follows m (outcome (p >>= f) m) := by
  obtain ⟨xs, hcalls, hid, hdis, hrep⟩ := hp
  rw [outcome_bind]
  cases hr : outcome p m with
  | mk o m₁ =>
    rw [hr] at hcalls hid hrep
    cases o with
    | none => exact ⟨xs, hcalls, hid, hdis, fun h => by cases h⟩
    | some a =>
      obtain ⟨ys, hcalls', hid', hdis', hrep'⟩ := hf a m₁ hr
      have hthread := hrep rfl
      simp only at hcalls hid hthread
      rw [hid] at hdis' hrep'
      refine ⟨xs ++ ys, ?_, hid'.trans hid, ?_, ?_⟩
      · rw [hcalls', hcalls, List.reverse_append, List.append_assoc]
      · apply hdis.append
        intro t₁ h₁
        rw [hthread, Option.some.injEq] at h₁
        rwa [← h₁]
      · intro hsome
        rw [Locker.calls_append, hthread, Option.bind_some]
        exact hrep' hsome

theorem Obeys.weaken {p : Proc α} {Q : α → Memory → Prop} (h : Obeys t P p Q)
    (hP : ∀ μ, R μ → P μ) : Obeys t R p Q :=
  fun m ht hi hp => h m ht hi (hP _ hp)

theorem Obeys.relax {p : Proc α} {Q Q' : α → Memory → Prop} (h : Obeys t P p Q)
    (hQ : ∀ a μ, Q a μ → Q' a μ) : Obeys t P p Q' := by
  intro m ht hi hp
  obtain ⟨h1, h2⟩ := h m ht hi hp
  exact ⟨h1, fun a m' hr => hQ a _ (h2 a m' hr)⟩

/-- A fact that the memory implies may be used for the choice of the rules. -/
theorem Obeys.fact {q : Prop} {p : Proc α} {Q : α → Memory → Prop} (hq : ∀ μ, P μ → q)
    (h : q → Obeys t P p Q) : Obeys t P p Q :=
  fun m ht hi hP => h (hq _ hP) m ht hi hP

theorem obeys_pure {a : α} {Q : α → Memory → Prop} (h : ∀ μ, P μ → Q a μ) :
    Obeys t P (pure a) Q := by
  intro m _ _ hp
  refine ⟨follows_self rfl rfl rfl, ?_⟩
  intro b m' hr
  obtain ⟨rfl, rfl⟩ := returns_pure.mp hr
  exact h _ hp

theorem obeys_failure {Q : α → Memory → Prop} : Obeys t P (failure : Proc α) Q := by
  intro m _ _ _
  exact ⟨follows_self rfl rfl rfl, fun a m' hr => (not_returns_failure hr).elim⟩

theorem Obeys.bind {p : Proc α} {f : α → Proc β} {R : α → Memory → Prop}
    {Q : β → Memory → Prop} (hp : Obeys t P p R) (hb : Balanced p)
    (hf : ∀ a, Obeys t (R a) (f a) Q) : Obeys t P (p >>= f) Q := by
  intro m ht hi hP
  obtain ⟨h1, h2⟩ := hp m ht hi hP
  have hnext : ∀ a m', Returns p m a m' →
      Follows m' (outcome (f a) m') ∧ ∀ b m'', Returns (f a) m' b m'' → Q b m''.toMemory := by
    intro a m' hr
    have hthread : m'.thread = t := (hb m a m' hr).trans ht
    obtain ⟨_, _, hid, _, _⟩ := h1
    rw [show (outcome p m).2 = m' from congrArg Prod.snd hr] at hid
    exact hf a m' hthread (hid ▸ hi) (h2 a m' hr)
  refine ⟨h1.bind fun a m' hr => (hnext a m' hr).1, ?_⟩
  intro b m'' hr
  obtain ⟨a, m', h3, h4⟩ := returns_bind.mp hr
  exact (hnext a m' h3).2 b m'' h4

theorem Obeys.read {f : Machine → α} {g : α → Proc β} {Q : β → Memory → Prop}
    (h : ∀ a, Obeys t P (g a) Q) : Obeys t P (read f >>= g) Q := by
  intro m ht hi hP
  exact h (f m) m ht hi hP

/-- The value that is read is a fact about the memory for what follows. -/
theorem Obeys.gets {f : State → α} {g : α → Proc β} {Q : β → Memory → Prop}
    (h : ∀ a, Obeys t (fun μ => P μ ∧ f μ.heap = a) (g a) Q) : Obeys t P (gets f >>= g) Q := by
  intro m ht hi hP
  exact h (f m.heap) m ht hi ⟨hP, rfl⟩

theorem obeys_gets {f : State → α} {Q : α → Memory → Prop} (h : ∀ μ, P μ → Q (f μ.heap) μ) :
    Obeys t P (gets f) Q := by
  intro m _ _ hP
  refine ⟨follows_self rfl rfl rfl, ?_⟩
  intro a m' hr
  obtain ⟨rfl, rfl⟩ := returns_read.mp hr
  exact h _ hP

theorem obeys_modify {f : State → State} {Q : Unit → Memory → Prop}
    (h : ∀ μ : Memory, P μ → Q () { μ with heap := f μ.heap }) : Obeys t P (modify f) Q := by
  intro m _ _ hP
  refine ⟨follows_self rfl rfl rfl, ?_⟩
  intro u m' hr
  rw [returns_write.mp hr]
  exact h _ hP

theorem obeys_call {f : State → State × α} {Q : α → Memory → Prop}
    (h : ∀ μ : Memory, P μ → Q (f μ.heap).2 { μ with heap := (f μ.heap).1 }) :
    Obeys t P (call f) Q := by
  intro m _ _ hP
  refine ⟨follows_self rfl rfl rfl, ?_⟩
  intro a m' hr
  obtain ⟨rfl, rfl⟩ := returns_act.mp hr
  exact h _ hP

theorem Obeys.modify {f : State → State} {g : Unit → Proc β} {Q : β → Memory → Prop}
    (hP : ∀ μ : Memory, P μ → R { μ with heap := f μ.heap }) (h : Obeys t R (g ()) Q) :
    Obeys t P (modify f >>= g) Q :=
  Obeys.bind (obeys_modify hP) (balanced_modify f) fun _ => h

theorem Obeys.ite {p q : Proc α} {c : Prop} [Decidable c] {Q : α → Memory → Prop}
    (hp : c → Obeys t P p Q) (hq : ¬ c → Obeys t P q Q) : Obeys t P (if c then p else q) Q := by
  by_cases h : c
  · rw [if_pos h]
    exact hp h
  · rw [if_neg h]
    exact hq h

/-- The class rule for a `locker_start`, in terms of its arguments. -/
def Request (t : Locker.Thread Lockable) (locks : List (Option Lockable)) : Prop :=
  ∃ level, ∀ k, some k ∈ locks → t.hold k = 0 →
    k.level = level ∧ ∀ h, 0 < t.hold h → h.level < level

/-- `t'` is `t` after a `locker_start` with these arguments. -/
structure Opens (t : Locker.Thread Lockable) (locks : List (Option Lockable))
    (t' : Locker.Thread Lockable) : Prop where
  close : Locker.lockerEnd t' = some t
  held : ∀ k, 0 < t'.hold k ↔ 0 < t.hold k ∨ some k ∈ locks

theorem Request.ordered {id : Lockable → ℕ} {locks : List (Option Lockable)}
    (h : Request t locks) (len : locks.length ≤ 4) : Ordered id t locks := by
  obtain ⟨level, hlevel⟩ := h
  obtain ⟨hrise, hsub, _⟩ := Locker.lockSet_spec id (show locks.length ≤ 127 by omega)
  constructor
  · refine ⟨level, ?_⟩
    intro k hk
    obtain ⟨hmem, hzero⟩ := List.mem_filter.mp hk
    exact hlevel k (hsub k hmem) (by simpa using hzero)
  · exact hrise.sublist List.filter_sublist

theorem Obeys.start {locks : List (Option Lockable)} {f : Unit → Proc β} {Q : β → Memory → Prop}
    (len : locks.length ≤ 4) (hreq : Request t locks)
    (hf : ∀ t', Opens t locks t' → Obeys t' P (f ()) Q) :
    Obeys t P (lockerStart locks >>= f) Q := by
  intro m ht hi hP
  subst ht
  have hstart := Locker.lockerStart_eq m.id m.thread len
  obtain ⟨_, _, _, hcover⟩ := (Locker.lockSet_normalised m.id).1 locks
    (show locks.length ≤ 127 by omega)
  set t' : Locker.Thread Lockable :=
    { m.thread.plus (Locker.lockSet m.id locks) with
      stack := Locker.lockSet m.id locks :: m.thread.stack } with ht'
  have hopens : Opens m.thread locks t' := by
    constructor
    · exact Locker.lockerEnd_plus m.thread _
    · intro k
      rw [← hcover hi.injOn k, ← List.count_pos_iff]
      change 0 < m.thread.hold k + _ ↔ _
      omega
  set m' : Machine := { m with calls := .start locks :: m.calls, thread := t' } with hm'
  have hout : outcome (lockerStart locks) m = (some (), m') := by
    rw [lockerStart, outcome_attempt]
    simp only [hstart]
    rfl
  obtain ⟨h1, h2⟩ := hf t' hopens m' rfl hi hP
  have hfollows : Follows m (outcome (lockerStart locks) m) := by
    rw [hout]
    refine ⟨[.start locks], rfl, rfl, ⟨hreq.ordered len, fun _ _ => trivial⟩, fun _ => ?_⟩
    rw [Locker.calls, Locker.call, hstart]
    rfl
  refine ⟨hfollows.bind ?_, ?_⟩
  · intro u m₁ hr
    have : (some u, m₁) = (some (), m') := hr.symm.trans hout
    cases this
    exact h1
  · intro b m'' hr
    obtain ⟨u, m₁, h3, h4⟩ := returns_bind.mp hr
    have : (some u, m₁) = (some (), m') := h3.symm.trans hout
    cases this
    exact h2 b m'' h4

section
variable {f : Unit → Proc β} {Q : β → Memory → Prop} {a b c d : Option Lockable}

theorem Obeys.start1 (hreq : Request t [a]) (hf : ∀ t', Opens t [a] t' → Obeys t' P (f ()) Q) :
    Obeys t P (lockerStart [a] >>= f) Q :=
  .start (show 1 ≤ 4 by omega) hreq hf

theorem Obeys.start2 (hreq : Request t [a, b])
    (hf : ∀ t', Opens t [a, b] t' → Obeys t' P (f ()) Q) :
    Obeys t P (lockerStart [a, b] >>= f) Q :=
  .start (show 2 ≤ 4 by omega) hreq hf

theorem Obeys.start3 (hreq : Request t [a, b, c])
    (hf : ∀ t', Opens t [a, b, c] t' → Obeys t' P (f ()) Q) :
    Obeys t P (lockerStart [a, b, c] >>= f) Q :=
  .start (show 3 ≤ 4 by omega) hreq hf

theorem Obeys.start4 (hreq : Request t [a, b, c, d])
    (hf : ∀ t', Opens t [a, b, c, d] t' → Obeys t' P (f ()) Q) :
    Obeys t P (lockerStart [a, b, c, d] >>= f) Q :=
  .start (show 4 ≤ 4 by omega) hreq hf

end

theorem lockerEnd_follows (m : Machine) : Follows m (outcome lockerEnd m) := by
  rw [lockerEnd, outcome_attempt]
  dsimp only
  cases hend : Locker.lockerEnd m.thread with
  | none => exact ⟨[.stop], rfl, rfl, fun _ _ => trivial, fun h => by cases h⟩
  | some t =>
    refine ⟨[.stop], rfl, rfl, fun _ _ => trivial, fun _ => ?_⟩
    rw [Locker.calls, Locker.call, hend]
    rfl

theorem Obeys.stop {f : Unit → Proc β} {Q : β → Memory → Prop}
    (hend : Locker.lockerEnd t' = some t) (hf : Obeys t P (f ()) Q) :
    Obeys t' P (lockerEnd >>= f) Q := by
  intro m ht hi hP
  have hnext : ∀ u m', Returns lockerEnd m u m' →
      Follows m' (outcome (f u) m') ∧ ∀ b m'', Returns (f u) m' b m'' → Q b m''.toMemory := by
    intro u m' hr
    obtain ⟨t₁, h₁, rfl⟩ := returns_lockerEnd hr
    rw [ht, hend, Option.some.injEq] at h₁
    exact hf _ h₁.symm hi hP
  refine ⟨(lockerEnd_follows m).bind fun u m' hr => (hnext u m' hr).1, ?_⟩
  intro b m'' hr
  obtain ⟨u, m', h3, h4⟩ := returns_bind.mp hr
  exact (hnext u m' h3).2 b m'' h4

theorem obeys_lockerEnd {Q : Unit → Memory → Prop} (h : ∀ μ, P μ → Q () μ) :
    Obeys t P lockerEnd Q := by
  intro m _ _ hP
  refine ⟨lockerEnd_follows m, ?_⟩
  intro u m' hr
  obtain ⟨_, _, rfl⟩ := returns_lockerEnd hr
  exact h _ hP

end Acid.Locked

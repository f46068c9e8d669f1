import Acid.OrderedCollector
import Acid.SoundCounting
import Mathlib.Order.Filter.AtTopBot.Basic

set_option autoImplicit false

/-!
# Calls that no other thread disturbs

While no other thread changes the heap, a call with its locks does what the heap model does
in one step. The rules follow the statements of a function.
-/
namespace Acid.Locked

open Procedure PointerForest Filter

/-- The thread when `d` scopes have ended. -/
def endScopes : ℕ → Locker.Thread Lockable → Option (Locker.Thread Lockable)
  | 0, t => some t
  | d + 1, t => (Locker.lockerEnd t).bind (endScopes d)

/-- On the heap `s`, with `d` open scopes to end, `p` returns `a` and leaves the heap `s'`, and the
thread as it is when it has ended these scopes and no more. No link lacks its target. -/
def Computes {α : Type} (d : ℕ) (p : Proc α) (s : State) (a : α) (s' : State) : Prop :=
  ∀ (m : Machine) (t : Locker.Thread Lockable), m.heap = s → (∀ l, m.nullTarget l = false) →
    endScopes d m.thread = some t →
    ∃ m', Returns p m a m' ∧ m'.heap = s' ∧ (∀ l, m'.nullTarget l = false) ∧ m'.thread = t

def Setting.within (p : Setting) (n : ℕ) : Setting := { p with bound := n }

section
variable {α β : Type} {d : ℕ} {s s' s'' : State} {a : α} {b : β}

theorem computes_pure (a : α) : Computes 0 (pure a) s a s := by
  intro m t hm hn ht
  exact ⟨m, returns_pure.mpr ⟨rfl, rfl⟩, hm, hn, Option.some.inj ht⟩

theorem Computes.bind {p : Proc α} {f : α → Proc β} (hp : Computes 0 p s a s')
    (hf : Computes d (f a) s' b s'') : Computes d (p >>= f) s b s'' := by
  intro m t hm hn ht
  obtain ⟨m1, hr1, hm1, hn1, ht1⟩ := hp m m.thread hm hn rfl
  obtain ⟨m2, hr2, hm2, hn2, ht2⟩ := hf m1 t hm1 hn1 (by rw [ht1, ht])
  exact ⟨m2, returns_bind.mpr ⟨a, m1, hr1, hr2⟩, hm2, hn2, ht2⟩

theorem Computes.gets {f : State → α} {g : α → Proc β} (h : Computes d (g (f s)) s b s') :
    Computes d (Locked.gets f >>= g) s b s' := by
  intro m t hm hn ht
  obtain ⟨m', hr, hrest⟩ := h m t hm hn ht
  refine ⟨m', returns_gets.mpr ?_, hrest⟩
  rw [hm]
  exact hr

theorem computes_gets (f : State → α) : Computes 0 (Locked.gets f) s (f s) s := by
  intro m t hm hn ht
  exact ⟨m, returns_read.mpr ⟨by rw [hm], rfl⟩, hm, hn, Option.some.inj ht⟩

theorem Computes.call {f : State → State × α} {g : α → Proc β}
    (h : Computes d (g (f s).2) (f s).1 b s') : Computes d (Locked.call f >>= g) s b s' := by
  intro m t hm hn ht
  obtain ⟨m', hr, hrest⟩ := h { m with heap := (f m.heap).1 } t (by rw [hm]) hn ht
  refine ⟨m', returns_bind.mpr ⟨_, _, returns_act.mpr ⟨rfl, rfl⟩, ?_⟩, hrest⟩
  rw [hm] at hr ⊢
  exact hr

theorem computes_modify (f : State → State) : Computes 0 (Locked.modify f) s () (f s) := by
  intro m t hm hn ht
  exact ⟨_, returns_write.mpr rfl, by rw [hm], hn, Option.some.inj ht⟩

theorem Computes.modify {f : State → State} {g : Unit → Proc β} (h : Computes d (g ()) (f s) b s') :
    Computes d (Locked.modify f >>= g) s b s' :=
  (computes_modify f).bind h

theorem Computes.assertion {p : State → Prop} [DecidablePred p] {e : Assertion}
    {g : Unit → Proc β} (h : Computes d (g ()) (s.check (p s) (.assertFailed e)) b s') :
    Computes d (Locked.assertion p e >>= g) s b s' :=
  (computes_modify _).bind h

theorem computes_assertion (p : State → Prop) [DecidablePred p] (e : Assertion) :
    Computes 0 (Locked.assertion p e) s () (s.check (p s) (.assertFailed e)) :=
  computes_modify _

theorem computes_idlockInit (k : Lockable) : Computes 0 (idlockInit k) s () s := by
  intro m t hm hn ht
  exact ⟨_, returns_write.mpr rfl, hm, hn, Option.some.inj ht⟩

/-- The scope that the start opens is the first one to end. -/
theorem Computes.start {locks : List (Option Lockable)} {g : Unit → Proc β}
    (len : locks.length ≤ 4) (h : Computes (d + 1) (g ()) s b s') :
    Computes d (lockerStart locks >>= g) s b s' := by
  intro m t hm hn ht
  have hstart := Locker.lockerStart_eq m.id m.thread len
  have hends : endScopes (d + 1) { m.thread.plus (Locker.lockSet m.id locks) with
      stack := Locker.lockSet m.id locks :: m.thread.stack } = some t := by
    rw [endScopes, Locker.lockerEnd_plus, Option.bind_some, ht]
  obtain ⟨m', hr, hrest⟩ := h { m with
    calls := .start locks :: m.calls
    thread := { m.thread.plus (Locker.lockSet m.id locks) with
      stack := Locker.lockSet m.id locks :: m.thread.stack } } t hm hn hends
  refine ⟨m', returns_bind.mpr ⟨(), _, returns_attempt.mpr ?_, hr⟩, hrest⟩
  dsimp only
  rw [hstart]

theorem Computes.stop {g : Unit → Proc β} (h : Computes d (g ()) s b s') :
    Computes (d + 1) (lockerEnd >>= g) s b s' := by
  intro m t hm hn ht
  obtain ⟨u, hend, hu⟩ := Option.bind_eq_some_iff.mp ht
  obtain ⟨m', hr, hrest⟩ := h { m with
    calls := .stop :: m.calls
    thread := u } t hm hn hu
  refine ⟨m', returns_bind.mpr ⟨(), _, returns_attempt.mpr ?_, hr⟩, hrest⟩
  dsimp only
  rw [hend]

theorem computes_lockerEnd : Computes 1 lockerEnd s () s := by
  have h : Computes 1 (lockerEnd >>= fun u => pure u) s () s := .stop (computes_pure ())
  rwa [bind_pure] at h

section
variable {g : Unit → Proc β} (i j k l : Option Lockable)

theorem Computes.start1 (h : Computes (d + 1) (g ()) s b s') :
    Computes d (lockerStart [i] >>= g) s b s' := .start (show 1 ≤ 4 by omega) h

theorem Computes.start2 (h : Computes (d + 1) (g ()) s b s') :
    Computes d (lockerStart [i, j] >>= g) s b s' := .start (show 2 ≤ 4 by omega) h

theorem Computes.start3 (h : Computes (d + 1) (g ()) s b s') :
    Computes d (lockerStart [i, j, k] >>= g) s b s' := .start (show 3 ≤ 4 by omega) h

theorem Computes.start4 (h : Computes (d + 1) (g ()) s b s') :
    Computes d (lockerStart [i, j, k, l] >>= g) s b s' := .start (show 4 ≤ 4 by omega) h

end

theorem Computes.target {lk : ℕ} {g : Option ℕ → Proc β}
    (h : Computes d (g (some (s.links lk).target)) s b s') :
    Computes d (linkTarget lk >>= g) s b s' := by
  intro m t hm hn ht
  obtain ⟨m', hr, hrest⟩ := h m t hm hn ht
  refine ⟨m', returns_read_bind.mpr ?_, hrest⟩
  have htarget : m.toMemory.target lk = some (s.links lk).target := by
    rw [Memory.target, hn lk, if_neg Bool.false_ne_true, hm]
  rw [htarget]
  exact hr

/-- Where a link is missing, so is its target. -/
theorem Computes.targetOf {o : Option ℕ} {g : Option ℕ → Proc β}
    (h : Computes d (g (o.map fun l => (s.links l).target)) s b s') :
    Computes d (read (fun m => o.bind m.toMemory.target) >>= g) s b s' := by
  cases o with
  | none =>
    exact fun m t hm hn ht => h m t hm hn ht
  | some l => exact Computes.target h

/-- A loop that has one iteration more to go needs a bound one larger. -/
theorem eventually_succ {P : ℕ → Prop} (h : ∀ᶠ n in atTop, P n) :
    ∀ᶠ n in atTop, ∃ k, n = k + 1 ∧ P k := by
  obtain ⟨N, hN⟩ := eventually_atTop.mp h
  exact eventually_atTop.mpr ⟨N + 1, fun n hn => ⟨n - 1, by omega, hN _ (by omega)⟩⟩

theorem Computes.forM {γ : Type} {f : γ → State → State} {p : ℕ → γ → Proc PUnit}
    {P : State → Prop} (hf : ∀ x u, P u → (∀ᶠ n in atTop, Computes 0 (p n x) u ⟨⟩ (f x u)) ∧ P (f x u))
    (xs : List γ) : ∀ u, P u →
      ∀ᶠ n in atTop, Computes 0 (xs.forM (p n)) u ⟨⟩ (xs.foldl (fun v x => f x v) u) := by
  induction xs with
  | nil => exact fun u _ => .of_forall fun _ => computes_pure _
  | cons x xs ih =>
    intro u hu
    obtain ⟨hx, hnext⟩ := hf x u hu
    filter_upwards [hx, ih _ hnext] with n h1 h2
    exact h1.bind h2

end

end Acid.Locked

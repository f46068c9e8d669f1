import Acid.LockScopes

set_option autoImplicit false

/-!
# Lock scopes over the calls of the four files
-/
namespace Acid.Locked

open Procedure

/-- The calls of the functions of `object.c`, `link.c`, `collector.c` and `safelist.c`. -/
inductive Call where
  | hashtableHashOffset (key len seed : ℕ)
  | objectSetCollector (obj : ℕ) (c : Option ℕ)
  | objectInit
  | objectInitStrong
  | objectDel (obj : ℕ)
  | objectRemoveLinks (obj : ℕ)
  | objectRequestDeleteTaskRun (obj : ℕ)
  | objectRequestDelete (obj : ℕ)
  | objectDec (obj : ℕ) (w : Bool)
  | objectDecPhantom (obj : ℕ)
  | objectDecStrong (obj : ℕ)
  | objectIncStrong (obj : ℕ)
  | objectPhantomizeNode (obj : ℕ)
  | objectRebuildLink (rebuildNext : ListRef) (lk : ℕ)
  | objectRecoverNode (obj cptr : ℕ)
  | objectCleanNode (obj : ℕ)
  | objectMergeCollectors (obj target : ℕ)
  | objectGet (obj fieldOffset : ℕ)
  | objectSet (obj fieldOffset : ℕ) (referent : Option ℕ)
  | linkCreate (src : ℕ) (target : Option ℕ)
  | linkDestroy (lk : ℕ)
  | linkPhantomize (lk : ℕ)
  | linkDec (lk : ℕ)
  | collectorCreate
  | collectorDestroy (c : ℕ)
  | collectorTerminate (c : ℕ)
  | collectorSetForward (c : ℕ) (f : Option ℕ)
  | collectorAddObject (c obj : ℕ)
  | collectorRun (c : ℕ)
  | collectorForwardSafelistsTo (c s : ℕ)
  | collectorMerge (c s : ℕ)
  | collectorEquals (c1 c2 : Option ℕ)
  | collectorUpdate (c : Option ℕ)
  | safelistInit (sl : ListRef)
  | safelistDeinit (sl : ListRef)
  | safelistAdd (sl : ListRef) (datum : ℕ)
  | safelistSize (sl : ListRef)
  | safelistIsEmpty (sl : ListRef)
  | safelistPoll (sl : ListRef)
  | safelistForward (sl : ListRef) (forwardTo : Option ListRef)
  | safelistForwardsTo (sl : ListRef) (forward : Option ListRef)

def ignore {α : Type} (p : Proc α) : Proc Unit := do
  let _ ← p
  pure ()

/-- The call, less its result. -/
def Call.run (p : Setting) : Call → Proc Unit
  | .hashtableHashOffset key len seed => ignore (Locked.hashtableHashOffset key len seed)
  | .objectSetCollector obj c => Locked.objectSetCollector obj c
  | .objectInit => ignore Locked.objectInit
  | .objectInitStrong => ignore Locked.objectInitStrong
  | .objectDel obj => Locked.objectDel p obj
  | .objectRemoveLinks obj => Locked.objectRemoveLinks p.bound obj
  | .objectRequestDeleteTaskRun obj => ignore (Locked.objectRequestDeleteTaskRun p obj)
  | .objectRequestDelete obj => Locked.objectRequestDelete obj
  | .objectDec obj w => Locked.objectDec p.bound obj w
  | .objectDecPhantom obj => Locked.objectDecPhantom obj
  | .objectDecStrong obj => Locked.objectDecStrong p.bound obj
  | .objectIncStrong obj => Locked.objectIncStrong obj
  | .objectPhantomizeNode obj => Locked.objectPhantomizeNode p obj
  | .objectRebuildLink rebuildNext lk => Locked.objectRebuildLink p.bound rebuildNext lk
  | .objectRecoverNode obj cptr => Locked.objectRecoverNode p.bound obj cptr
  | .objectCleanNode obj => Locked.objectCleanNode p.bound obj
  | .objectMergeCollectors obj target => ignore (Locked.objectMergeCollectors p.bound obj target)
  | .objectGet obj fieldOffset => ignore (Locked.objectGet obj fieldOffset)
  | .objectSet obj fieldOffset referent => Locked.objectSet p.bound obj fieldOffset referent
  | .linkCreate src target => ignore (Locked.linkCreate src target)
  | .linkDestroy lk => Locked.linkDestroy p.bound lk
  | .linkPhantomize lk => Locked.linkPhantomize p lk
  | .linkDec lk => Locked.linkDec p.bound lk
  | .collectorCreate => ignore Locked.collectorCreate
  | .collectorDestroy c => Locked.collectorDestroy c
  | .collectorTerminate c => Locked.collectorTerminate c
  | .collectorSetForward c f => Locked.collectorSetForward c f
  | .collectorAddObject c obj => Locked.collectorAddObject p.bound c obj
  | .collectorRun c => ignore (Locked.collectorRun p c)
  | .collectorForwardSafelistsTo c s => Locked.collectorForwardSafelistsTo p.bound c s
  | .collectorMerge c s => Locked.collectorMerge p.bound c s
  | .collectorEquals c1 c2 => ignore (Locked.collectorEquals p.bound c1 c2)
  | .collectorUpdate c => ignore (Locked.collectorUpdate p.bound c)
  | .safelistInit sl => Locked.safelistInit sl
  | .safelistDeinit sl => Locked.safelistDeinit sl
  | .safelistAdd sl datum => Locked.safelistAdd p.bound sl datum
  | .safelistSize sl => ignore (Locked.safelistSize sl)
  | .safelistIsEmpty sl => ignore (Locked.safelistIsEmpty sl)
  | .safelistPoll sl => ignore (Locked.safelistPoll sl)
  | .safelistForward sl forwardTo => Locked.safelistForward p.bound sl forwardTo
  | .safelistForwardsTo sl forward => ignore (Locked.safelistForwardsTo sl forward)

theorem Balanced.ignore {α : Type} {p : Proc α} (h : Balanced p) : Balanced (Locked.ignore p) :=
  Keeps.bind h fun _ => keeps_pure ()

/-- Every function but `collector_equals` ends the scopes that it starts. -/
theorem Call.balanced {p : Setting} (hd : ∀ obj, Balanced (p.dtor obj)) {call : Call}
    (h : ∀ c1 c2, call ≠ .collectorEquals c1 c2) : Balanced (call.run p) := by
  cases call with
  | hashtableHashOffset key len seed => exact Balanced.ignore (keeps_pure key)
  | objectSetCollector obj c => exact balanced_objectSetCollector obj c
  | objectInit => exact balanced_objectInit.ignore
  | objectInitStrong => exact balanced_objectInitStrong.ignore
  | objectDel obj => exact balanced_objectDel hd obj
  | objectRemoveLinks obj => exact balanced_objectRemoveLinks _ obj
  | objectRequestDeleteTaskRun obj => exact (balanced_objectRequestDeleteTaskRun hd obj).ignore
  | objectRequestDelete obj => exact balanced_objectRequestDelete obj
  | objectDec obj w => exact balanced_objectDec _ obj w
  | objectDecPhantom obj => exact balanced_objectDecPhantom obj
  | objectDecStrong obj => exact balanced_objectDecStrong _ obj
  | objectIncStrong obj => exact balanced_objectIncStrong obj
  | objectPhantomizeNode obj => exact balanced_objectPhantomizeNode p obj
  | objectRebuildLink rebuildNext lk => exact balanced_objectRebuildLink _ rebuildNext lk
  | objectRecoverNode obj cptr => exact balanced_objectRecoverNode _ obj cptr
  | objectCleanNode obj => exact balanced_objectCleanNode _ obj
  | objectMergeCollectors obj target => exact (balanced_objectMergeCollectors _ obj target).ignore
  | objectGet obj fieldOffset => exact (balanced_objectGet obj fieldOffset).ignore
  | objectSet obj fieldOffset referent => exact balanced_objectSet _ obj fieldOffset referent
  | linkCreate src target => exact (balanced_linkCreate src target).ignore
  | linkDestroy lk => exact balanced_linkDestroy _ lk
  | linkPhantomize lk => exact balanced_linkPhantomize p lk
  | linkDec lk => exact balanced_linkDec _ lk
  | collectorCreate => exact balanced_collectorCreate.ignore
  | collectorDestroy c => exact balanced_collectorDestroy c
  | collectorTerminate c => exact balanced_collectorTerminate c
  | collectorSetForward c f => exact balanced_collectorSetForward c f
  | collectorAddObject c obj => exact balanced_collectorAddObject _ c obj
  | collectorRun c => exact (balanced_collectorRun p c).ignore
  | collectorForwardSafelistsTo c s => exact balanced_collectorForwardSafelistsTo _ c s
  | collectorMerge c s => exact balanced_collectorMerge _ c s
  | collectorEquals c1 c2 => exact (h c1 c2 rfl).elim
  | collectorUpdate c => exact (balanced_collectorUpdate _ c).ignore
  | safelistInit sl => exact balanced_safelistInit sl
  | safelistDeinit sl => exact balanced_safelistDeinit sl
  | safelistAdd sl datum => exact balanced_safelistAdd _ sl datum
  | safelistSize sl => exact (balanced_safelistSize sl).ignore
  | safelistIsEmpty sl => exact (balanced_safelistIsEmpty sl).ignore
  | safelistPoll sl => exact (balanced_safelistPoll sl).ignore
  | safelistForward sl forwardTo => exact balanced_safelistForward _ sl forwardTo
  | safelistForwardsTo sl forward => exact Balanced.ignore (balanced_gets _)

/-! ## `collector_equals` -/

/-- The arguments that `collector_equals` compares without following a forward pointer. -/
def Direct (s : State) (c1 c2 : Option ℕ) : Prop :=
  c1 = c2 ∨ c1.bind s.forward = none ∧ c2.bind s.forward = none

theorem start_inv {α : Type} {a b : Option Lockable} {f : Unit → Proc α} {m m' : Machine} {x : α}
    (h : Returns (lockerStart [a, b] >>= f) m x m') :
    ∃ m₁ : Machine, m₁.heap = m.heap ∧ Locker.lockerEnd m₁.thread = some m.thread ∧
      m₁.thread.stack.length = m.thread.stack.length + 1 ∧ Returns (f ()) m₁ x m' := by
  obtain ⟨_, m₁, h1, h2⟩ := returns_bind.mp h
  refine ⟨m₁, lockerStart_heap h1, ?_, ?_, h2⟩
  all_goals
    obtain ⟨t, hstart, rfl⟩ := returns_lockerStart h1
    rw [Locker.lockerStart_eq m.id m.thread (show [a, b].length ≤ 4 by simp),
      Option.some.injEq] at hstart
    rw [← hstart]
  · exact Locker.lockerEnd_plus m.thread _
  · rfl

/-- One iteration: the call returns with its scope ended, or it goes on with one more open. -/
theorem collectorEquals_iteration {n : ℕ} {c1 c2 : Option ℕ} {m m' : Machine} {b : Bool}
    (h : Returns (collectorEquals (n + 1) c1 c2) m b m') :
    Direct m.heap c1 c2 ∧ m'.thread = m.thread ∨
      ¬ Direct m.heap c1 c2 ∧ ∃ (d1 d2 : Option ℕ) (m₁ : Machine),
        m₁.thread.stack.length = m.thread.stack.length + 1 ∧
        Returns (collectorEquals n d1 d2) m₁ b m' := by
  obtain ⟨m₁, hheap, hend, hlen, h⟩ := start_inv h
  have hstop : ∀ e : Bool, Returns (do lockerEnd; pure e) m₁ b m' → m'.thread = m.thread := by
    intro e h
    have := Closes.stop (closes_pure e) _ _ _ h
    rw [lockerEnds, hend] at this
    exact (Option.some.inj this).symm
  by_cases heq : c1 = c2
  · rw [if_pos heq] at h
    exact .inl ⟨.inl heq, hstop true h⟩
  rw [if_neg heq, returns_gets, hheap] at h
  cases h1 : c1.bind m.heap.forward with
  | some d =>
    rw [h1] at h
    refine .inr ⟨?_, some d, c2, m₁, hlen, h⟩
    rintro (hd | ⟨hd, -⟩)
    · exact heq hd
    · rw [h1] at hd
      cases hd
  | none =>
    rw [h1] at h
    change Returns (gets (fun s => c2.bind s.forward) >>= _) m₁ b m' at h
    rw [returns_gets, hheap] at h
    cases h2 : c2.bind m.heap.forward with
    | some d =>
      rw [h2] at h
      refine .inr ⟨?_, c1, some d, m₁, hlen, h⟩
      rintro (hd | ⟨-, hd⟩)
      · exact heq hd
      · rw [h2] at hd
        cases hd
    | none =>
      rw [h2] at h
      exact .inl ⟨.inr ⟨h1, h2⟩, hstop false h⟩

/-- No iteration of `collector_equals` ends a scope that it has not started. -/
theorem collectorEquals_stack (n : ℕ) : ∀ (c1 c2 : Option ℕ) (m m' : Machine) (b : Bool),
    Returns (collectorEquals n c1 c2) m b m' →
      m.thread.stack.length ≤ m'.thread.stack.length := by
  induction n with
  | zero =>
    intro c1 c2 m m' b h
    exact (not_returns_failure h).elim
  | succ n ih =>
    intro c1 c2 m m' b h
    rcases collectorEquals_iteration h with ⟨_, heq⟩ | ⟨_, d1, d2, m₁, hlen, h⟩
    · rw [heq]
    · have := ih d1 d2 m₁ m' b h
      omega

theorem collectorEquals_thread {n : ℕ} {c1 c2 : Option ℕ} {m m' : Machine} {b : Bool}
    (h : Returns (collectorEquals n c1 c2) m b m') :
    (m'.thread.stack = m.thread.stack ↔ Direct m.heap c1 c2) ∧
      (Direct m.heap c1 c2 → m'.thread = m.thread) := by
  cases n with
  | zero => exact (not_returns_failure h).elim
  | succ n =>
    rcases collectorEquals_iteration h with ⟨hd, heq⟩ | ⟨hd, d1, d2, m₁, hlen, h⟩
    · exact ⟨iff_of_true (congrArg _ heq) hd, fun _ => heq⟩
    · refine ⟨iff_of_false ?_ hd, fun hdirect => (hd hdirect).elim⟩
      intro heq
      have := collectorEquals_stack n d1 d2 m₁ m' b h
      rw [heq] at this
      omega

/-- A call that returns leaves the thread's stack as it was exactly where it is not a
`collector_equals` with a forward pointer to follow, and then it leaves every lock as it was. The
client's destructors are taken to end the scopes that they start. -/
theorem lockScopes_balance (p : Setting) (hd : ∀ obj, Balanced (p.dtor obj)) (call : Call)
    (m m' : Machine) (h : Returns (call.run p) m () m') :
    (m'.thread.stack = m.thread.stack ↔ ∀ c1 c2, call = .collectorEquals c1 c2 →
      c1 = c2 ∨ c1.bind m.heap.forward = none ∧ c2.bind m.heap.forward = none) ∧
    (m'.thread.stack = m.thread.stack → ∀ k, m'.thread.hold k = m.thread.hold k) := by
  by_cases hc : ∃ c1 c2, call = .collectorEquals c1 c2
  · obtain ⟨c1, c2, rfl⟩ := hc
    obtain ⟨b, m₁, h1, h2⟩ := returns_bind.mp h
    obtain ⟨hiff, hthread⟩ := collectorEquals_thread h1
    rw [(returns_pure.mp h2).2, hiff]
    constructor
    · constructor
      · intro hdirect d1 d2 heq
        cases heq
        exact hdirect
      · intro hcond
        exact hcond c1 c2 rfl
    · intro hdirect k
      rw [hthread hdirect]
  · have hne : ∀ c1 c2, call ≠ .collectorEquals c1 c2 := fun c1 c2 heq => hc ⟨c1, c2, heq⟩
    have hthread : m'.thread = m.thread := Call.balanced hd hne m () m' h
    constructor
    · apply iff_of_true (congrArg _ hthread)
      intro c1 c2 heq
      exact (hne c1 c2 heq).elim
    · intro _ k
      rw [hthread]

/-- Two objects with a collector each, the first of which forwards to the second. -/
def forwarding : Machine where
  heap :=
    { objects := fun o => { collector := some o }
      objectCount := 2
      collectors := fun c =>
        { forward := if c = 0 then some 1 else none
          lists := fun l => { forward := if c = 0 then some (1, route l) else none } }
      numCollector := 2 }
  id := fun
    | .object o => 3 * o + 1
    | .collector c => 3 * c + 2
    | .safelist r => 3 * r.1 + 3

def plain : Setting where
  bound := 4
  ndebug := false
  dtor := fun _ => pure ()

theorem returns_of_some {p : Proc Unit} {m : Machine} (h : (outcome p m).1.isSome) :
    Returns p m () (outcome p m).2 := by
  obtain ⟨u, hu⟩ := Option.isSome_iff_exists.mp h
  exact Prod.ext hu rfl

theorem lockScopes_balance_merge :
    ∃ m', Returns ((Call.objectMergeCollectors 0 1).run plain) forwarding () m' ∧
      m'.thread.stack = [] ∧ ∀ k, m'.thread.hold k = 0 := by
  have hret := returns_of_some (p := (Call.objectMergeCollectors 0 1).run plain) (m := forwarding)
    (by decide)
  have h := lockScopes_balance plain (fun _ => keeps_pure ()) (.objectMergeCollectors 0 1)
    forwarding _ hret
  have hstack := h.1.mpr (fun c1 c2 heq => by cases heq)
  exact ⟨_, hret, hstack, h.2 hstack⟩

/-- `collector_equals` on a collector and the one that it forwards to returns with the first
scope open. -/
theorem collectorEquals_leavesScope :
    ¬ ∀ (p : Setting), (∀ obj, Balanced (p.dtor obj)) → ∀ (call : Call) (m m' : Machine),
      Returns (call.run p) m () m' → m'.thread.stack = m.thread.stack := by
  intro h
  have hret : (outcome ((Call.collectorEquals (some 0) (some 1)).run plain) forwarding).1.isSome := by
    decide
  have := h plain (fun _ => keeps_pure ()) _ forwarding _ (returns_of_some hret)
  revert this
  decide

end Acid.Locked

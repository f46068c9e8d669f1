import Acid.LockedObject
import Acid.Merging

set_option autoImplicit false

/-!
# The scopes of `locker_start` and `locker_end`

`Closes n p` says that a run of `p` ends `n` scopes more than it starts. The
rules follow the statements of a function; a function whose scopes balance
closes none.
-/
namespace Acid.Locked

open Procedure

variable {α β : Type}

/-- The thread after `n` calls of `locker_end`. -/
def lockerEnds : ℕ → Locker.Thread Lockable → Option (Locker.Thread Lockable)
  | 0, t => some t
  | n + 1, t => (Locker.lockerEnd t).bind (lockerEnds n)

def Closes (n : ℕ) (p : Proc α) : Prop :=
  ∀ m a m', Returns p m a m' → lockerEnds n m.thread = some m'.thread

/-- The thread holds after a call what it held before. -/
def Balanced (p : Proc α) : Prop := Keeps Machine.thread p

theorem Closes.balanced {p : Proc α} (h : Closes 0 p) : Balanced p := by
  intro m a m' hr
  exact (Option.some.inj (h m a m' hr)).symm

theorem Balanced.closes {p : Proc α} (h : Balanced p) : Closes 0 p := by
  intro m a m' hr
  exact congrArg some (h m a m' hr).symm

theorem returns_lockerStart {locks : List (Option Lockable)} {m m' : Machine} {u : Unit}
    (h : Returns (lockerStart locks) m u m') :
    ∃ t, Locker.lockerStart m.id m.thread locks = some t ∧
      m' = { m with calls := .start locks :: m.calls, thread := t } := by
  have hm := returns_attempt.mp h
  simp only at hm
  cases hs : Locker.lockerStart m.id m.thread locks with
  | none =>
    rw [hs] at hm
    cases hm
  | some t =>
    rw [hs] at hm
    exact ⟨t, rfl, (Except.ok.inj hm).symm⟩

theorem returns_lockerEnd {m m' : Machine} {u : Unit} (h : Returns lockerEnd m u m') :
    ∃ t, Locker.lockerEnd m.thread = some t ∧
      m' = { m with calls := .stop :: m.calls, thread := t } := by
  have hm := returns_attempt.mp h
  simp only at hm
  cases hs : Locker.lockerEnd m.thread with
  | none =>
    rw [hs] at hm
    cases hm
  | some t =>
    rw [hs] at hm
    exact ⟨t, rfl, (Except.ok.inj hm).symm⟩

theorem returns_gets {f : State → α} {g : α → Proc β} {m m' : Machine} {b : β} :
    Returns (gets f >>= g) m b m' ↔ Returns (g (f m.heap)) m b m' := Iff.rfl

theorem closes_pure (a : α) : Closes 0 (pure a : Proc α) := Balanced.closes (keeps_pure a)

theorem closes_failure (n : ℕ) : Closes n (failure : Proc α) := by
  intro m a m' h
  exact (not_returns_failure h).elim

theorem Closes.bind {n : ℕ} {p : Proc α} {f : α → Proc β} (hp : Balanced p)
    (hf : ∀ a, Closes n (f a)) : Closes n (p >>= f) := by
  intro m b m'' h
  obtain ⟨a, m', h1, h2⟩ := returns_bind.mp h
  rw [← hp m a m' h1]
  exact hf a m' b m'' h2

/-- `locker_end` takes back exactly what `locker_start` has done. -/
theorem Closes.start {n : ℕ} {locks : List (Option Lockable)} {f : Unit → Proc α}
    (len : locks.length ≤ 4) (hf : Closes (n + 1) (f ())) :
    Closes n (lockerStart locks >>= f) := by
  intro m b m'' h
  obtain ⟨u, m', h1, h2⟩ := returns_bind.mp h
  obtain ⟨t, hstart, rfl⟩ := returns_lockerStart h1
  rw [Locker.lockerStart_eq m.id m.thread len] at hstart
  have hend : Locker.lockerEnd t = some m.thread := by
    rw [← Option.some.inj hstart]
    exact Locker.lockerEnd_plus m.thread _
  have := hf _ b m'' h2
  rwa [lockerEnds, hend, Option.bind_some] at this

section
variable {n : ℕ} {f : Unit → Proc α} (a b c d : Option Lockable)

theorem Closes.start1 (h : Closes (n + 1) (f ())) : Closes n (lockerStart [a] >>= f) :=
  .start (show 1 ≤ 4 by omega) h

theorem Closes.start2 (h : Closes (n + 1) (f ())) : Closes n (lockerStart [a, b] >>= f) :=
  .start (show 2 ≤ 4 by omega) h

theorem Closes.start3 (h : Closes (n + 1) (f ())) : Closes n (lockerStart [a, b, c] >>= f) :=
  .start (show 3 ≤ 4 by omega) h

theorem Closes.start4 (h : Closes (n + 1) (f ())) : Closes n (lockerStart [a, b, c, d] >>= f) :=
  .start (show 4 ≤ 4 by omega) h

end

theorem Closes.stop {n : ℕ} {f : Unit → Proc α} (hf : Closes n (f ())) :
    Closes (n + 1) (lockerEnd >>= f) := by
  intro m b m'' h
  obtain ⟨u, m', h1, h2⟩ := returns_bind.mp h
  obtain ⟨t, hend, rfl⟩ := returns_lockerEnd h1
  rw [lockerEnds, hend, Option.bind_some]
  exact hf _ b m'' h2

theorem closes_lockerEnd : Closes 1 lockerEnd := by
  intro m u m' h
  obtain ⟨t, hend, rfl⟩ := returns_lockerEnd h
  rw [lockerEnds, hend]
  rfl

theorem Closes.ite {n : ℕ} {p q : Proc α} {c : Prop} [Decidable c] (hp : Closes n p)
    (hq : Closes n q) : Closes n (if c then p else q) := by
  by_cases h : c
  · rwa [if_pos h]
  · rwa [if_neg h]

theorem balanced_gets (f : State → α) : Balanced (gets f) := keeps_read _

theorem balanced_modify (f : State → State) : Balanced (modify f) := keeps_write fun _ => rfl

theorem balanced_call (f : State → State × α) : Balanced (call f) := keeps_act fun _ => rfl

theorem balanced_assertion (p : State → Prop) [DecidablePred p] (a : Assertion) :
    Balanced (assertion p a) := balanced_modify _

theorem balanced_idlockInit (k : Lockable) : Balanced (idlockInit k) := keeps_write fun _ => rfl

theorem Closes.gets {n : ℕ} {f : State → α} {g : α → Proc β} (h : ∀ a, Closes n (g a)) :
    Closes n (gets f >>= g) := .bind (balanced_gets f) h

theorem Closes.modify {n : ℕ} {f : State → State} {g : Unit → Proc β} (h : Closes n (g ())) :
    Closes n (modify f >>= g) := .bind (balanced_modify f) fun _ => h

theorem Closes.assertion {n : ℕ} {p : State → Prop} [DecidablePred p] {a : Assertion}
    {g : Unit → Proc β} (h : Closes n (g ())) : Closes n (assertion p a >>= g) :=
  .bind (balanced_assertion p a) fun _ => h

/-! ## `safelist.c` -/

theorem balanced_safelistInit (sl : ListRef) : Balanced (safelistInit sl) :=
  (balanced_idlockInit _).bind fun _ => balanced_modify _

theorem balanced_safelistDeinit (sl : ListRef) : Balanced (safelistDeinit sl) := balanced_modify _

theorem balanced_safelistChase (n : ℕ) : ∀ f, Balanced (safelistChase n f) := by
  induction n with
  | zero =>
    intro f
    exact keeps_failure
  | succ n ih =>
    intro f
    apply (balanced_gets _).bind
    rintro (_ | g)
    · exact keeps_pure f
    · exact ih g

theorem balanced_safelistAdd (n : ℕ) : ∀ sl datum, Balanced (safelistAdd n sl datum) := by
  induction n with
  | zero =>
    intro sl datum
    exact keeps_failure
  | succ n ih =>
    intro sl datum
    apply Closes.balanced
    apply Closes.start1
    apply Closes.gets
    intro f
    apply Closes.modify
    apply Closes.stop
    cases f with
    | none => exact closes_pure ()
    | some f =>
      apply Closes.bind (balanced_safelistChase n f)
      intro g
      exact (ih g datum).closes

theorem balanced_safelistSize (sl : ListRef) : Balanced (safelistSize sl) := by
  apply Closes.balanced
  apply Closes.start1
  apply Closes.gets
  intro retval
  apply Closes.stop
  exact closes_pure retval

theorem balanced_safelistIsEmpty (sl : ListRef) : Balanced (safelistIsEmpty sl) :=
  (balanced_safelistSize sl).bind fun _ => keeps_pure _

theorem balanced_safelistPoll (sl : ListRef) : Balanced (safelistPoll sl) := by
  apply Closes.balanced
  apply Closes.start1
  apply Closes.bind (balanced_call _)
  intro retval
  apply Closes.stop
  exact closes_pure retval

theorem balanced_pollLoop (sl : ListRef) {body : ℕ → Proc Unit} (hb : ∀ obj, Balanced (body obj))
    (n : ℕ) : Balanced (pollLoop sl body n) := by
  induction n with
  | zero => exact keeps_failure
  | succ n ih =>
    apply (balanced_safelistPoll sl).bind
    rintro (_ | obj)
    · exact keeps_pure ()
    · exact (hb obj).bind fun _ => ih

theorem balanced_safelistForward (n : ℕ) (sl : ListRef) (forwardTo : Option ListRef) :
    Balanced (safelistForward n sl forwardTo) := by
  apply Closes.balanced
  apply Closes.start2
  apply Closes.bind (balanced_pollLoop sl _ n)
  · intro _
    apply Closes.modify
    exact closes_lockerEnd
  · intro obj
    cases forwardTo with
    | none => exact keeps_failure
    | some dest => exact balanced_safelistAdd n dest obj

/-! ## `collector.c` -/

theorem balanced_objectSetCollector (obj : ℕ) (c : Option ℕ) :
    Balanced (objectSetCollector obj c) := by
  apply Closes.balanced
  apply Closes.start1
  apply Closes.modify
  exact closes_lockerEnd

theorem balanced_collectorCreate : Balanced collectorCreate := by
  apply (balanced_call _).bind
  intro c
  iterate 5 apply (balanced_safelistInit _).bind; intro _
  exact (balanced_idlockInit _).bind fun _ => keeps_pure c

theorem balanced_collectorDestroy (c : ℕ) : Balanced (collectorDestroy c) := by
  iterate 5 apply (balanced_safelistDeinit _).bind; intro _
  exact balanced_modify _

theorem balanced_collectorSetForward (c : ℕ) (f : Option ℕ) :
    Balanced (collectorSetForward c f) := by
  apply Closes.balanced
  apply Closes.gets
  intro g
  apply Closes.start3
  apply Closes.gets
  intro g
  apply Closes.ite
  · exact closes_lockerEnd
  · apply Closes.modify
    apply Closes.modify
    exact closes_lockerEnd

theorem balanced_collectorTerminate (c : ℕ) : Balanced (collectorTerminate c) := by
  apply Closes.balanced
  apply Closes.gets
  intro g
  apply Closes.start2
  apply Closes.bind (balanced_collectorSetForward c none)
  intro _
  exact closes_lockerEnd

theorem balanced_collectorAddObject (n c obj : ℕ) : Balanced (collectorAddObject n c obj) := by
  suffices h : ∀ k addTo, Balanced (addObjectLoop n obj k addTo) from h n c
  intro k
  induction k with
  | zero =>
    intro addTo
    exact keeps_failure
  | succ k ih =>
    intro addTo
    apply Closes.balanced
    apply Closes.start2
    apply Closes.gets
    rintro (_ | f)
    · apply Closes.modify
      apply Closes.modify
      apply Closes.bind (balanced_safelistAdd n _ obj)
      intro _
      apply Closes.bind (balanced_objectSetCollector obj _)
      intro _
      exact closes_lockerEnd
    · apply Closes.stop
      exact (ih f).closes

theorem balanced_collectorForwardSafelistsTo (n c s : ℕ) :
    Balanced (collectorForwardSafelistsTo n c s) := by
  apply Closes.balanced
  apply Closes.start2
  iterate 5 apply Closes.bind (balanced_safelistForward n _ _); intro _
  exact closes_lockerEnd

theorem balanced_collectorMerge (n c s : ℕ) : Balanced (collectorMerge n c s) := by
  apply Closes.balanced
  apply Closes.start2
  apply Closes.bind (balanced_collectorForwardSafelistsTo n s c)
  intro _
  apply Closes.bind (balanced_collectorSetForward s _)
  intro _
  exact closes_lockerEnd

theorem balanced_collectorUpdate (n : ℕ) : ∀ c, Balanced (collectorUpdate n c) := by
  induction n with
  | zero =>
    intro c
    exact keeps_failure
  | succ n ih =>
    rintro (_ | c)
    · apply Closes.balanced
      apply Closes.start1
      exact closes_failure 1
    · apply Closes.balanced
      apply Closes.start1
      apply Closes.gets
      rintro (_ | d)
      · apply Closes.stop
        exact closes_pure c
      · apply Closes.stop
        exact (ih (some d)).closes

/-! ## `object.c` and `link.c` -/

theorem balanced_linkTarget (lk : ℕ) : Balanced (linkTarget lk) := keeps_read _

theorem balanced_linkSrc (lk : ℕ) : Balanced (linkSrc lk) := balanced_gets _

theorem balanced_objectInit : Balanced objectInit := by
  apply (balanced_call _).bind
  intro obj
  exact (balanced_idlockInit _).bind fun _ => keeps_pure obj

theorem balanced_objectIncStrong (obj : ℕ) : Balanced (objectIncStrong obj) := by
  apply Closes.balanced
  apply Closes.start1
  apply Closes.modify
  exact closes_lockerEnd

theorem balanced_objectInitStrong : Balanced objectInitStrong := by
  apply balanced_objectInit.bind
  intro o
  exact (balanced_objectIncStrong o).bind fun _ => keeps_pure o

theorem balanced_objectRequestDelete (obj : ℕ) : Balanced (objectRequestDelete obj) :=
  balanced_modify _

theorem balanced_objectDecZero (n obj : ℕ) : Balanced (objectDecZero n obj) := by
  apply (balanced_gets _).bind
  intro o
  apply Keeps.ite
  · exact balanced_objectRequestDelete obj
  · apply (balanced_gets _).bind
    rintro (_ | c)
    · apply balanced_collectorCreate.bind
      intro c
      apply (balanced_objectSetCollector obj _).bind
      intro _
      exact (balanced_modify _).bind fun _ => balanced_collectorAddObject n c obj
    · exact balanced_collectorAddObject n c obj

theorem balanced_objectDec (n obj : ℕ) (w : Bool) : Balanced (objectDec n obj w) := by
  apply Closes.balanced
  apply Closes.start1
  apply Closes.modify
  apply Closes.assertion
  apply Closes.gets
  intro o
  apply Closes.bind
  · exact Keeps.ite (balanced_objectDecZero n obj) (keeps_pure ())
  · intro _
    exact closes_lockerEnd

theorem balanced_objectDecPhantom (obj : ℕ) : Balanced (objectDecPhantom obj) := by
  apply Closes.balanced
  apply Closes.start1
  apply Closes.modify
  apply Closes.assertion
  apply Closes.gets
  intro o
  apply Closes.bind
  · apply Keeps.ite
    · exact Keeps.ite (balanced_objectRequestDelete obj) (balanced_objectSetCollector obj none)
    · exact keeps_pure ()
  · intro _
    exact closes_lockerEnd

theorem balanced_objectDecStrong (n obj : ℕ) : Balanced (objectDecStrong n obj) :=
  (balanced_gets _).bind fun w => balanced_objectDec n obj w

/-- The end of the three branches of the merge loop that set both collectors. -/
theorem closes_setCollectors {obj target : ℕ} {c : Option ℕ} {b : Bool} :
    Closes 1 (do
      objectSetCollector target c
      objectSetCollector obj c
      lockerEnd
      pure b) := by
  apply Closes.bind (balanced_objectSetCollector target c)
  intro _
  apply Closes.bind (balanced_objectSetCollector obj c)
  intro _
  apply Closes.stop
  exact closes_pure b

theorem balanced_mergeLoop (n obj target k : ℕ) :
    ∀ t c, Balanced (mergeLoop n obj target k t c) := by
  induction k with
  | zero =>
    intro t c
    exact keeps_failure
  | succ k ih =>
    intro t c
    apply Closes.balanced
    apply Closes.start4
    apply Closes.gets
    intro ft
    apply Closes.gets
    intro fc
    apply Closes.ite closes_setCollectors
    apply Closes.ite closes_setCollectors
    match ft, fc with
    | some t', _ =>
      apply Closes.stop
      exact (ih t' c).closes
    | none, some c' =>
      apply Closes.stop
      exact (ih t c').closes
    | none, none =>
      apply Closes.ite
      · apply Closes.stop
        exact closes_pure false
      · apply Closes.bind (balanced_collectorMerge n t c)
        intro _
        apply Closes.assertion
        exact closes_setCollectors

theorem balanced_objectMergeCollectors (n obj target : ℕ) :
    Balanced (objectMergeCollectors n obj target) := by
  apply (balanced_gets _).bind
  intro s
  apply (balanced_gets _).bind
  intro t
  match s, t with
  | none, none => exact keeps_pure false
  | some c, none => exact (balanced_objectSetCollector target _).bind fun _ => keeps_pure false
  | none, some t => exact (balanced_objectSetCollector obj _).bind fun _ => keeps_pure false
  | some c, some t => exact Keeps.ite (keeps_pure false) (balanced_mergeLoop n obj target n t c)

theorem balanced_linkCreate (src : ℕ) (target : Option ℕ) : Balanced (linkCreate src target) :=
  keeps_act fun _ => rfl

theorem balanced_linkDec (n lk : ℕ) : Balanced (linkDec n lk) := by
  apply (balanced_linkTarget lk).bind
  rintro (_ | target)
  · exact keeps_pure ()
  · apply Closes.balanced
    apply Closes.bind (balanced_linkSrc lk)
    intro src
    apply Closes.start2
    apply Closes.gets
    intro l
    apply Closes.bind
    · exact Keeps.ite (balanced_objectDecPhantom target) (balanced_objectDec n target l.which)
    · intro _
      exact closes_lockerEnd

theorem balanced_linkDestroy (n lk : ℕ) : Balanced (linkDestroy n lk) := by
  apply Closes.balanced
  apply Closes.bind (balanced_linkSrc lk)
  intro src
  apply Closes.start1
  apply Closes.bind (balanced_linkTarget lk)
  intro target
  apply Closes.stop
  apply Closes.bind
  · exact Keeps.ite (keeps_pure ()) (balanced_linkDec n lk)
  · intro _
    exact (balanced_modify _).closes

/-! ## What `object_merge_collectors` does to the two objects

The assertion at the end of `link_phantomize` compares their collectors, and `collector_equals`
balances where it is given the same collector twice. -/

theorem lockerStart_heap {locks : List (Option Lockable)} {m m' : Machine} {u : Unit}
    (h : Returns (lockerStart locks) m u m') : m'.heap = m.heap := by
  obtain ⟨t, -, rfl⟩ := returns_lockerStart h
  rfl

theorem lockerEnd_heap {m m' : Machine} {u : Unit} (h : Returns lockerEnd m u m') :
    m'.heap = m.heap := by
  obtain ⟨t, -, rfl⟩ := returns_lockerEnd h
  rfl

/-- The function with its locks does to the heap what the function without them does. -/
theorem objectSetCollector_heap {obj : ℕ} {c : Option ℕ} {m m' : Machine} {u : Unit}
    (h : Returns (objectSetCollector obj c) m u m') :
    m'.heap = Acid.objectSetCollector m.heap obj c := by
  obtain ⟨_, m₁, h1, h⟩ := returns_bind.mp h
  obtain ⟨_, m₂, h2, h⟩ := returns_bind.mp h
  rw [lockerEnd_heap h, returns_write.mp h2, lockerStart_heap h1]

/-- Both objects of a merge are managed by one collector, or by none. -/
def Together (obj target : ℕ) (s : State) : Prop :=
  (s.objects target).collector = (s.objects obj).collector

theorem setCollectors_together {obj target : ℕ} {c : Option ℕ} {b b' : Bool} {m m' : Machine}
    (h : Returns (do
      objectSetCollector target c
      objectSetCollector obj c
      lockerEnd
      pure b) m b' m') : Together obj target m'.heap := by
  obtain ⟨_, m₁, h1, h⟩ := returns_bind.mp h
  obtain ⟨_, m₂, h2, h⟩ := returns_bind.mp h
  obtain ⟨_, m₃, h3, h⟩ := returns_bind.mp h
  unfold Together
  rw [(returns_pure.mp h).2, lockerEnd_heap h3, objectSetCollector_heap h2,
    objectSetCollector_heap h1]
  simp only [objectSetCollector_objects]
  split_ifs <;> rfl

/-- The chase runs the first chain to its root, so the two positions meet at a root only after
one of the two branches that set both collectors. -/
theorem mergeLoop_together {n obj target : ℕ} {b : Bool} (k : ℕ) :
    ∀ (t c : ℕ) (m m' : Machine), (t = c → m.heap.forward t ≠ none) →
      Returns (mergeLoop n obj target k t c) m b m' → Together obj target m'.heap := by
  induction k with
  | zero =>
    intro t c m m' _ h
    exact (not_returns_failure h).elim
  | succ k ih =>
    intro t c m m' hne h
    obtain ⟨_, m₁, h1, h⟩ := returns_bind.mp h
    rw [returns_gets, returns_gets, lockerStart_heap h1] at h
    generalize hft : m.heap.forward t = ft at h
    generalize hfc : m.heap.forward c = fc at h
    by_cases hs : ft = some c ∧ fc = none
    · rw [if_pos hs] at h
      exact setCollectors_together h
    rw [if_neg hs] at h
    by_cases ht : fc = some t ∧ ft = none
    · rw [if_pos ht] at h
      exact setCollectors_together h
    rw [if_neg ht] at h
    match ft, fc, h with
    | some t', _, h =>
      obtain ⟨_, m₄, h4, h⟩ := returns_bind.mp h
      apply ih t' c m₄ m' _ h
      rintro rfl
      rw [lockerEnd_heap h4, lockerStart_heap h1, hfc]
      intro hroot
      exact hs ⟨rfl, hroot⟩
    | none, some c', h =>
      obtain ⟨_, m₄, h4, h⟩ := returns_bind.mp h
      apply ih t c' m₄ m' _ h
      rintro rfl
      exact (ht ⟨rfl, rfl⟩).elim
    | none, none, h =>
      by_cases hct : c = t
      · exact (hne hct.symm hft).elim
      · rw [if_neg hct] at h
        obtain ⟨_, m₄, h4, h⟩ := returns_bind.mp h
        obtain ⟨_, m₅, h5, h⟩ := returns_bind.mp h
        exact setCollectors_together h

theorem objectMergeCollectors_together {n obj target : ℕ} {b : Bool} {m m' : Machine}
    (h : Returns (objectMergeCollectors n obj target) m b m') : Together obj target m'.heap := by
  rw [objectMergeCollectors, returns_gets, returns_gets] at h
  generalize hs : (m.heap.objects obj).collector = s at h
  generalize ht : (m.heap.objects target).collector = t at h
  match s, t, h with
  | none, none, h =>
    rw [(returns_pure.mp h).2]
    exact ht.trans hs.symm
  | some c, none, h =>
    obtain ⟨_, m₃, h3, h⟩ := returns_bind.mp h
    unfold Together
    rw [(returns_pure.mp h).2, objectSetCollector_heap h3]
    simp only [objectSetCollector_collector, if_true]
    split_ifs
    · rfl
    · exact hs.symm
  | none, some t, h =>
    obtain ⟨_, m₃, h3, h⟩ := returns_bind.mp h
    unfold Together
    rw [(returns_pure.mp h).2, objectSetCollector_heap h3]
    simp only [objectSetCollector_collector, if_true]
    split_ifs
    · rfl
    · exact ht
  | some c, some t, h =>
    change Returns (if t = c then pure false else mergeLoop n obj target n t c) m b m' at h
    by_cases htc : t = c
    · rw [if_pos htc] at h
      rw [(returns_pure.mp h).2]
      unfold Together
      rw [hs, ht, htc]
    · rw [if_neg htc] at h
      exact mergeLoop_together n t c m m' (fun heq => (htc heq).elim) h

/-- `collector_equals` on one collector ends its scope in the first iteration. -/
theorem balanced_collectorEquals_self (n : ℕ) (c : Option ℕ) : Balanced (collectorEquals n c c) := by
  cases n with
  | zero => exact keeps_failure
  | succ n =>
    apply Closes.balanced
    apply Closes.start2
    rw [if_pos rfl]
    apply Closes.stop
    exact closes_pure true

/-- The merge has given both objects one collector, so the assertion keeps the scopes. -/
theorem balanced_mergeAndAssert (p : Setting) (lk src target : ℕ) :
    Balanced (do
      let _ ← objectMergeCollectors p.bound src target
      modify fun s => s.modifyLink lk fun l => { l with phantomized := true }
      assertCollectorEquals p src target) := by
  intro m u m' h
  obtain ⟨b, m₁, h1, h⟩ := returns_bind.mp h
  obtain ⟨_, m₂, h2, h⟩ := returns_bind.mp h
  have hsame : Together src target m₂.heap := by
    have : Together src target m₁.heap := objectMergeCollectors_together h1
    rwa [returns_write.mp h2]
  have hkeep : m₂.thread = m.thread := by
    rw [balanced_modify _ _ _ _ h2, balanced_objectMergeCollectors _ _ _ _ _ _ h1]
  rw [← hkeep]
  unfold assertCollectorEquals at h
  by_cases hn : p.ndebug = true
  · rw [if_pos hn] at h
    rw [(returns_pure.mp h).2]
  · rw [if_neg hn, returns_gets, returns_gets, hsame] at h
    obtain ⟨e, m₃, h3, h⟩ := returns_bind.mp h
    rw [balanced_assertion _ _ _ _ _ h, balanced_collectorEquals_self _ _ _ _ _ h3]

theorem balanced_linkPhantomize (p : Setting) (lk : ℕ) : Balanced (linkPhantomize p lk) := by
  apply Closes.balanced
  apply Closes.bind (balanced_linkSrc lk)
  intro src
  apply Closes.bind (balanced_linkTarget lk)
  intro t
  apply Closes.start2
  apply Closes.bind (balanced_linkTarget lk)
  rintro (_ | target)
  · exact closes_lockerEnd
  · apply Closes.gets
    intro phantomized
    apply Closes.ite
    · exact closes_lockerEnd
    · apply Closes.modify
      apply Closes.bind (balanced_linkDec _ lk)
      intro _
      apply Closes.assertion
      have h := Closes.bind (balanced_mergeAndAssert p lk src target) fun _ => closes_lockerEnd
      simpa only [bind_assoc] using h

theorem balanced_phantomizeSnapshot (p : Setting) (obj lk : ℕ) :
    Balanced (phantomizeSnapshot p obj lk) := by
  apply Closes.balanced
  apply Closes.bind (balanced_linkTarget lk)
  intro target
  apply Closes.start2
  apply Closes.assertion
  apply Closes.gets
  intro l
  apply Closes.bind
  · apply Keeps.ite (keeps_pure ())
    apply (balanced_assertion _ _).bind
    intro _
    exact (balanced_assertion _ _).bind fun _ => balanced_linkPhantomize p lk
  · intro _
    exact closes_lockerEnd

theorem balanced_phantomizeObject (obj : ℕ) : Balanced (phantomizeObject obj) := by
  apply (balanced_modify _).bind
  intro _
  apply (balanced_gets _).bind
  intro phantomized
  apply Keeps.ite (keeps_pure none)
  apply (balanced_modify _).bind
  intro _
  apply (balanced_assertion _ _).bind
  intro _
  exact (balanced_modify _).bind fun _ => balanced_gets _

theorem balanced_objectPhantomizeNode (p : Setting) (obj : ℕ) :
    Balanced (objectPhantomizeNode p obj) := by
  apply Closes.balanced
  apply Closes.start1
  apply Closes.gets
  intro c
  apply Closes.bind (balanced_collectorUpdate _ c)
  intro c
  apply Closes.bind (balanced_objectSetCollector obj _)
  intro _
  apply Closes.modify
  apply Closes.assertion
  apply Closes.gets
  intro o
  apply Closes.ite
  · exact closes_lockerEnd
  · apply Closes.bind (balanced_phantomizeObject obj)
    intro phantoms
    apply Closes.stop
    cases phantoms with
    | none => exact closes_pure ()
    | some phantoms =>
      apply Closes.bind (Keeps.forM (balanced_phantomizeSnapshot p obj) phantoms)
      intro _
      apply Closes.start1
      apply Closes.modify
      exact closes_lockerEnd

theorem balanced_rebuildTarget (n : ℕ) (rebuildNext : ListRef) (lk target : ℕ) :
    Balanced (rebuildTarget n rebuildNext lk target) := by
  apply (balanced_gets _).bind
  intro w
  apply (balanced_modify _).bind
  intro _
  apply (balanced_modify _).bind
  intro _
  apply (balanced_modify _).bind
  intro _
  apply (balanced_gets _).bind
  intro o
  apply (Keeps.ite (balanced_objectSetCollector target none) (keeps_pure ())).bind
  intro _
  apply (balanced_modify _).bind
  intro _
  apply (balanced_assertion _ _).bind
  intro _
  apply (balanced_gets _).bind
  intro o
  exact Keeps.ite (balanced_safelistAdd n rebuildNext target) (keeps_pure ())

theorem balanced_objectRebuildLink (n : ℕ) (rebuildNext : ListRef) (lk : ℕ) :
    Balanced (objectRebuildLink n rebuildNext lk) := by
  apply Closes.balanced
  apply Closes.bind (balanced_linkSrc lk)
  intro src
  apply Closes.bind (balanced_linkTarget lk)
  intro t
  apply Closes.start2
  apply Closes.gets
  intro l
  apply Closes.bind
  · apply Keeps.ite _ (keeps_pure ())
    cases t with
    | none => exact keeps_failure
    | some target => exact balanced_rebuildTarget n rebuildNext lk target
  · intro _
    exact closes_lockerEnd

theorem balanced_recoverKey (n obj : ℕ) (rebuildNext : ListRef) (lk : Option ℕ) (key : ℕ) :
    Balanced (recoverKey n obj rebuildNext lk key) := by
  apply (balanced_gets _).bind
  rintro (_ | l)
  · exact (balanced_assertion _ _).bind fun _ => keeps_failure
  · exact (balanced_objectRebuildLink n rebuildNext l).bind fun _ => keeps_pure _

theorem balanced_sleep : Balanced sleep := keeps_write fun _ => rfl

/-- Each turn of the wait ends the scope that it finds and opens another. -/
theorem closes_recoverWait {k obj : ℕ} {g : Unit → Proc α} (hg : Closes (k + 1) (g ())) (n : ℕ) :
    ∀ wcount, Closes (k + 1) (recoverWait obj n wcount >>= g) := by
  induction n with
  | zero =>
    intro wcount m a m' h
    obtain ⟨_, m₁, h1, _⟩ := returns_bind.mp h
    exact (not_returns_failure h1).elim
  | succ n ih =>
    intro wcount m a m' h
    obtain ⟨_, m₁, h1, h2⟩ := returns_bind.mp h
    rw [recoverWait, returns_gets] at h1
    by_cases hw : (m.heap.objects obj).phantomized ∧ ¬ (m.heap.objects obj).phantomizationComplete
    · rw [if_pos hw] at h1
      have hturn : Closes (k + 1) (do
          lockerEnd
          sleep
          lockerStart [objectLock obj]
          assertion (fun _ => wcount + 1 < 10000) .recoverWait
          recoverWait obj n (wcount + 1) >>= g) := by
        apply Closes.stop
        apply Closes.bind balanced_sleep
        intro _
        apply Closes.start1
        apply Closes.assertion
        exact ih (wcount + 1)
      apply hturn m a m'
      have := returns_bind.mpr ⟨_, m₁, h1, h2⟩
      simpa only [bind_assoc] using this
    · rw [if_neg hw] at h1
      rw [← (returns_pure.mp h1).2]
      exact hg m₁ a m' h2

theorem closes_recoverObject {k n obj : ℕ} {g : List ℕ → Proc α}
    (hg : ∀ keys, Closes (k + 1) (g keys)) : Closes (k + 1) (recoverObject n obj >>= g) := by
  intro m a m' h
  obtain ⟨keys, m₁, h1, h2⟩ := returns_bind.mp h
  rw [recoverObject, returns_gets] at h1
  by_cases hpos : 0 < (m.heap.objects obj).count (m.heap.objects obj).which
  · rw [if_pos hpos] at h1
    have hwait : Closes (k + 1) (do
        recoverWait obj n 0
        assertion (fun s => (s.objects obj).phantomizationComplete = true) .recoverComplete
        modify fun s => s.modifyObject obj fun o => { o with phantomized := false }
        let keys ← gets fun s => (s.objects obj).links.entries.map Prod.fst
        g keys) := by
      apply closes_recoverWait
      apply Closes.assertion
      apply Closes.modify
      apply Closes.gets
      exact hg
    apply hwait m a m'
    have := returns_bind.mpr ⟨keys, m₁, h1, h2⟩
    simpa only [bind_assoc] using this
  · rw [if_neg hpos] at h1
    have hrest : Closes (k + 1) (do
        assertion (fun s => (s.objects obj).count (!(s.objects obj).which) = 0) .recoverWeak
        g []) := by
      apply Closes.assertion
      exact hg []
    apply hrest m a m'
    have := returns_bind.mpr ⟨keys, m₁, h1, h2⟩
    simpa only [bind_assoc, pure_bind] using this

theorem balanced_objectRecoverNode (n obj cptr : ℕ) : Balanced (objectRecoverNode n obj cptr) := by
  apply Closes.balanced
  apply Closes.start1
  apply Closes.gets
  intro c
  apply Closes.bind
  · apply Keeps.ite (keeps_pure ())
    apply (balanced_collectorUpdate n c).bind
    intro c
    exact balanced_objectSetCollector obj _
  · intro _
    apply closes_recoverObject
    intro rebuild
    apply Closes.stop
    apply Closes.bind (Keeps.foldlM (balanced_recoverKey n obj _) rebuild none)
    intro _
    apply Closes.start1
    apply Closes.assertion
    exact closes_lockerEnd

theorem balanced_objectRemoveLinks (n obj : ℕ) : Balanced (objectRemoveLinks n obj) := by
  apply Closes.balanced
  apply Closes.modify
  apply Closes.start1
  apply Closes.gets
  intro lks
  apply Closes.modify
  apply Closes.assertion
  apply Closes.assertion
  apply Closes.stop
  exact Balanced.closes (Keeps.forM (balanced_linkDestroy n) lks)

section
variable {p : Setting} (hd : ∀ obj, Balanced (p.dtor obj))
include hd

theorem balanced_objectDel (obj : ℕ) : Balanced (objectDel p obj) := by
  apply Closes.balanced
  apply Closes.modify
  apply Closes.start1
  apply Closes.bind (balanced_objectSetCollector obj none)
  intro _
  apply Closes.assertion
  apply Closes.modify
  apply Closes.gets
  intro o
  apply Closes.bind
  · apply Keeps.ite _ (keeps_pure ())
    exact (balanced_modify _).bind fun _ => hd obj
  · intro _
    apply Closes.stop
    apply Closes.modify
    exact (balanced_modify _).closes

theorem balanced_objectRequestDeleteTaskRun (obj : ℕ) :
    Balanced (objectRequestDeleteTaskRun p obj) := by
  apply (balanced_objectRemoveLinks _ obj).bind
  intro _
  exact (balanced_objectDel hd obj).bind fun _ => keeps_pure false

end

theorem balanced_objectCleanNode (n obj : ℕ) : Balanced (objectCleanNode n obj) := by
  apply Closes.balanced
  apply Closes.start1
  apply Closes.assertion
  apply Closes.assertion
  apply Closes.gets
  intro o
  apply Closes.stop
  apply Closes.bind
  · exact Keeps.ite (keeps_pure ()) (balanced_objectRemoveLinks n obj)
  · intro _
    exact (balanced_objectDecPhantom obj).closes

theorem balanced_objectGet (obj fieldOffset : ℕ) : Balanced (objectGet obj fieldOffset) := by
  apply Closes.balanced
  apply Closes.start1
  apply Closes.gets
  intro lk
  apply Closes.bind (keeps_read _)
  intro retval
  apply Closes.stop
  exact closes_pure retval

theorem balanced_objectSetLabel (n obj referent lk : ℕ) :
    Balanced (objectSetLabel n obj referent lk) := by
  apply (balanced_gets _).bind
  intro phantomized
  apply Keeps.ite
  · apply (balanced_objectMergeCollectors n obj referent).bind
    intro _
    apply (balanced_assertion _ _).bind
    intro _
    exact (balanced_modify _).bind fun _ => balanced_modify _
  · apply (balanced_gets _).bind
    intro target
    exact (balanced_modify _).bind fun _ => balanced_modify _

theorem balanced_objectSetLink (n obj fieldOffset : ℕ) (referent : Option ℕ) :
    Balanced (objectSetLink n obj fieldOffset referent) := by
  apply (balanced_gets _).bind
  intro oldLink
  cases referent with
  | none => exact (balanced_modify _).bind fun _ => keeps_pure oldLink
  | some r =>
    apply Keeps.bind (keeps_read _)
    intro oldTarget
    apply Keeps.ite (keeps_pure none)
    apply (balanced_linkCreate obj _).bind
    intro lk
    apply (balanced_modify _).bind
    intro _
    exact (balanced_objectSetLabel n obj r lk).bind fun _ => keeps_pure oldLink

theorem balanced_objectSet (n obj fieldOffset : ℕ) (referent : Option ℕ) :
    Balanced (objectSet n obj fieldOffset referent) := by
  apply Closes.balanced
  apply Closes.start2
  apply Closes.bind (balanced_objectSetLink n obj fieldOffset referent)
  intro oldLink
  apply Closes.stop
  cases oldLink with
  | none => exact closes_pure ()
  | some lk => exact (balanced_linkDec n lk).closes

theorem balanced_acidSetRaw (n : ℕ) (varobj : Option ℕ) (valobj : ℕ) :
    Balanced (acidSetRaw n varobj valobj) := by
  apply Closes.balanced
  apply Closes.start2
  apply Closes.bind (balanced_objectIncStrong valobj)
  intro _
  cases varobj with
  | none => exact closes_lockerEnd
  | some o =>
    apply Closes.bind (balanced_objectDecStrong n o)
    intro _
    exact closes_lockerEnd

theorem balanced_collectorRun (p : Setting) (c : ℕ) : Balanced (collectorRun p c) := by
  apply (balanced_gets _).bind
  intro waiting
  apply Keeps.ite (keeps_pure true)
  apply Closes.balanced
  apply Closes.start1
  apply Closes.bind (balanced_pollLoop _ (fun obj => balanced_safelistAdd _ _ obj) _)
  intro _
  apply Closes.stop
  apply Closes.bind
  · apply balanced_pollLoop
    intro obj
    exact (balanced_objectPhantomizeNode p obj).bind fun _ => balanced_safelistAdd _ _ obj
  intro _
  apply Closes.bind
  · apply balanced_pollLoop
    intro obj
    exact (balanced_objectRecoverNode _ obj c).bind fun _ => balanced_safelistAdd _ _ obj
  intro _
  apply Closes.bind (balanced_pollLoop _ (fun obj => balanced_objectRecoverNode _ obj c) _)
  intro _
  apply Closes.bind (balanced_pollLoop _ (fun obj => balanced_objectCleanNode _ obj) _)
  intro _
  apply Closes.gets
  intro g
  apply Closes.start2
  apply Closes.gets
  intro done
  apply Closes.ite
  · apply Closes.bind (balanced_collectorTerminate c)
    intro _
    apply Closes.stop
    apply Closes.bind (balanced_collectorDestroy c)
    intro _
    exact closes_pure false
  · apply Closes.stop
    exact closes_pure true

end Acid.Locked

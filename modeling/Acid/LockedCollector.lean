import Acid.Collector
import Acid.Locker
import Acid.Procedure

set_option autoImplicit false

/-!
# `safelist.c` and `collector.c` with their locks, less `collector_run`

One thread runs a call from any heap. Every `locker_start` and `locker_end` of
the source is made where the source makes it, on the thread's own `locker_t`.
A dereference of `NULL` stops the call.
-/
namespace Acid.Locked

open Procedure (read act write attempt)

inductive Lockable where
  | object (o : ℕ)
  | collector (c : ℕ)
  | safelist (r : ListRef)
deriving DecidableEq

/-- The heap, the links of it whose target is `NULL`, and what the other threads do to the heap
while this one sleeps. -/
structure Memory where
  heap : State := {}
  nullTarget : ℕ → Bool := fun _ => false
  others : ℕ → State → State := fun _ s => s

/-- `id` gives each lock the id that its `idlock_init` writes, once and before another thread
can see the lock; `idCount` counts these. `calls` logs the calls of `locker.c`, the newest
first. -/
structure Machine extends Memory where
  id : Lockable → ℕ := fun _ => 0
  idCount : ℕ := 0
  thread : Locker.Thread Lockable := {}
  calls : List (Locker.Call Lockable) := []

abbrev Proc := Procedure.Proc Machine

/-- The bound on the iterations of each loop, whether `assert` is compiled out, and what the
client's destructor of an object does. -/
structure Setting where
  bound : ℕ
  ndebug : Bool
  dtor : ℕ → Proc Unit

def gets {α : Type} (f : State → α) : Proc α := read fun m => f m.heap

def modify (f : State → State) : Proc Unit := write fun m => { m with heap := f m.heap }

def call {α : Type} (f : State → State × α) : Proc α :=
  act fun m => ({ m with heap := (f m.heap).1 }, (f m.heap).2)

/-- A failed `assert` is logged. Where it is compiled in the process ends there, so that a call
returns if it has come to its end without one in the trace. -/
def assertion (p : State → Prop) [DecidablePred p] (a : Assertion) : Proc Unit :=
  modify fun s => s.check (p s) (.assertFailed a)

def objectLock (o : ℕ) : Option Lockable := some (.object o)

def collectorLock (c : ℕ) : Option Lockable := some (.collector c)

def safelistLock (r : ListRef) : Option Lockable := some (.safelist r)

def lockerStart (locks : List (Option Lockable)) : Proc Unit := attempt fun m =>
  let m := { m with calls := .start locks :: m.calls }
  match Locker.lockerStart m.id m.thread locks with
  | some t => .ok { m with thread := t }
  | none => .error m

def lockerEnd : Proc Unit := attempt fun m =>
  let m := { m with calls := .stop :: m.calls }
  match Locker.lockerEnd m.thread with
  | some t => .ok { m with thread := t }
  | none => .error m

def idlockInit (_ : Lockable) : Proc Unit := write fun m => { m with idCount := m.idCount + 1 }

def safelistInit (sl : ListRef) : Proc Unit := do
  idlockInit (.safelist sl)
  modify fun s => s.modifySafelist sl fun _ => {}

def safelistDeinit (sl : ListRef) : Proc Unit :=
  modify fun s => s.modifySafelist sl fun l => { l with data := [] }

/-- The inner loop of `safelist_add`, which takes no lock. -/
def safelistChase : ℕ → ListRef → Proc ListRef
  | 0, _ => failure
  | n + 1, f => do
    match ← gets fun s => s.listForward f with
    | some g => safelistChase n g
    | none => pure f

def safelistAdd : ℕ → ListRef → ℕ → Proc Unit
  | 0, _, _ => failure
  | n + 1, sl, datum => do
    lockerStart [safelistLock sl]
    let f ← gets fun s => s.listForward sl
    modify fun s => if f = none then safelistPush s sl datum else s
    lockerEnd
    match f with
    | none => pure ()
    | some f => do
      let f ← safelistChase n f
      safelistAdd n f datum

def safelistSize (sl : ListRef) : Proc ℕ := do
  lockerStart [safelistLock sl]
  let retval ← gets fun s => (s.safelist sl).data.length
  lockerEnd
  pure retval

def safelistIsEmpty (sl : ListRef) : Proc Bool := do
  let size ← safelistSize sl
  pure (size = 0)

def safelistPoll (sl : ListRef) : Proc (Option ℕ) := do
  lockerStart [safelistLock sl]
  let retval ← call fun s => Acid.safelistPoll s sl
  lockerEnd
  pure retval

/-- The loop `while (true)` that polls `sl` until it is empty. -/
def pollLoop (sl : ListRef) (body : ℕ → Proc Unit) : ℕ → Proc Unit
  | 0 => failure
  | n + 1 => do
    match ← safelistPoll sl with
    | none => pure ()
    | some obj => do
      body obj
      pollLoop sl body n

def safelistForward (n : ℕ) (sl : ListRef) (forwardTo : Option ListRef) : Proc Unit := do
  lockerStart [safelistLock sl, forwardTo.bind safelistLock]
  pollLoop sl (fun obj =>
    match forwardTo with
    | some dest => safelistAdd n dest obj
    | none => failure) n
  modify fun s => s.modifySafelist sl fun l => { l with forward := forwardTo }
  lockerEnd

def safelistForwardsTo (sl : ListRef) (forward : Option ListRef) : Proc Bool :=
  gets fun s => s.listForward sl = forward

/-- `object_set_collector` of `object.c`. -/
def objectSetCollector (obj : ℕ) (c : Option ℕ) : Proc Unit := do
  lockerStart [objectLock obj]
  modify fun s => Acid.objectSetCollector s obj c
  lockerEnd

def collectorCreate : Proc ℕ := do
  let collector ← call Acid.collectorCreate
  safelistInit (collector, .collect)
  safelistInit (collector, .merged)
  safelistInit (collector, .recovery)
  safelistInit (collector, .rebuild)
  safelistInit (collector, .clean)
  idlockInit (.collector collector)
  pure collector

def collectorDestroy (collector : ℕ) : Proc Unit := do
  safelistDeinit (collector, .collect)
  safelistDeinit (collector, .merged)
  safelistDeinit (collector, .recovery)
  safelistDeinit (collector, .rebuild)
  safelistDeinit (collector, .clean)
  modify fun s => Acid.collectorDestroy s collector

def collectorSetForward (collector : ℕ) (f : Option ℕ) : Proc Unit := do
  let g ← gets fun s => s.forward collector
  lockerStart [collectorLock collector, g.bind collectorLock, f.bind collectorLock]
  if f = (← gets fun s => s.forward collector) then
    lockerEnd
  else do
    modify fun s => counterRepoint s (s.forward collector) f
    modify fun s => s.modifyCollector collector fun c => { c with forward := f }
    lockerEnd

def collectorTerminate (collector : ℕ) : Proc Unit := do
  let g ← gets fun s => s.forward collector
  lockerStart [collectorLock collector, g.bind collectorLock]
  collectorSetForward collector none
  lockerEnd

/-- The loop of `collector_add_object`. -/
def addObjectLoop (n obj : ℕ) : ℕ → ℕ → Proc Unit
  | 0, _ => failure
  | k + 1, addTo => do
    lockerStart [collectorLock addTo, objectLock obj]
    match ← gets fun s => s.forward addTo with
    | some f => do
      lockerEnd
      addObjectLoop n obj k f
    | none => do
      modify fun s => s.modifyObject obj fun o =>
        { o with count := Function.update o.count o.which (o.count o.which + 1) }
      modify fun s => s.modifyObject obj fun o => { o with count2 := o.count2 + 1 }
      safelistAdd n (addTo, .collect) obj
      objectSetCollector obj (some addTo)
      lockerEnd

def collectorAddObject (n collector obj : ℕ) : Proc Unit := addObjectLoop n obj n collector

def collectorForwardSafelistsTo (n collector s : ℕ) : Proc Unit := do
  lockerStart [collectorLock collector, collectorLock s]
  safelistForward n (collector, .collect) (some (s, route .collect))
  safelistForward n (collector, .merged) (some (s, route .merged))
  safelistForward n (collector, .rebuild) (some (s, route .rebuild))
  safelistForward n (collector, .clean) (some (s, route .clean))
  safelistForward n (collector, .recovery) (some (s, route .recovery))
  lockerEnd

def collectorMerge (n collector s : ℕ) : Proc Unit := do
  lockerStart [collectorLock collector, collectorLock s]
  collectorForwardSafelistsTo n s collector
  collectorSetForward s (some collector)
  lockerEnd

/-- The two branches that chase a forward pointer leave the scope open. -/
def collectorEquals : ℕ → Option ℕ → Option ℕ → Proc Bool
  | 0, _, _ => failure
  | n + 1, c1, c2 => do
    lockerStart [c1.bind collectorLock, c2.bind collectorLock]
    if c1 = c2 then do
      lockerEnd
      pure true
    else
      match ← gets fun s => c1.bind s.forward with
      | some d => collectorEquals n (some d) c2
      | none =>
        match ← gets fun s => c2.bind s.forward with
        | some d => collectorEquals n c1 (some d)
        | none => do
          lockerEnd
          pure false

def collectorUpdate : ℕ → Option ℕ → Proc ℕ
  | 0, _ => failure
  | _ + 1, none => do
    lockerStart [none]
    failure
  | n + 1, some c => do
    lockerStart [collectorLock c]
    match ← gets fun s => s.forward c with
    | none => do
      lockerEnd
      pure c
    | some d => do
      lockerEnd
      collectorUpdate n (some d)

end Acid.Locked

import Acid.LockedCollector
import Acid.Object

set_option autoImplicit false

/-!
# `object.c`, `link.c`, `_acid_set_raw` and `collector_run` with their locks

The order is that of the calls, as each function takes the locks of those that
it calls. Starting a task takes no lock of a `locker_t`.
-/
namespace Acid.Locked

open Procedure (read act write)

def Memory.target (m : Memory) (l : ℕ) : Option ℕ :=
  if m.nullTarget l then none else some (m.heap.links l).target

/-- `lk->target`. -/
def linkTarget (lk : ℕ) : Proc (Option ℕ) := read fun m => m.target lk

def linkSrc (lk : ℕ) : Proc ℕ := gets fun s => (s.links lk).src

def hashtableHashOffset (key _len _seed : ℕ) : Proc ℕ := pure key

def objectInit : Proc ℕ := do
  let obj ← call Acid.objectInit
  idlockInit (.object obj)
  pure obj

def objectIncStrong (obj : ℕ) : Proc Unit := do
  lockerStart [objectLock obj]
  modify fun s => Acid.objectIncStrong s obj
  lockerEnd

def objectInitStrong : Proc ℕ := do
  let o ← objectInit
  objectIncStrong o
  pure o

def objectRequestDelete (obj : ℕ) : Proc Unit := modify fun s => Acid.objectRequestDelete s obj

/-- The two branches of `object_dec` for a count that is zero. -/
def objectDecZero (n obj : ℕ) : Proc Unit := do
  let o ← gets fun s => s.objects obj
  if o.count (!o.which) = 0 ∧ o.count2 = 0 then
    objectRequestDelete obj
  else do
    match ← gets fun s => (s.objects obj).collector with
    | some c => collectorAddObject n c obj
    | none => do
      let c ← collectorCreate
      objectSetCollector obj (some c)
      modify fun s => s.addTask (.run c)
      collectorAddObject n c obj

def objectDec (n obj : ℕ) (w : Bool) : Proc Unit := do
  lockerStart [objectLock obj]
  modify fun s => s.modifyObject obj fun o =>
    { o with count := Function.update o.count w (o.count w - 1) }
  assertion (fun s => 0 ≤ (s.objects obj).count w) .decCount
  let o ← gets fun s => s.objects obj
  (if o.count w = 0 ∧ w = o.which then objectDecZero n obj else pure ())
  lockerEnd

def objectDecPhantom (obj : ℕ) : Proc Unit := do
  lockerStart [objectLock obj]
  modify fun s => s.modifyObject obj fun o => { o with count2 := o.count2 - 1 }
  assertion (fun s => 0 ≤ (s.objects obj).count2) .decPhantomCount
  let o ← gets fun s => s.objects obj
  (if o.count2 = 0 then
    if o.count false = 0 ∧ o.count true = 0 then objectRequestDelete obj
    else objectSetCollector obj none
  else pure ())
  lockerEnd

def objectDecStrong (n obj : ℕ) : Proc Unit := do
  let w ← gets fun s => (s.objects obj).which
  objectDec n obj w

/-- The loop of `object_merge_collectors`, with the two chain positions `t` and `c`. -/
def mergeLoop (n obj target : ℕ) : ℕ → ℕ → ℕ → Proc Bool
  | 0, _, _ => failure
  | k + 1, t, c => do
    lockerStart [collectorLock t, collectorLock c, objectLock obj, objectLock target]
    let ft ← gets fun s => s.forward t
    let fc ← gets fun s => s.forward c
    if ft = some c ∧ fc = none then do
      objectSetCollector target (some c)
      objectSetCollector obj (some c)
      lockerEnd
      pure false
    else if fc = some t ∧ ft = none then do
      objectSetCollector target (some t)
      objectSetCollector obj (some t)
      lockerEnd
      pure false
    else
      match ft, fc with
      | some t', _ => do
        lockerEnd
        mergeLoop n obj target k t' c
      | none, some c' => do
        lockerEnd
        mergeLoop n obj target k t c'
      | none, none =>
        if c = t then do
          lockerEnd
          pure false
        else do
          collectorMerge n t c
          assertion (fun s => s.forward c = some t) .mergeForward
          objectSetCollector target (some t)
          objectSetCollector obj (some t)
          lockerEnd
          pure true

def objectMergeCollectors (n obj target : ℕ) : Proc Bool := do
  let s ← gets fun s => (s.objects obj).collector
  let t ← gets fun s => (s.objects target).collector
  match s, t with
  | none, none => pure false
  | some c, none => do
    objectSetCollector target (some c)
    pure false
  | none, some t => do
    objectSetCollector obj (some t)
    pure false
  | some c, some t => if t = c then pure false else mergeLoop n obj target n t c

/-- `xmalloc` returns a fresh address. -/
def linkCreate (src : ℕ) (target : Option ℕ) : Proc ℕ := act fun m =>
  let (s, l) := Acid.linkCreate m.heap src (target.getD 0)
  ({ m with heap := s, nullTarget := Function.update m.nullTarget l target.isNone }, l)

def linkDec (n lk : ℕ) : Proc Unit := do
  match ← linkTarget lk with
  | none => pure ()
  | some target => do
    let src ← linkSrc lk
    lockerStart [objectLock src, objectLock target]
    let l ← gets fun s => s.links lk
    (if l.phantomized then objectDecPhantom target else objectDec n target l.which)
    lockerEnd

def linkDestroy (n lk : ℕ) : Proc Unit := do
  let src ← linkSrc lk
  lockerStart [objectLock src]
  let target ← linkTarget lk
  lockerEnd
  (if target = none then pure () else linkDec n lk)
  modify fun s => (s.modifyLink lk fun l => { l with freed := true }).emit (.freeLink lk)

/-- The assertion at the end of `link_phantomize`. -/
def assertCollectorEquals (p : Setting) (src target : ℕ) : Proc Unit :=
  if p.ndebug then pure ()
  else do
    let c1 ← gets fun s => (s.objects target).collector
    let c2 ← gets fun s => (s.objects src).collector
    let equal ← collectorEquals p.bound c1 c2
    assertion (fun _ => equal = true) .linkEquals

def linkPhantomize (p : Setting) (lk : ℕ) : Proc Unit := do
  let src ← linkSrc lk
  let t ← linkTarget lk
  lockerStart [t.bind objectLock, objectLock src]
  match ← linkTarget lk with
  | none => lockerEnd
  | some target =>
    if ← gets fun s => (s.links lk).phantomized then
      lockerEnd
    else do
      modify fun s => s.modifyObject target fun o => { o with count2 := o.count2 + 1 }
      linkDec p.bound lk
      assertion (fun s => (s.objects target).collector ≠ none ∨ (s.objects src).collector ≠ none)
        .linkCollector
      let _ ← objectMergeCollectors p.bound src target
      modify fun s => s.modifyLink lk fun l => { l with phantomized := true }
      assertCollectorEquals p src target
      lockerEnd

/-- The body of the loop over `phantoms`. -/
def phantomizeSnapshot (p : Setting) (obj lk : ℕ) : Proc Unit := do
  let target ← linkTarget lk
  lockerStart [objectLock obj, target.bind objectLock]
  assertion (fun s => (s.objects obj).phantomized = true) .phantomizeObject
  let l ← gets fun s => s.links lk
  (if l.phantomized then pure ()
  else do
    assertion (fun s => (s.objects l.src).phantomized = true) .phantomizeSource
    assertion (fun s => (s.objects l.src).collector ≠ none) .phantomizeSourceCollector
    linkPhantomize p lk)
  lockerEnd

/-- What `object_phantomize_node` does under its first lock once the count is zero: the links to
phantomize, unless the object is phantomized already. -/
def phantomizeObject (obj : ℕ) : Proc (Option (List ℕ)) := do
  modify fun s =>
    if 0 < (s.objects obj).count (!(s.objects obj).which) then
      s.modifyObject obj fun o => { o with which := !o.which }
    else s
  if ← gets fun s => (s.objects obj).phantomized then
    pure none
  else do
    modify fun s => s.modifyObject obj fun o => { o with phantomized := true }
    assertion (fun s => (s.objects obj).collector ≠ none) .phantomizeCollector
    modify fun s => s.modifyObject obj fun o => { o with phantomizationComplete := false }
    gets fun s => some (s.objects obj).links.values

def objectPhantomizeNode (p : Setting) (obj : ℕ) : Proc Unit := do
  lockerStart [objectLock obj]
  let c ← gets fun s => (s.objects obj).collector
  let c ← collectorUpdate p.bound c
  objectSetCollector obj (some c)
  modify fun s => s.modifyObject obj fun o =>
    { o with count := Function.update o.count o.which (o.count o.which - 1) }
  assertion (fun s => 0 ≤ (s.objects obj).count (s.objects obj).which) .phantomizeCount
  let o ← gets fun s => s.objects obj
  if 0 < o.count o.which then
    lockerEnd
  else do
    let phantoms ← phantomizeObject obj
    lockerEnd
    match phantoms with
    | none => pure ()
    | some phantoms => do
      phantoms.forM (phantomizeSnapshot p obj)
      lockerStart [objectLock obj]
      modify fun s => s.modifyObject obj fun o => { o with phantomizationComplete := true }
      lockerEnd

/-- The branch of `object_rebuild_link` for a phantomized link. -/
def rebuildTarget (n : ℕ) (rebuildNext : ListRef) (lk target : ℕ) : Proc Unit := do
  let w ← gets fun s => rebuildWhich s lk
  modify fun s => s.modifyLink lk fun l => { l with which := w }
  modify fun s => s.modifyObject target fun o =>
    { o with count := Function.update o.count w (o.count w + 1) }
  modify fun s => s.modifyObject target fun o => { o with count2 := o.count2 - 1 }
  let o ← gets fun s => s.objects target
  (if o.count2 = 0 then objectSetCollector target none else pure ())
  modify fun s => s.modifyLink lk fun l => { l with phantomized := false }
  assertion (fun s => 0 ≤ (s.objects target).count2) .rebuildCount
  let o ← gets fun s => s.objects target
  (if o.collector ≠ none then safelistAdd n rebuildNext target else pure ())

def objectRebuildLink (n : ℕ) (rebuildNext : ListRef) (lk : ℕ) : Proc Unit := do
  let src ← linkSrc lk
  let t ← linkTarget lk
  lockerStart [objectLock src, t.bind objectLock]
  let l ← gets fun s => s.links lk
  (if l.phantomized then
    match t with
    | none => failure
    | some target => rebuildTarget n rebuildNext lk target
  else pure ())
  lockerEnd

/-- One key of `rebuild`, looked up again, with the variable `lk` that the iterations share. -/
def recoverKey (n obj : ℕ) (rebuildNext : ListRef) (lk : Option ℕ) (key : ℕ) :
    Proc (Option ℕ) := do
  let found ← gets fun s => ((s.objects obj).links.get key).or lk
  match found with
  | none => do
    assertion (fun _ => found ≠ none) .recoverLink
    failure
  | some l => do
    objectRebuildLink n rebuildNext l
    pure (some l)

/-- `thrd_sleep`. -/
def sleep : Proc Unit := write fun m =>
  { m with heap := m.others 0 m.heap, others := fun n => m.others (n + 1) }

/-- The loop that waits for `phantomization_complete`. -/
def recoverWait (obj : ℕ) : ℕ → ℕ → Proc Unit
  | 0, _ => failure
  | n + 1, wcount => do
    let o ← gets fun s => s.objects obj
    if o.phantomized ∧ ¬ o.phantomizationComplete then do
      lockerEnd
      sleep
      lockerStart [objectLock obj]
      assertion (fun _ => wcount + 1 < 10000) .recoverWait
      recoverWait obj n (wcount + 1)
    else pure ()

/-- What `object_recover_node` does under its first lock once it has updated the collector: the
keys of the links to rebuild. -/
def recoverObject (n obj : ℕ) : Proc (List ℕ) := do
  let o ← gets fun s => s.objects obj
  if 0 < o.count o.which then do
    recoverWait obj n 0
    assertion (fun s => (s.objects obj).phantomizationComplete = true) .recoverComplete
    modify fun s => s.modifyObject obj fun o => { o with phantomized := false }
    gets fun s => (s.objects obj).links.entries.map Prod.fst
  else do
    assertion (fun s => (s.objects obj).count (!(s.objects obj).which) = 0) .recoverWeak
    pure []

def objectRecoverNode (n obj cptr : ℕ) : Proc Unit := do
  lockerStart [objectLock obj]
  let c ← gets fun s => (s.objects obj).collector
  (if c = none then pure ()
  else do
    let c ← collectorUpdate n c
    objectSetCollector obj (some c))
  let rebuild ← recoverObject n obj
  lockerEnd
  let _ ← rebuild.foldlM (recoverKey n obj (cptr, .rebuild)) none
  lockerStart [objectLock obj]
  assertion (fun s => (s.objects obj).count2 = 0 → (s.objects obj).collector = none)
    .recoverCollector
  lockerEnd

def objectRemoveLinks (n obj : ℕ) : Proc Unit := do
  modify fun s => s.emit (.removeLinks obj)
  lockerStart [objectLock obj]
  let lks ← gets fun s => (s.objects obj).links.values
  modify fun s => s.modifyObject obj fun o => { o with links := o.links.removeAll }
  assertion (fun s => (s.objects obj).count false = 0) .removeCount
  assertion (fun s => (s.objects obj).count true = 0) .removeCount
  lockerEnd
  lks.forM (linkDestroy n)

def objectDel (p : Setting) (obj : ℕ) : Proc Unit := do
  modify fun s => s.emit (.objectDel obj)
  lockerStart [objectLock obj]
  objectSetCollector obj none
  assertion (fun s => (s.objects obj).links.size = 0) .delLinks
  modify fun s => s.modifyObject obj fun o => { o with links := .new, magic := 0 }
  let o ← gets fun s => s.objects obj
  (if o.dtor then do
    modify fun s => s.emit (.dtor obj)
    p.dtor obj
  else pure ())
  lockerEnd
  modify fun s => s.modifyObject obj fun o => { o with freed := true }
  modify fun s => { s with acidCollectCount := s.acidCollectCount + 1 }

def objectRequestDeleteTaskRun (p : Setting) (obj : ℕ) : Proc Bool := do
  objectRemoveLinks p.bound obj
  objectDel p obj
  pure false

def objectCleanNode (n obj : ℕ) : Proc Unit := do
  lockerStart [objectLock obj]
  assertion (fun s => 0 ≤ (s.objects obj).count false) .cleanCount
  assertion (fun s => 0 ≤ (s.objects obj).count true) .cleanCount
  let o ← gets fun s => s.objects obj
  lockerEnd
  (if o.count false ≠ 0 ∨ o.count true ≠ 0 then pure () else objectRemoveLinks n obj)
  objectDecPhantom obj

def objectGet (obj fieldOffset : ℕ) : Proc (Option ℕ) := do
  lockerStart [objectLock obj]
  let lk ← gets fun s => (s.objects obj).links.get fieldOffset
  let retval ← read fun m => lk.bind m.target
  lockerEnd
  pure retval

/-- The branches of `object_set` that label the new link `lk`. -/
def objectSetLabel (n obj referent lk : ℕ) : Proc Unit := do
  if ← gets fun s => (s.objects obj).phantomized then
    let _ ← objectMergeCollectors n obj referent
    assertion (fun s => (s.objects obj).collector ≠ none) .setCollector
    modify fun s => s.modifyObject referent fun o => { o with count2 := o.count2 + 1 }
    modify fun s => s.modifyLink lk fun l => { l with phantomized := true }
  else do
    let target ← gets fun s => s.objects referent
    let w := if referent = obj then !target.which
      else if target.links.size = 0 then target.which
      else !target.which
    modify fun s => s.modifyLink lk fun l => { l with which := w }
    modify fun s => s.modifyObject referent fun o =>
      { o with count := Function.update o.count w (o.count w + 1) }

/-- What `object_set` does under its lock: the old link that it has replaced. -/
def objectSetLink (n obj fieldOffset : ℕ) (referent : Option ℕ) : Proc (Option ℕ) := do
  let oldLink ← gets fun s => (s.objects obj).links.get fieldOffset
  match referent with
  | none => do
    modify fun s => s.modifyObject obj fun o => { o with links := o.links.remove fieldOffset }
    pure oldLink
  | some r =>
    let oldTarget ← read fun m => oldLink.bind m.target
    if oldTarget = some r then
      pure none
    else do
      let lk ← linkCreate obj (some r)
      modify fun s => s.modifyObject obj fun o => { o with links := o.links.add fieldOffset lk }
      objectSetLabel n obj r lk
      pure oldLink

def objectSet (n obj fieldOffset : ℕ) (referent : Option ℕ) : Proc Unit := do
  lockerStart [objectLock obj, referent.bind objectLock]
  let oldLink ← objectSetLink n obj fieldOffset referent
  lockerEnd
  match oldLink with
  | some lk => linkDec n lk
  | none => pure ()

/-- `_acid_set_raw` of a managed value; `varobj` is the object of the variable's old value, if
that is managed. -/
def acidSetRaw (n : ℕ) (varobj : Option ℕ) (valobj : ℕ) : Proc Unit := do
  lockerStart [objectLock valobj, varobj.bind objectLock]
  objectIncStrong valobj
  match varobj with
  | some o => do
    objectDecStrong n o
    lockerEnd
  | none => lockerEnd

def collectorRun (p : Setting) (collector : ℕ) : Proc Bool := do
  if ← gets fun s => counterContinueWaiting s collector then
    pure true
  else do
    lockerStart [collectorLock collector]
    pollLoop (collector, .merged) (fun obj => safelistAdd p.bound (collector, .recovery) obj)
      p.bound
    lockerEnd
    pollLoop (collector, .collect) (fun obj => do
      objectPhantomizeNode p obj
      safelistAdd p.bound (collector, .recovery) obj) p.bound
    pollLoop (collector, .recovery) (fun obj => do
      objectRecoverNode p.bound obj collector
      safelistAdd p.bound (collector, .clean) obj) p.bound
    pollLoop (collector, .rebuild) (fun obj => objectRecoverNode p.bound obj collector) p.bound
    pollLoop (collector, .clean) (fun obj => objectCleanNode p.bound obj) p.bound
    let g ← gets fun s => s.forward collector
    lockerStart [collectorLock collector, g.bind collectorLock]
    if ← gets fun s => counterDone s collector then do
      collectorTerminate collector
      lockerEnd
      collectorDestroy collector
      pure false
    else do
      lockerEnd
      pure true

end Acid.Locked

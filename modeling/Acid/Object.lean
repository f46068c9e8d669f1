import Acid.Collector

set_option autoImplicit false

/-!
# `object.c` and `link.c`
-/
namespace Acid

def objectInit (s : State) : State × ℕ :=
  ({ s with
      objects := Function.update s.objects s.objectCount {}
      objectCount := s.objectCount + 1
      acidWorldCount := s.acidWorldCount + 1 }, s.objectCount)

def objectIncStrong (s : State) (obj : ℕ) : State :=
  s.modifyObject obj fun o =>
    { o with count := Function.update o.count o.which (o.count o.which + 1) }

def objectInitStrong (s : State) : State × ℕ :=
  let (s, o) := objectInit s
  (objectIncStrong s o, o)

/-- `task_start(task_create(_object_request_delete_task_run, obj))`. -/
def objectRequestDelete (s : State) (obj : ℕ) : State :=
  (s.emit (.requestDelete obj)).addTask (.delete obj)

/-- The branch of `object_dec` that sets up a collector where there is none. -/
def objectEnsureCollector (s : State) (obj : ℕ) : State :=
  match (s.objects obj).collector with
  | some _ => s
  | none =>
    let (s, c) := collectorCreate s
    (objectSetCollector s obj (some c)).addTask (.run c)

def objectDec (s : State) (obj : ℕ) (w : Bool) : State :=
  let s := s.modifyObject obj fun o => { o with count := Function.update o.count w (o.count w - 1) }
  let s := s.check (0 ≤ (s.objects obj).count w) (.assertFailed .decCount)
  let o := s.objects obj
  if o.count w = 0 ∧ w = o.which then
    if o.count (!o.which) = 0 ∧ o.count2 = 0 then objectRequestDelete s obj
    else
      let s := objectEnsureCollector s obj
      match (s.objects obj).collector with
      | some c => collectorAddObject s c obj
      | none => s
  else s

def objectDecPhantom (s : State) (obj : ℕ) : State :=
  let s := s.modifyObject obj fun o => { o with count2 := o.count2 - 1 }
  let s := s.check (0 ≤ (s.objects obj).count2) (.assertFailed .decPhantomCount)
  let o := s.objects obj
  if o.count2 = 0 then
    if o.count false = 0 ∧ o.count true = 0 then objectRequestDelete s obj
    else objectSetCollector s obj none
  else s

def objectDecStrong (s : State) (obj : ℕ) : State := objectDec s obj (s.objects obj).which

/-- The loop of `object_merge_collectors`, with the two chain positions `t` and `c`. -/
def mergeLoop (obj target : ℕ) : ℕ → State → ℕ → ℕ → State × Bool
  | 0, s, _, _ => (s.emit .noReturn, false)
  | n + 1, s, t, c =>
    if s.forward t = some c ∧ s.forward c = none then
      (objectSetCollector (objectSetCollector s target (some c)) obj (some c), false)
    else if s.forward c = some t ∧ s.forward t = none then
      (objectSetCollector (objectSetCollector s target (some t)) obj (some t), false)
    else match s.forward t with
      | some t' => mergeLoop obj target n s t' c
      | none => match s.forward c with
        | some c' => mergeLoop obj target n s t c'
        | none =>
          if c = t then (s, false)
          else
            let s := collectorMerge s t c
            let s := s.check (s.forward c = some t) (.assertFailed .mergeForward)
            (objectSetCollector (objectSetCollector s target (some t)) obj (some t), true)

def objectMergeCollectors (s : State) (obj target : ℕ) : State × Bool :=
  match (s.objects obj).collector, (s.objects target).collector with
  | none, none => (s, false)
  | some c, none => (objectSetCollector s target (some c), false)
  | none, some t => (objectSetCollector s obj (some t), false)
  | some c, some t =>
    if t = c then (s, false) else mergeLoop obj target (2 * s.numCollector + 1) s t c

def linkCreate (s : State) (src target : ℕ) : State × ℕ :=
  ({ s with
      links := Function.update s.links s.linkCount { src := src, target := target }
      linkCount := s.linkCount + 1 }, s.linkCount)

def linkDec (s : State) (l : ℕ) : State :=
  let lk := s.links l
  if lk.phantomized then objectDecPhantom s lk.target else objectDec s lk.target lk.which

def linkDestroy (s : State) (l : ℕ) : State :=
  ((linkDec s l).modifyLink l fun lk => { lk with freed := true }).emit (.freeLink l)

def linkPhantomize (s : State) (l : ℕ) : State :=
  let lk := s.links l
  if lk.phantomized then s
  else
    let s := s.modifyObject lk.target fun o => { o with count2 := o.count2 + 1 }
    let s := linkDec s l
    let s := s.check ((s.objects lk.target).collector ≠ none ∨ (s.objects lk.src).collector ≠ none)
      (.assertFailed .linkCollector)
    let s := (objectMergeCollectors s lk.src lk.target).1
    let s := s.modifyLink l fun lk => { lk with phantomized := true }
    s.check (collectorEquals s (s.objects lk.target).collector (s.objects lk.src).collector = true)
      (.assertFailed .linkEquals)

/-- The body of the loop over the snapshot `phantoms`. -/
def phantomizeSnapshot (obj : ℕ) (s : State) (l : ℕ) : State :=
  let s := s.check ((s.objects obj).phantomized = true) (.assertFailed .phantomizeObject)
  let lk := s.links l
  if lk.phantomized then s
  else
    let s := s.check ((s.objects lk.src).phantomized = true) (.assertFailed .phantomizeSource)
    let s := s.check ((s.objects lk.src).collector ≠ none) (.assertFailed .phantomizeSourceCollector)
    linkPhantomize s l

/-- `object_set_collector(obj, collector_update(obj->collector))`. -/
def objectUpdateCollector (s : State) (obj : ℕ) : State :=
  match (s.objects obj).collector with
  | some c => objectSetCollector s obj (some (collectorUpdate s c))
  | none => s.emit .nullDereference

/-- The part of `object_phantomize_node` for an object that is not phantomized yet. -/
def objectPhantomizeLinks (s : State) (obj : ℕ) : State :=
  let s := s.modifyObject obj fun o => { o with phantomized := true }
  let s := s.check ((s.objects obj).collector ≠ none) (.assertFailed .phantomizeCollector)
  let s := s.modifyObject obj fun o => { o with phantomizationComplete := false }
  let phantoms := (s.objects obj).links.values
  let s := phantoms.foldl (phantomizeSnapshot obj) s
  s.modifyObject obj fun o => { o with phantomizationComplete := true }

def objectPhantomizeNode (s : State) (obj : ℕ) : State :=
  let s := objectUpdateCollector s obj
  let s := s.modifyObject obj fun o =>
    { o with count := Function.update o.count o.which (o.count o.which - 1) }
  let s := s.check (0 ≤ (s.objects obj).count (s.objects obj).which) (.assertFailed .phantomizeCount)
  if 0 < (s.objects obj).count (s.objects obj).which then s
  else
    let s := if 0 < (s.objects obj).count (!(s.objects obj).which) then
        s.modifyObject obj fun o => { o with which := !o.which }
      else s
    if (s.objects obj).phantomized then s else objectPhantomizeLinks s obj

/-- The label that `object_rebuild_link` chooses. -/
def rebuildWhich (s : State) (l : ℕ) : Bool :=
  let lk := s.links l
  let target := s.objects lk.target
  if lk.target = lk.src then !target.which
  else if target.phantomized ∨ target.links.size = 0 then target.which
  else !target.which

/-- `collector` owns the list `rebuild_next`. -/
def objectRebuildLink (collector : ℕ) (s : State) (l : ℕ) : State :=
  let lk := s.links l
  if lk.phantomized then
    let w := rebuildWhich s l
    let s := s.modifyLink l fun lk => { lk with which := w }
    let s := s.modifyObject lk.target fun o =>
      { o with count := Function.update o.count w (o.count w + 1) }
    let s := s.modifyObject lk.target fun o => { o with count2 := o.count2 - 1 }
    let s := if (s.objects lk.target).count2 = 0 then objectSetCollector s lk.target none else s
    let s := s.modifyLink l fun lk => { lk with phantomized := false }
    let s := s.check (0 ≤ (s.objects lk.target).count2) (.assertFailed .rebuildCount)
    if (s.objects lk.target).collector ≠ none then safelistAdd s (collector, .rebuild) lk.target
    else s
  else s

/-- One key of the snapshot `rebuild`, looked up again. The variable `lk` is shared by the
iterations and keeps its value where the key is missing. -/
def recoverKey (obj collector : ℕ) (p : State × Option ℕ) (key : ℕ) : State × Option ℕ :=
  match ((p.1.objects obj).links.get key).or p.2 with
  | some l => (objectRebuildLink collector p.1 l, some l)
  | none => (p.1.emit (.assertFailed .recoverLink), none)

/-- A wait for `phantomization_complete` has no other thread to end it within one step. -/
def objectRecoverNode (s : State) (obj collector : ℕ) : State :=
  let s := if (s.objects obj).collector ≠ none then objectUpdateCollector s obj else s
  let o := s.objects obj
  let s :=
    if 0 < o.count o.which then
      let s := s.check (¬ (o.phantomized = true ∧ o.phantomizationComplete = false))
        (.assertFailed .recoverWait)
      let s := s.check (o.phantomizationComplete = true) (.assertFailed .recoverComplete)
      let s := s.modifyObject obj fun o => { o with phantomized := false }
      let rebuild := (s.objects obj).links.entries.map Prod.fst
      (rebuild.foldl (recoverKey obj collector) (s, none)).1
    else s.check (o.count (!o.which) = 0) (.assertFailed .recoverWeak)
  s.check ((s.objects obj).count2 = 0 → (s.objects obj).collector = none)
    (.assertFailed .recoverCollector)

def objectRemoveLinks (s : State) (obj : ℕ) : State :=
  let s := s.emit (.removeLinks obj)
  let lks := (s.objects obj).links.values
  let s := s.modifyObject obj fun o => { o with links := o.links.removeAll }
  let s := s.check ((s.objects obj).count false = 0) (.assertFailed .removeCount)
  let s := s.check ((s.objects obj).count true = 0) (.assertFailed .removeCount)
  lks.foldl linkDestroy s

def objectDel (s : State) (obj : ℕ) : State :=
  let s := s.emit (.objectDel obj)
  let s := objectSetCollector s obj none
  let s := s.check ((s.objects obj).links.size = 0) (.assertFailed .delLinks)
  let s := s.modifyObject obj fun o => { o with links := .new, magic := 0 }
  let s := if (s.objects obj).dtor then s.emit (.dtor obj) else s
  let s := s.modifyObject obj fun o => { o with freed := true }
  { s with acidCollectCount := s.acidCollectCount + 1 }

/-- `_object_request_delete_task_run`. -/
def objectRequestDeleteTaskRun (s : State) (obj : ℕ) : State :=
  objectDel (objectRemoveLinks s obj) obj

def objectCleanNode (s : State) (obj : ℕ) : State :=
  let s := s.check (0 ≤ (s.objects obj).count false) (.assertFailed .cleanCount)
  let s := s.check (0 ≤ (s.objects obj).count true) (.assertFailed .cleanCount)
  let inUse := (s.objects obj).count false ≠ 0 ∨ (s.objects obj).count true ≠ 0
  let s := if inUse then s else objectRemoveLinks s obj
  objectDecPhantom s obj

def objectGet (s : State) (obj fieldOffset : ℕ) : Option ℕ :=
  ((s.objects obj).links.get fieldOffset).map fun l => (s.links l).target

/-- The label and the count of a new link `l`, once it is in the table. -/
def objectSetLabel (s : State) (obj referent l : ℕ) : State :=
  if (s.objects obj).phantomized then
    let s := (objectMergeCollectors s obj referent).1
    let s := s.check ((s.objects obj).collector ≠ none) (.assertFailed .setCollector)
    let s := s.modifyObject referent fun o => { o with count2 := o.count2 + 1 }
    s.modifyLink l fun lk => { lk with phantomized := true }
  else
    let w :=
      if referent = obj then !(s.objects referent).which
      else if (s.objects referent).links.size = 0 then (s.objects referent).which
      else !(s.objects referent).which
    let s := s.modifyLink l fun lk => { lk with which := w }
    s.modifyObject referent fun o => { o with count := Function.update o.count w (o.count w + 1) }

/-- `object_set` with a referent that is not `NULL`, up to the release of the old link. -/
def objectSetReferent (s : State) (obj fieldOffset referent : ℕ) : State :=
  let (s, l) := linkCreate s obj referent
  let s := s.modifyObject obj fun o => { o with links := o.links.add fieldOffset l }
  objectSetLabel s obj referent l

/-- `object_set`; the referent `none` is `NULL`. -/
def objectSet (s : State) (obj fieldOffset : ℕ) (referent : Option ℕ) : State :=
  let old := (s.objects obj).links.get fieldOffset
  match referent with
  | none =>
    let s := s.modifyObject obj fun o => { o with links := o.links.remove fieldOffset }
    match old with
    | some l => linkDec s l
    | none => s
  | some referent =>
    match old with
    | some l =>
      if (s.links l).target = referent then s
      else linkDec (objectSetReferent s obj fieldOffset referent) l
    | none => objectSetReferent s obj fieldOffset referent

end Acid

import Acid.Safelist

set_option autoImplicit false

/-!
# `collector.c`, less `collector_run`
-/
namespace Acid

/-- The counter updates for a pointer that changes from `old` to `new`. -/
def counterRepoint (s : State) (old new : Option ℕ) : State :=
  let s := match new with
    | some c => counterIncRef s c
    | none => s
  match old with
  | some d => counterDecRef s d
  | none => s

/-- `object_set_collector` of `object.c`. -/
def objectSetCollector (s : State) (obj : ℕ) (c : Option ℕ) : State :=
  if (s.objects obj).collector = c then s
  else
    (counterRepoint s (s.objects obj).collector c).modifyObject obj fun o =>
      { o with collector := c }

/-- `xmalloc` returns a fresh address. -/
def collectorCreate (s : State) : State × ℕ :=
  ({ s with
      collectors := Function.update s.collectors s.numCollector {}
      numCollector := s.numCollector + 1 }, s.numCollector)

def collectorSetForward (s : State) (collector : ℕ) (f : Option ℕ) : State :=
  if f = s.forward collector then s
  else
    (counterRepoint s (s.forward collector) f).modifyCollector collector fun c =>
      { c with forward := f }

def collectorTerminate (s : State) (collector : ℕ) : State := collectorSetForward s collector none

/-- The lists and the counter are freed with the record. -/
def collectorDestroy (s : State) (collector : ℕ) : State :=
  (s.modifyCollector collector fun c =>
    { c with lists := fun _ => {}, destroyed := true }).emit (.collectorDestroy collector)

/-- `collector_update`: the end of the forward chain. -/
def collectorUpdate (s : State) (collector : ℕ) : ℕ :=
  PointerForest.chase s.forward s.numCollector collector

/-- The loop of `collector_add_object` is the same chase. -/
def collectorAddObject (s : State) (collector obj : ℕ) : State :=
  let addTo := collectorUpdate s collector
  let s := s.modifyObject obj fun o =>
    { o with count := Function.update o.count o.which (o.count o.which + 1) }
  let s := s.modifyObject obj fun o => { o with count2 := o.count2 + 1 }
  let s := safelistAdd s (addTo, .collect) obj
  objectSetCollector s obj (some addTo)

/-- Where `collector_forward_safelists_to` sends each list. -/
def route : ListName → ListName
  | .collect => .collect
  | .merged => .merged
  | .rebuild => .rebuild
  | .clean => .merged
  | .recovery => .merged

/-- The caller passes the forwarding collector first, whatever the comment there says. -/
def collectorForwardSafelistsTo (s : State) (collector dest : ℕ) : State :=
  let s := safelistForward s (collector, .collect) (dest, route .collect)
  let s := safelistForward s (collector, .merged) (dest, route .merged)
  let s := safelistForward s (collector, .rebuild) (dest, route .rebuild)
  let s := safelistForward s (collector, .clean) (dest, route .clean)
  safelistForward s (collector, .recovery) (dest, route .recovery)

/-- `collector_merge(collector, s)`: `source` forwards to `collector`. -/
def collectorMerge (s : State) (collector source : ℕ) : State :=
  collectorSetForward (collectorForwardSafelistsTo s source collector) source (some collector)

/-- The loop of `collector_equals`: the first chain is run to its root, then the second. -/
def collectorEqualsLoop (s : State) : ℕ → Option ℕ → Option ℕ → Bool
  | 0, c1, c2 => c1 = c2
  | n + 1, c1, c2 =>
    if c1 = c2 then true
    else match c1.bind s.forward with
      | some d => collectorEqualsLoop s n (some d) c2
      | none => match c2.bind s.forward with
        | some d => collectorEqualsLoop s n c1 (some d)
        | none => false

/-- The same loop, with a result only where one of its exits is taken. -/
def collectorEqualsExit (s : State) : ℕ → Option ℕ → Option ℕ → Option Bool
  | 0, _, _ => none
  | n + 1, c1, c2 =>
    if c1 = c2 then some true
    else match c1.bind s.forward with
      | some d => collectorEqualsExit s n (some d) c2
      | none => match c2.bind s.forward with
        | some d => collectorEqualsExit s n c1 (some d)
        | none => some false

def collectorEquals (s : State) (c1 c2 : Option ℕ) : Bool :=
  collectorEqualsLoop s (2 * s.numCollector) c1 c2

end Acid

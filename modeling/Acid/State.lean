import Acid.HashTable
import Mathlib.Data.Int.Notation
import Mathlib.Logic.Relation

set_option autoImplicit false

/-!
# The state of the collector

Objects, links and collectors are addressed by numbers in the order of their
allocation; addresses are not reused. Locks are absent: a step of the model is
one call, or one loop iteration, that the code runs to completion.
-/
namespace Acid

/-- `link_t`. A link is created for a referent, so `target` is never `NULL`. -/
structure Link where
  which : Bool := false
  phantomized : Bool := false
  target : ℕ := 0
  src : ℕ := 0
  freed : Bool := false

/-- `OBJECT_MAGIC_NUMBER`. -/
def objectMagicNumber : ℕ := 10943156698286619218

/-- `acid_header_t`: `count false`, `count true` and `count2` are `count[0]`, `count[1]`
and `count[2]`, and `!which` is `BIT_FLIP(which)`. -/
structure Object where
  links : HashTable ℕ := .new
  which : Bool := false
  phantomized : Bool := false
  count : Bool → ℤ := fun _ => 0
  count2 : ℤ := 0
  collector : Option ℕ := none
  phantomizationComplete : Bool := true
  dtor : Bool := false
  magic : ℕ := objectMagicNumber
  freed : Bool := false

inductive ListName where
  | collect | merged | recovery | rebuild | clean
deriving DecidableEq

/-- `safelist_t`, named by its collector and its field there. -/
abbrev ListRef := ℕ × ListName

structure Safelist where
  data : List ℕ := []
  forward : Option ListRef := none

/-- `collector_t` with its `counter_t`. -/
structure Collector where
  refCount : ℤ := 0
  storeCount : ℤ := 0
  lists : ListName → Safelist := fun _ => {}
  forward : Option ℕ := none
  destroyed : Bool := false

/-- The two task bodies: `collector_run` and `_object_request_delete_task_run`. -/
inductive Task where
  | run (c : ℕ)
  | delete (o : ℕ)
deriving DecidableEq

/-- The next check or loop of a started `collector_run`, in program order. -/
inductive Loop where
  | merged | collect | recovery | rebuild | clean | exit
deriving DecidableEq

/-- The assertions of `object.c`, `link.c` and the merge loop. -/
inductive Assertion where
  | delLinks | removeCount | decCount | decPhantomCount
  | phantomizeCount | phantomizeCollector | phantomizeObject | phantomizeSource
  | phantomizeSourceCollector | linkCollector | linkEquals | mergeForward
  | rebuildCount | recoverWait | recoverComplete | recoverWeak | recoverLink | recoverCollector
  | cleanCount | setCollector
deriving DecidableEq

/-- What a run leaves in its ghost trace. The first six are calls, the others faults. -/
inductive Event where
  | requestDelete (o : ℕ)
  | removeLinks (o : ℕ)
  | objectDel (o : ℕ)
  | dtor (o : ℕ)
  | freeLink (l : ℕ)
  | collectorDestroy (c : ℕ)
  | assertFailed (a : Assertion)
  | nullDereference
  | useAfterFree (o : ℕ)
  | counterUnderflow (c : ℕ)
  | noReturn
deriving DecidableEq

/-- `claims` counts the external claims and `trace` logs the run; both are ghosts. -/
structure State where
  objects : ℕ → Object := fun _ => {}
  objectCount : ℕ := 0
  links : ℕ → Link := fun _ => {}
  linkCount : ℕ := 0
  collectors : ℕ → Collector := fun _ => {}
  numCollector : ℕ := 0
  work : List Task := []
  running : List (ℕ × Loop) := []
  acidWorldCount : ℕ := 0
  acidCollectCount : ℕ := 0
  claims : ℕ → ℕ := fun _ => 0
  trace : List Event := []

namespace State

def modifyObject (s : State) (o : ℕ) (f : Object → Object) : State :=
  { s with objects := Function.update s.objects o (f (s.objects o)) }

def modifyLink (s : State) (l : ℕ) (f : Link → Link) : State :=
  { s with links := Function.update s.links l (f (s.links l)) }

def modifyCollector (s : State) (c : ℕ) (f : Collector → Collector) : State :=
  { s with collectors := Function.update s.collectors c (f (s.collectors c)) }

def emit (s : State) (e : Event) : State := { s with trace := e :: s.trace }

/-- Record `e` unless `p` holds: an assertion, or the absence of undefined behaviour. -/
def check (s : State) (p : Prop) [Decidable p] (e : Event) : State :=
  if p then s else s.emit e

/-- `list_add_last(work, task)`. -/
def addTask (s : State) (t : Task) : State := { s with work := s.work ++ [t] }

/-- `&c->l`. -/
def safelist (s : State) (r : ListRef) : Safelist := (s.collectors r.1).lists r.2

def modifySafelist (s : State) (r : ListRef) (f : Safelist → Safelist) : State :=
  s.modifyCollector r.1 fun c =>
    { c with lists := Function.update c.lists r.2 (f (c.lists r.2)) }

/-- The forward pointers of collectors and of their lists. -/
def forward (s : State) (c : ℕ) : Option ℕ := (s.collectors c).forward
def listForward (s : State) (r : ListRef) : Option ListRef := (s.safelist r).forward

variable (s : State)

@[simp] theorem modifyObject_objects_self (o : ℕ) (f : Object → Object) :
    (s.modifyObject o f).objects o = f (s.objects o) := by
  simp [modifyObject]

theorem modifyObject_objects_ne {o x : ℕ} (f : Object → Object) (h : x ≠ o) :
    (s.modifyObject o f).objects x = s.objects x := by
  simp [modifyObject, h]

theorem modifyObject_objects (o x : ℕ) (f : Object → Object) :
    (s.modifyObject o f).objects x = if x = o then f (s.objects o) else s.objects x := by
  simp [modifyObject, Function.update_apply]

theorem modifyObject_links (o : ℕ) (f : Object → Object) :
    (s.modifyObject o f).links = s.links := rfl

theorem modifyLink_objects (l : ℕ) (f : Link → Link) :
    (s.modifyLink l f).objects = s.objects := rfl

theorem modifyLink_links (l k : ℕ) (f : Link → Link) :
    (s.modifyLink l f).links k = if k = l then f (s.links l) else s.links k := by
  simp [modifyLink, Function.update_apply]

theorem modifyCollector_collectors (c d : ℕ) (f : Collector → Collector) :
    (s.modifyCollector c f).collectors d = if d = c then f (s.collectors c) else s.collectors d := by
  simp [modifyCollector, Function.update_apply]

theorem modifySafelist_safelist (r q : ListRef) (f : Safelist → Safelist) :
    (s.modifySafelist r f).safelist q = if q = r then f (s.safelist r) else s.safelist q := by
  simp only [modifySafelist, safelist, modifyCollector_collectors]
  by_cases h1 : q.1 = r.1
  · by_cases h2 : q.2 = r.2
    · simp [h1, h2, Prod.ext_iff]
    · simp [h1, h2, Prod.ext_iff]
  · simp [h1, Prod.ext_iff]

theorem check_pos {p : Prop} [Decidable p] (h : p) (e : Event) : s.check p e = s := if_pos h

section
variable (p : Prop) [Decidable p] (e : Event)

@[simp] theorem check_objects : (s.check p e).objects = s.objects := by
  unfold check; split_ifs <;> rfl

@[simp] theorem check_objectCount : (s.check p e).objectCount = s.objectCount := by
  unfold check; split_ifs <;> rfl

@[simp] theorem check_links : (s.check p e).links = s.links := by
  unfold check; split_ifs <;> rfl

@[simp] theorem check_linkCount : (s.check p e).linkCount = s.linkCount := by
  unfold check; split_ifs <;> rfl

@[simp] theorem check_collectors : (s.check p e).collectors = s.collectors := by
  unfold check; split_ifs <;> rfl

@[simp] theorem check_numCollector : (s.check p e).numCollector = s.numCollector := by
  unfold check; split_ifs <;> rfl

@[simp] theorem check_work : (s.check p e).work = s.work := by
  unfold check; split_ifs <;> rfl

@[simp] theorem check_running : (s.check p e).running = s.running := by
  unfold check; split_ifs <;> rfl

@[simp] theorem check_claims : (s.check p e).claims = s.claims := by
  unfold check; split_ifs <;> rfl

end

end State

/-- An object that is allocated and not freed. -/
def Live (s : State) (o : ℕ) : Prop := o < s.objectCount ∧ (s.objects o).freed = false

/-- A collector that is created and not destroyed. -/
def Alive (s : State) (c : ℕ) : Prop := c < s.numCollector ∧ (s.collectors c).destroyed = false

/-- The records stored in the link tables. -/
def InTable (s : State) (l : ℕ) : Prop := ∃ o < s.objectCount, l ∈ (s.objects o).links.values

/-- A table link from `a` to `b`, phantomized or not. -/
def Edge (s : State) (a b : ℕ) : Prop :=
  ∃ l ∈ (s.objects a).links.values, (s.links l).target = b

/-- Reachable through link tables from an object that holds an external claim. -/
def Reachable (s : State) (o : ℕ) : Prop :=
  ∃ r, 0 < s.claims r ∧ Relation.ReflTransGen (Edge s) r o

end Acid

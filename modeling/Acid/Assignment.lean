import Acid.Accounting
import Acid.CollectLayout
import Acid.HeapStep
import Acid.Locker

set_option autoImplicit false

/-!
# `acid.c`: assigning a variable

A pointer is an address of 64 bits. The heap's headers lie in memory, and what
lies between them is not read.
-/
namespace Acid
open PointerForest

theorem objectDec_objects (s : State) (x : ℕ) (w : Bool) {y : ℕ} (hy : y ≠ x) :
    (objectDec s x w).objects y = s.objects y := by
  have hens : ∀ u : State, (objectEnsureCollector u x).objects y = u.objects y := by
    intro u
    unfold objectEnsureCollector
    cases (u.objects x).collector with
    | some c => rfl
    | none =>
      change (objectSetCollector _ x _).objects y = _
      rw [objectSetCollector_objects, if_neg hy]
  have hadd : ∀ (u : State) (c : ℕ), (collectorAddObject u c x).objects y = u.objects y := by
    intro u c
    unfold collectorAddObject
    dsimp only
    rw [objectSetCollector_objects, if_neg hy, (safelistAdd_same _ _ _).objects,
      State.modifyObject_objects_ne _ _ hy, State.modifyObject_objects_ne _ _ hy]
  unfold objectDec
  dsimp only
  split_ifs
  · change ((State.check _ _ _).objects) y = _
    rw [State.check_objects, State.modifyObject_objects_ne _ _ hy]
  · split
    · rw [hadd, hens, State.check_objects, State.modifyObject_objects_ne _ _ hy]
    · rw [hens, State.check_objects, State.modifyObject_objects_ne _ _ hy]
  · rw [State.check_objects, State.modifyObject_objects_ne _ _ hy]

/-- A count that stays positive is the only thing that changes. -/
theorem objectDec_of_pos {s : State} {x : ℕ} {w : Bool} (h : 1 < (s.objects x).count w) :
    objectDec s x w = s.modifyObject x fun o =>
      { o with count := Function.update o.count w (o.count w - 1) } := by
  unfold objectDec
  dsimp only
  rw [State.check_pos _ (by simp; omega)]
  simp only [State.modifyObject_objects_self, Function.update_self]
  rw [if_neg (by omega)]

/-! ## The last strong reference -/

/-- An object whose count on its own side is `z`. -/
def strongRecord (o : Object) (z : ℤ) : Object :=
  { o with count := Function.update o.count o.which z }

/-- The step from `s` to `s'` takes the last strong reference of `o`. Without any other reference
`o` gets a task that deletes it, and with one its collector, which is a new one where it has none,
has it to collect. -/
def Dropped (s s' : State) (o : ℕ) : Prop :=
  if (s.objects o).count (!(s.objects o).which) = 0 ∧ (s.objects o).count2 = 0 then
    s'.objects o = strongRecord (s.objects o) 0 ∧ s'.work = s.work ++ [.delete o] ∧
      s'.numCollector = s.numCollector
  else ∃ c, s'.objects o = { strongRecord (s.objects o) 1 with
        count2 := (s.objects o).count2 + 1
        collector := some c } ∧
      s'.forward c = none ∧ (s'.safelist (c, .collect)).data = (s.safelist (c, .collect)).data ++ [o] ∧
      ((s.objects o).collector.elim
        (c = s.numCollector ∧ s'.work = s.work ++ [.run c] ∧ s'.numCollector = s.numCollector + 1)
        fun d => LeadsTo s.forward d c ∧ s'.work = s.work ∧ s'.numCollector = s.numCollector)

theorem Dropped.congr {s u s' : State} {o : ℕ} (h : Dropped u s' o) (hobj : u.objects o = s.objects o)
    (hc : u.collectors = s.collectors) (hw : u.work = s.work) (hn : u.numCollector = s.numCollector) :
    Dropped s s' o := by
  unfold Dropped at h ⊢
  rw [hobj, hw, hn, forward_eq_of_collectors hc] at h
  simp only [State.safelist, hc] at h ⊢
  exact h

theorem objectSetCollector_work (s : State) (x : ℕ) (c : Option ℕ) :
    (objectSetCollector s x c).work = s.work := by
  have hdec : ∀ (u : State) (d : ℕ), (counterDecRef u d).work = u.work := fun u d => State.check_work ..
  have hrepoint : ∀ old new : Option ℕ, (counterRepoint s old new).work = s.work := by
    intro old new
    cases old with
    | none => cases new <;> rfl
    | some d => exact (hdec _ d).trans (by cases new <;> rfl)
  unfold objectSetCollector
  split_ifs
  · rfl
  · exact hrepoint _ _

theorem safelistAdd_work (s : State) (r : ListRef) (x : ℕ) : (safelistAdd s r x).work = s.work := by
  unfold safelistAdd
  split <;> rfl

/-- The record that `collector_add_object` leaves of the object, and what it leaves alone. -/
theorem collectorAddObject_record (s : State) (c x : ℕ) :
    (collectorAddObject s c x).objects x =
      { strongRecord (s.objects x) ((s.objects x).count (s.objects x).which + 1) with
        count2 := (s.objects x).count2 + 1
        collector := some (collectorUpdate s c) } ∧
    (collectorAddObject s c x).work = s.work ∧
    (collectorAddObject s c x).numCollector = s.numCollector := by
  unfold collectorAddObject
  dsimp only
  refine ⟨?_, ?_, ?_⟩
  · rw [objectSetCollector_objects, if_pos rfl, (safelistAdd_same _ _ _).objects,
      State.modifyObject_objects_self, State.modifyObject_objects_self]
    rfl
  · rw [objectSetCollector_work, safelistAdd_work]
    rfl
  · rw [(objectSetCollector_rest _ _ _).1, (safelistAdd_same _ _ _).numCollector]
    rfl

theorem objectEnsureCollector_record (s : State) (x : ℕ) : (objectEnsureCollector s x).objects x =
    { s.objects x with collector := some ((s.objects x).collector.getD s.numCollector) } := by
  unfold objectEnsureCollector
  cases hc : (s.objects x).collector with
  | some c =>
    change s.objects x = { s.objects x with collector := some c }
    rw [← hc]
  | none =>
    change (objectSetCollector _ x _).objects x = _
    rw [objectSetCollector_objects, if_pos rfl]
    rfl

theorem Collectors.addObject_collect {s : State} (h : Collectors s) (c x : ℕ) :
    (collectorAddObject s c x).forward (collectorUpdate s c) = none ∧
    ((collectorAddObject s c x).safelist (collectorUpdate s c, .collect)).data =
      (s.safelist (collectorUpdate s c, .collect)).data ++ [x] := by
  have hlayout := (h.layout_addObject c x).1
  have hforward : (collectorAddObject s c x).forward = s.forward := by
    unfold collectorAddObject
    dsimp only
    rw [objectSetCollector_forward, (safelistAdd_same _ _ _).forward]
    rfl
  constructor
  · rw [hforward]
    exact h.update_isRoot c
  · have hdata := congrArg (fun d : Layout => d.data (collectorUpdate s c, .collect)) hlayout
    simpa [layout, Layout.push] using hdata

theorem Collectors.update_numCollector {s : State} (h : Collectors s) :
    collectorUpdate s s.numCollector = s.numCollector := by
  apply root_of_root
  by_contra hne
  obtain ⟨b, hb⟩ := Option.ne_none_iff_exists'.mp hne
  exact Nat.lt_irrefl _ (h.forward_alive hb).1.1

/-- `object_dec` at the last strong reference. -/
theorem Collectors.objectDec_dropped {s : State} (h : Collectors s) {x : ℕ} (hx : Live s x)
    (hone : (s.objects x).count (s.objects x).which = 1) : Dropped s (objectDecStrong s x) x := by
  have hcounted : s.modifyObject x (fun o => { o with
      count := Function.update o.count (s.objects x).which (o.count (s.objects x).which - 1) }) =
        s.modifyObject x fun o => strongRecord o 0 := by
    simp [State.modifyObject, strongRecord, hone]
  have hrecord : (s.modifyObject x fun o => strongRecord o 0).objects x =
      strongRecord (s.objects x) 0 := State.modifyObject_objects_self ..
  have hu : Collectors (s.modifyObject x fun o => strongRecord o 0) :=
    h.modifyObject x (fun _ => rfl) fun _ => rfl
  have hlive : Live (s.modifyObject x fun o => strongRecord o 0) x :=
    ((modifyObject_frame s x rfl).live_iff x).mpr hx
  have hlayout : layout (s.modifyObject x fun o => strongRecord o 0) = layout s := layout_congr rfl rfl
  have hforward : (s.modifyObject x fun o => strongRecord o 0).forward = s.forward := rfl
  have hwork : (s.modifyObject x fun o => strongRecord o 0).work = s.work := rfl
  have hnum : (s.modifyObject x fun o => strongRecord o 0).numCollector = s.numCollector := rfl
  unfold Dropped objectDecStrong objectDec
  dsimp only
  rw [hcounted, State.check_pos _ (by simp [strongRecord])]
  generalize s.modifyObject x (fun o => strongRecord o 0) = u at *
  rw [hrecord]
  have hself : (strongRecord (s.objects x) 0).count (s.objects x).which = 0 :=
    Function.update_self ..
  have hother : (strongRecord (s.objects x) 0).count (!(strongRecord (s.objects x) 0).which) =
      (s.objects x).count (!(s.objects x).which) := Function.update_of_ne (Bool.not_ne_self _) ..
  have hphantom : (strongRecord (s.objects x) 0).count2 = (s.objects x).count2 := rfl
  by_cases hlast : (s.objects x).count (!(s.objects x).which) = 0 ∧ (s.objects x).count2 = 0
  · rw [if_pos hlast, if_pos ⟨hself, rfl⟩, hother, hphantom, if_pos hlast]
    refine ⟨hrecord, ?_, hnum⟩
    rw [← hwork]
    rfl
  · rw [if_neg hlast, if_pos ⟨hself, rfl⟩, hother, hphantom, if_neg hlast]
    obtain ⟨hens, hlay, hcol⟩ := hu.ensureCollector hlive
    have hcollector : (u.objects x).collector = (s.objects x).collector := by rw [hrecord]; rfl
    rw [hcol, hcollector, hnum]
    dsimp only
    obtain ⟨hobj, hw, hn⟩ := collectorAddObject_record (objectEnsureCollector u x)
      ((s.objects x).collector.getD s.numCollector) x
    obtain ⟨hroot, hdata⟩ := hens.addObject_collect ((s.objects x).collector.getD s.numCollector) x
    have hupdate : collectorUpdate (objectEnsureCollector u x) = collectorUpdate s :=
      congrArg Layout.root (hlay.trans hlayout)
    have hlists : ∀ r, ((objectEnsureCollector u x).safelist r).data = (s.safelist r).data :=
      congrFun (congrArg Layout.data (hlay.trans hlayout))
    rw [hupdate] at hroot hdata hobj
    rw [hlists] at hdata
    refine ⟨_, ?_, hroot, hdata, ?_⟩
    · rw [hobj, objectEnsureCollector_record, hrecord]
      simp [strongRecord]
    · rw [hw, hn]
      unfold objectEnsureCollector
      rw [hcollector]
      cases hc : (s.objects x).collector with
      | some d => exact ⟨root_leadsTo h.ranked h.bound d, hwork, hnum⟩
      | none =>
        have hnew : collectorUpdate s (none.getD s.numCollector) = s.numCollector :=
          h.update_numCollector
        rw [hnew]
        refine ⟨rfl, ?_, ?_⟩
        · change (objectSetCollector _ x _).work ++ [.run u.numCollector] = _
          rw [objectSetCollector_work, hnum]
          exact congrArg (· ++ [.run s.numCollector]) hwork
        · change (objectSetCollector _ x _).numCollector = _
          rw [(objectSetCollector_rest _ _ _).1, ← hnum]

theorem SameHeap.magic {s s' : State} (h : SameHeap s s') (o : ℕ) :
    (s'.objects o).magic = (s.objects o).magic :=
  show (s'.objects o).shape.magic = (s.objects o).shape.magic by rw [h.shape o]

/-- Only the delete task changes a magic number, and it frees the object. -/
theorem HeapStep.magic {s s' : State} {ls ms : List ℕ} (hs : HeapStep s s' ls ms)
    (h : ∀ o, (s.objects o).freed = false → (s.objects o).magic = objectMagicNumber) (o : ℕ)
    (hf : (s'.objects o).freed = false) : (s'.objects o).magic = objectMagicNumber := by
  have hmod : ∀ {u : State} {obj : ℕ} {f : Object → Object}, SameHeap (u.modifyObject obj f) s' →
      (∀ x, (u.objects x).freed = (s.objects x).freed ∧ (u.objects x).magic = (s.objects x).magic) →
      (∀ a, (f a).freed = false → a.freed = false ∧ (f a).magic = a.magic) →
      (s'.objects o).magic = objectMagicNumber := by
    intro u obj f heap hu hfa
    rw [heap.freed, State.modifyObject_objects] at hf
    rw [heap.magic, State.modifyObject_objects]
    by_cases ho : o = obj
    · rw [if_pos ho] at hf ⊢
      rw [(hfa _ hf).2, (hu obj).2]
      exact h obj ((hu obj).1.symm.trans (hfa _ hf).1)
    · rw [if_neg ho] at hf ⊢
      rw [(hu o).2]
      exact h o ((hu o).1.symm.trans hf)
  have hsame : ∀ x, (s.objects x).freed = (s.objects x).freed ∧
      (s.objects x).magic = (s.objects x).magic := fun _ => ⟨rfl, rfl⟩
  cases hs with
  | quiet heap links =>
    rw [heap.magic]
    exact h o ((heap.freed o).symm.trans hf)
  | init d heap links =>
    rw [heap.freed] at hf
    rw [heap.magic]
    by_cases ho : o = s.objectCount
    · simp [initHeap, ho]
    · simp only [initHeap, Function.update_of_ne ho] at hf ⊢
      exact h o hf
  | clear obj f heap links => exact hmod heap hsame fun a ha => ⟨ha, rfl⟩
  | link obj f x live named anew heap links =>
    exact hmod heap (fun _ => ⟨rfl, rfl⟩) fun a ha => ⟨ha, rfl⟩
  | phantomize obj heap links => exact hmod heap hsame fun a ha => ⟨ha, rfl⟩
  | recover obj strong heap links => exact hmod heap hsame fun a ha => ⟨ha, rfl⟩
  | empty obj heap links => exact hmod heap hsame fun a ha => ⟨ha, rfl⟩
  | delete obj heap links =>
    refine hmod heap hsame fun a ha => ?_
    simp [deletedRecord] at ha

section
variable {s : State} (run : Run anyStep initial s)
include run

theorem Run.magic (o : ℕ) (hf : (s.objects o).freed = false) :
    (s.objects o).magic = objectMagicNumber := by
  have hboth : Sound s (restLedger False False s) ∧
      ∀ o, (s.objects o).freed = false → (s.objects o).magic = objectMagicNumber := by
    apply run.invariant fun s => Sound s (restLedger False False s) ∧
      ∀ o, (s.objects o).freed = false → (s.objects o).magic = objectMagicNumber
    · exact ⟨sound_initial False False, fun _ _ => rfl⟩
    · intro u a hu he _
      exact ⟨hu.1.exec he (fun hf => hf.elim) fun hf => hf.elim,
        (exec_heapStep hu.1 rfl he).magic hu.2⟩
  exact hboth.2 o hf

/-- The claims are counted on the object's side. -/
theorem Run.claims_le (o : ℕ) : (s.claims o : ℤ) ≤ (s.objects o).count (s.objects o).which := by
  have h := run.count_eq o (s.objects o).which
  have hocc := occurrences_nonneg s .collect o
  rw [sideRefs, if_pos rfl] at h
  omega

end

namespace Assignment

/-- The heap in memory: `objectAt` finds the live object whose header is at an address. Blocks
are allocated apart and end below the top of the address space, and a variable's claim is
counted on its object's side. -/
structure Memory where
  heap : State
  sizeofObject : BitVec 64
  objectAt : BitVec 64 → Option ℕ
  sizeof_ne : sizeofObject ≠ 0#64
  live : ∀ {p o}, objectAt p = some o → Live heap o ∧ (heap.objects o).magic = objectMagicNumber
  apart : ∀ {p q o}, objectAt p = some o → objectAt q = some o → p = q
  block : ∀ {p o}, objectAt p = some o → p ≠ 0#64 ∧ p + sizeofObject ≠ 0#64
  counted : ∀ {o}, Live heap o → (heap.claims o : ℤ) ≤ (heap.objects o).count (heap.objects o).which
  collectors : Collectors heap

/-- The heap of a run, with its live objects laid out in memory. -/
def Memory.ofRun {s : State} (run : Run anyStep initial s) (sizeofObject : BitVec 64)
    (objectAt : BitVec 64 → Option ℕ) (sizeof_ne : sizeofObject ≠ 0#64)
    (live : ∀ p o, objectAt p = some o → Live s o)
    (apart : ∀ p q o, objectAt p = some o → objectAt q = some o → p = q)
    (block : ∀ p o, objectAt p = some o → p ≠ 0#64 ∧ p + sizeofObject ≠ 0#64) : Memory where
  heap := s
  sizeofObject := sizeofObject
  objectAt := objectAt
  sizeof_ne := sizeof_ne
  live h := ⟨live _ _ h, run.magic _ (live _ _ h).2⟩
  apart h h' := apart _ _ _ h h'
  block h := block _ _ h
  counted _ := run.claims_le _
  collectors := run.anySound.collectors

def acidGetHeader (m : Memory) (ptr : BitVec 64) : BitVec 64 := ptr - m.sizeofObject

def acidIsManaged (m : Memory) (ptr : BitVec 64) : Bool :=
  ptr ≠ 0#64 &&
    match m.objectAt (ptr - m.sizeofObject) with
    | some o => (m.heap.objects o).magic = objectMagicNumber
    | none => false

/-- An argument of `locker_start2`. -/
def lockable (p : BitVec 64) : Option (BitVec 64) := if p = 0#64 then none else some p

/-- What `_acid_set_raw` does: the locks it compares and takes, the heap between the increment
and the decrement, and the heap and the variable at the end. -/
structure Assigned where
  locks : List (BitVec 64)
  raised : State
  heap : State
  var : BitVec 64

/-- `var` is the old value of the variable. A count at an address without a header is undefined
behaviour, and leaves the objects alone here. -/
def acidSetRaw (m : Memory) (var val : BitVec 64) : Assigned :=
  let valobj := acidGetHeader m val
  let varobj := if acidIsManaged m var then acidGetHeader m var else 0#64
  let raised :=
    if val ≠ 0#64 then
      match m.objectAt valobj with
      | some o => (objectIncStrong m.heap o).addClaim o
      | none => m.heap
    else m.heap
  let heap :=
    if varobj ≠ 0#64 then
      match m.objectAt varobj with
      | some o => objectDecStrong (raised.dropClaim o) o
      | none => raised
    else raised
  { locks := Locker.filterNull [lockable valobj, lockable varobj]
    raised := raised
    heap := heap
    var := val }

/-- The object that a pointer refers to. -/
def referent (m : Memory) (ptr : BitVec 64) : Option ℕ :=
  if ptr = 0#64 then none else m.objectAt (acidGetHeader m ptr)

/-- The strong count of `o` with the claims of the assignment moved. -/
def netCount (m : Memory) (var val : BitVec 64) (o : ℕ) : ℤ :=
  (m.heap.objects o).count (m.heap.objects o).which +
    (if referent m val = some o then 1 else 0) - if referent m var = some o then 1 else 0

/-- The assignment moves one claim. An object whose strong count stays positive, as that of an
object with a claim does, is counted and nothing else, and no task is started for it. The old
value's object is dropped when that was its last strong reference. -/
structure MovesOneClaim (m : Memory) (var val : BitVec 64) : Prop where
  locks : ∀ p ∈ (acidSetRaw m var val).locks, ∃ o, m.objectAt p = some o
  stored : (acidSetRaw m var val).var = val
  claims : ∀ o, ((acidSetRaw m var val).heap.claims o : ℤ) = m.heap.claims o +
    (if referent m val = some o then 1 else 0) - if referent m var = some o then 1 else 0
  claimed : ∀ o, Live m.heap o → 0 < (acidSetRaw m var val).heap.claims o → 0 < netCount m var val o
  held : ∀ o, 0 < netCount m var val o →
    0 < ((acidSetRaw m var val).raised.objects o).count (m.heap.objects o).which ∧
    (acidSetRaw m var val).heap.objects o = { m.heap.objects o with
      count := Function.update (m.heap.objects o).count (m.heap.objects o).which
        (netCount m var val o) }
  last : ∀ o, referent m var = some o → ¬ 0 < netCount m var val o →
    Dropped m.heap (acidSetRaw m var val).heap o
  tasks : (∀ o, referent m var = some o → 0 < netCount m var val o) →
    (acidSetRaw m var val).heap.work = m.heap.work ∧
      (acidSetRaw m var val).heap.numCollector = m.heap.numCollector
  others : ∀ o, referent m val ≠ some o → referent m var ≠ some o →
    (acidSetRaw m var val).heap.objects o = m.heap.objects o
  links : (acidSetRaw m var val).heap.links = m.heap.links

section
variable (m : Memory) {var val : BitVec 64}

/-- The pointers that the callers of `_acid_set_raw` have. -/
def NullOrManaged (ptr : BitVec 64) : Prop := ptr = 0#64 ∨ ∃ o, m.objectAt (acidGetHeader m ptr) = some o

/-- The old value of a variable is `NULL`, or a managed pointer with the variable's claim. -/
def NullOrClaimed (var : BitVec 64) : Prop :=
  var = 0#64 ∨ ∃ o, m.objectAt (acidGetHeader m var) = some o ∧ 0 < m.heap.claims o

end

section
variable {m : Memory} {var val : BitVec 64}

/-- The data of a managed object never lie at `NULL`. -/
theorem ne_zero_of_objectAt {o : ℕ} (h : m.objectAt (acidGetHeader m var) = some o) : var ≠ 0#64 := by
  intro hz
  apply (m.block h).2
  rw [hz, acidGetHeader, BitVec.sub_add_cancel]

theorem referent_eq_some {o : ℕ} : referent m var = some o ↔
    m.objectAt (acidGetHeader m var) = some o := by
  unfold referent
  constructor
  · intro h
    split_ifs at h
    exact h
  · intro h
    rw [if_neg (ne_zero_of_objectAt h), h]

/-- The header of `NULL` is an address like any other, and no object's. -/
theorem objectAt_header_zero : m.objectAt (acidGetHeader m 0#64) = none := by
  cases h : m.objectAt (acidGetHeader m 0#64) with
  | none => rfl
  | some o => exact absurd rfl (ne_zero_of_objectAt h)

theorem claims_referent (hvar : NullOrClaimed m var) {x : ℕ} (hx : referent m var = some x) :
    0 < m.heap.claims x := by
  rcases hvar with hz | ⟨y, hy, hc⟩
  · exact absurd hz (ne_zero_of_objectAt (referent_eq_some.mp hx))
  · have heq := hy.symm.trans (referent_eq_some.mp hx)
    cases heq
    exact hc

theorem varobj_eq (hvar : NullOrClaimed m var) :
    (if acidIsManaged m var then acidGetHeader m var else 0#64) =
      if var = 0#64 then 0#64 else acidGetHeader m var := by
  rcases hvar with hz | ⟨o, ho, _⟩
  · simp [hz, acidIsManaged]
  · have hne := ne_zero_of_objectAt ho
    have hman : acidIsManaged m var = true := by
      unfold acidIsManaged
      rw [show m.objectAt (var - m.sizeofObject) = some o from ho]
      simpa [(m.live ho).2] using hne
    rw [if_pos hman, if_neg hne]

theorem raised_eq : (acidSetRaw m var val).raised =
    match referent m val with
    | some o => (objectIncStrong m.heap o).addClaim o
    | none => m.heap := by
  unfold acidSetRaw referent
  by_cases hv : val = 0#64
  · simp [hv]
  · simp [hv]

/-- The increment of the new value's object changes no collector and starts no task. -/
theorem raised_collectors : (acidSetRaw m var val).raised.collectors = m.heap.collectors ∧
    (acidSetRaw m var val).raised.work = m.heap.work ∧
    (acidSetRaw m var val).raised.numCollector = m.heap.numCollector ∧
    Collectors (acidSetRaw m var val).raised := by
  rw [raised_eq]
  cases referent m val with
  | none => exact ⟨rfl, rfl, rfl, m.collectors⟩
  | some x =>
    have hinc := m.collectors.modifyObject x (f := fun o =>
      { o with count := Function.update o.count o.which (o.count o.which + 1) }) (fun _ => rfl)
      fun _ => rfl
    exact ⟨rfl, rfl, rfl, hinc.congr rfl rfl rfl (fun _ => rfl) (fun _ _ hl => hl) fun _ hm => hm⟩

theorem heap_eq (hvar : NullOrClaimed m var) : (acidSetRaw m var val).heap =
    match referent m var with
    | some o => objectDecStrong ((acidSetRaw m var val).raised.dropClaim o) o
    | none => (acidSetRaw m var val).raised := by
  have h : (acidSetRaw m var val).heap =
      if (if acidIsManaged m var then acidGetHeader m var else 0#64) ≠ 0#64 then
        match m.objectAt (if acidIsManaged m var then acidGetHeader m var else 0#64) with
        | some o => objectDecStrong ((acidSetRaw m var val).raised.dropClaim o) o
        | none => (acidSetRaw m var val).raised
      else (acidSetRaw m var val).raised := rfl
  rw [h, varobj_eq hvar]
  rcases hvar with hz | ⟨o, ho, _⟩
  · simp [hz, referent]
  · rw [if_neg (ne_zero_of_objectAt ho), if_pos (m.block ho).1, ho, referent_eq_some.mpr ho]

theorem locks_eq (hvar : NullOrClaimed m var) : (acidSetRaw m var val).locks =
    Locker.filterNull [lockable (acidGetHeader m val),
      lockable (if var = 0#64 then 0#64 else acidGetHeader m var)] := by
  rw [← varobj_eq hvar]
  rfl

theorem raised_objects (o : ℕ) : (acidSetRaw m var val).raised.objects o =
    strongRecord (m.heap.objects o) ((m.heap.objects o).count (m.heap.objects o).which +
      if referent m val = some o then 1 else 0) := by
  rw [raised_eq]
  cases h : referent m val with
  | none => simp [strongRecord]
  | some x =>
    change (objectIncStrong m.heap x).objects o = _
    unfold objectIncStrong
    rw [State.modifyObject_objects]
    by_cases hx : o = x
    · subst hx
      simp [strongRecord]
    · have hx' : ¬ some x = some o := by simpa using Ne.symm hx
      rw [if_neg hx, if_neg hx']
      simp [strongRecord]

/-- The decrement on the old value's object. -/
theorem heap_objects_of_pos (hvar : NullOrClaimed m var) {x : ℕ} (hx : referent m var = some x)
    (hpos : 0 < netCount m var val x) : (acidSetRaw m var val).heap =
      ((acidSetRaw m var val).raised.dropClaim x).modifyObject x fun o =>
        strongRecord o (o.count o.which - 1) := by
  have hobj : ((acidSetRaw m var val).raised.dropClaim x).objects x = strongRecord
      (m.heap.objects x) ((m.heap.objects x).count (m.heap.objects x).which +
        if referent m val = some x then 1 else 0) := raised_objects x
  rw [heap_eq hvar, hx]
  dsimp only
  unfold objectDecStrong
  rw [objectDec_of_pos]
  · rfl
  · rw [hobj]
    unfold netCount at hpos
    rw [if_pos hx] at hpos
    simp only [strongRecord, Function.update_self]
    omega

theorem heap_objects_of_ne (hvar : NullOrClaimed m var) {o : ℕ} (ho : referent m var ≠ some o) :
    (acidSetRaw m var val).heap.objects o = (acidSetRaw m var val).raised.objects o := by
  rw [heap_eq hvar]
  cases hx : referent m var with
  | none => rfl
  | some x =>
    have hne : o ≠ x := by
      rintro rfl
      exact ho hx
    exact objectDec_objects _ _ _ hne

theorem heap_objects (hvar : NullOrClaimed m var) {o : ℕ} (hpos : 0 < netCount m var val o) :
    (acidSetRaw m var val).heap.objects o =
      strongRecord (m.heap.objects o) (netCount m var val o) := by
  by_cases ho : referent m var = some o
  · have hr : ((acidSetRaw m var val).raised.dropClaim o).objects o = strongRecord
        (m.heap.objects o) ((m.heap.objects o).count (m.heap.objects o).which +
          if referent m val = some o then 1 else 0) := raised_objects o
    rw [heap_objects_of_pos hvar ho hpos, State.modifyObject_objects_self, hr, netCount,
      if_pos ho]
    simp [strongRecord]
  · rw [heap_objects_of_ne hvar ho, raised_objects, netCount, if_neg ho, sub_zero]

/-- The old value's object at its last strong reference, which is not the new value's. -/
theorem heap_dropped (hvar : NullOrClaimed m var) {o : ℕ} (ho : referent m var = some o)
    (hlast : ¬ 0 < netCount m var val o) : Dropped m.heap (acidSetRaw m var val).heap o := by
  obtain ⟨hlive, _⟩ := m.live (referent_eq_some.mp ho)
  have hclaim := claims_referent hvar ho
  have hcount := m.counted hlive
  have hval : referent m val ≠ some o := by
    intro hval
    rw [netCount, if_pos hval, if_pos ho] at hlast
    omega
  have hone : (m.heap.objects o).count (m.heap.objects o).which = 1 := by
    rw [netCount, if_neg hval, if_pos ho] at hlast
    omega
  have hobj : ((acidSetRaw m var val).raised.dropClaim o).objects o = m.heap.objects o := by
    change (acidSetRaw m var val).raised.objects o = _
    rw [raised_objects, if_neg hval, add_zero]
    simp [strongRecord]
  obtain ⟨hc, hw, hn, hcollectors⟩ := @raised_collectors m var val
  have hdropped : Collectors ((acidSetRaw m var val).raised.dropClaim o) :=
    hcollectors.congr rfl rfl rfl (fun _ => rfl) (fun _ _ hl => hl) fun _ hm => hm
  have hliveo : Live ((acidSetRaw m var val).raised.dropClaim o) o := by
    refine ⟨?_, by rw [hobj]; exact hlive.2⟩
    have hnum : ((acidSetRaw m var val).raised.dropClaim o).objectCount = m.heap.objectCount := by
      change (acidSetRaw m var val).raised.objectCount = _
      rw [raised_eq]
      cases referent m val <;> rfl
    rw [hnum]
    exact hlive.1
  rw [heap_eq hvar, ho]
  exact (hdropped.objectDec_dropped hliveo (by rw [hobj]; exact hone)).congr hobj hc hw hn

theorem heap_claims (hvar : NullOrClaimed m var) (o : ℕ) :
    ((acidSetRaw m var val).heap.claims o : ℤ) = m.heap.claims o +
      (if referent m val = some o then 1 else 0) - if referent m var = some o then 1 else 0 := by
  have hraised : ∀ o, (acidSetRaw m var val).raised.claims o = m.heap.claims o +
      if referent m val = some o then 1 else 0 := by
    intro o
    rw [raised_eq]
    cases referent m val with
    | none => simp
    | some x =>
      change (Function.update m.heap.claims x (m.heap.claims x + 1)) o = _
      by_cases hx : o = x
      · simp [hx]
      · simp [hx, Ne.symm hx]
  rw [heap_eq hvar]
  cases hx : referent m var with
  | none =>
    simp only [reduceCtorEq, if_false, sub_zero]
    rw [hraised]
    split_ifs <;> simp
  | some x =>
    dsimp only
    have hdec := (objectDec_frame ((acidSetRaw m var val).raised.dropClaim x) x
      (((acidSetRaw m var val).raised.dropClaim x).objects x).which).claims
    change ((objectDec _ _ _).claims o : ℤ) = _
    rw [hdec]
    change ((Function.update (acidSetRaw m var val).raised.claims x
      ((acidSetRaw m var val).raised.claims x - 1) o : ℕ) : ℤ) = _
    by_cases ho : o = x
    · subst ho
      have := claims_referent hvar hx
      rw [Function.update_self, hraised, if_pos rfl]
      split_ifs <;> omega
    · have ho' : ¬ some x = some o := by simpa using Ne.symm ho
      rw [Function.update_of_ne ho, hraised, if_neg ho']
      split_ifs <;> simp

/-- `_acid_set_raw` for a value that is not `NULL`. -/
theorem movesOneClaim (hvar : NullOrClaimed m var) {x : ℕ} (hval : referent m val = some x) :
    MovesOneClaim m var val where
  locks := by
    intro p hp
    rw [locks_eq hvar, Locker.mem_filterNull] at hp
    have hlock : ∀ q, some p = lockable q → p = q := by
      intro q hq
      unfold lockable at hq
      split_ifs at hq
      exact Option.some.inj hq
    simp only [List.mem_cons, List.not_mem_nil, or_false] at hp
    rcases hp with hp | hp
    · rw [hlock _ hp]
      exact ⟨x, referent_eq_some.mp hval⟩
    · by_cases hz : var = 0#64
      · rw [if_pos hz] at hp
        simp [lockable] at hp
      · rw [if_neg hz] at hp
        rw [hlock _ hp]
        rcases hvar with hz' | ⟨y, hy, _⟩
        · exact absurd hz' hz
        · exact ⟨y, hy⟩
  stored := rfl
  claims := heap_claims hvar
  claimed := by
    intro o hlive hpos
    have hc : ((acidSetRaw m var val).heap.claims o : ℤ) = _ := heap_claims hvar o
    have hcount := m.counted hlive
    unfold netCount
    omega
  held := by
    intro o hpos
    refine ⟨?_, heap_objects hvar hpos⟩
    rw [raised_objects]
    unfold netCount at hpos
    simp only [strongRecord, Function.update_self]
    split_ifs at hpos ⊢ <;> omega
  last o := heap_dropped hvar
  tasks := by
    intro hpos
    obtain ⟨_, hw, hn, _⟩ := @raised_collectors m var val
    cases hv : referent m var with
    | none =>
      rw [heap_eq hvar, hv]
      exact ⟨hw, hn⟩
    | some y =>
      rw [heap_objects_of_pos hvar hv (hpos y hv)]
      exact ⟨hw, hn⟩
  others := by
    intro o h1 h2
    rw [heap_objects_of_ne hvar h2, raised_objects, if_neg h1, add_zero]
    simp [strongRecord]
  links := by
    have hraised : (acidSetRaw m var val).raised.links = m.heap.links := by
      rw [raised_eq, hval]
      rfl
    rw [heap_eq hvar]
    cases referent m var with
    | none => exact hraised
    | some y => exact ((objectDec_frame _ _ _).links).trans hraised

/-- The lock computed from `NULL` is taken. -/
theorem not_movesOneClaim_zero (hvar : NullOrClaimed m var) : ¬ MovesOneClaim m var 0#64 := by
  intro h
  have hne : acidGetHeader m 0#64 ≠ 0#64 := by
    intro hz
    apply m.sizeof_ne
    unfold acidGetHeader at hz
    simpa using hz
  obtain ⟨o, ho⟩ := h.locks (acidGetHeader m 0#64) (by
    rw [locks_eq hvar, Locker.mem_filterNull]
    simp [lockable, hne])
  rw [objectAt_header_zero] at ho
  cases ho

end

/-- `_acid_set_raw` moves one claim exactly when the new value is not `NULL`: the header of
`val` is computed, and its lock requested, before the test. -/
theorem acidSetRaw_movesOneClaim_iff (m : Memory) {var val : BitVec 64}
    (hvar : NullOrClaimed m var) (hval : NullOrManaged m val) :
    MovesOneClaim m var val ↔ val ≠ 0#64 := by
  constructor
  · rintro h rfl
    exact not_movesOneClaim_zero hvar h
  · intro hne
    rcases hval with hz | ⟨x, hx⟩
    · exact absurd hz hne
    · exact movesOneClaim hvar (referent_eq_some.mpr hx)

/-- Two new objects, at 4096 and 8192. -/
def twoBlocks : Memory :=
  Memory.ofRun (s := exec (exec initial (.initStrong false)) (.initStrong false))
    (.step (.step .start trivial trivial) trivial trivial) 136#64
    (fun p => if p = 4096#64 then some 0 else if p = 8192#64 then some 1 else none) (by decide)
    (by
      intro p o h
      split_ifs at h <;> cases h <;> exact ⟨by decide, rfl⟩)
    (by
      intro p q o hp hq
      split_ifs at hp hq <;> simp_all <;> omega)
    (by
      intro p o h
      split_ifs at h with h1 h2
      · subst h1
        decide
      · subst h2
        decide)

/-- A variable that holds the only claim on the first object is assigned the second. -/
theorem acidSetRaw_twoBlocks : MovesOneClaim twoBlocks (4096#64 + 136#64) (8192#64 + 136#64) ∧
    Dropped twoBlocks.heap (acidSetRaw twoBlocks (4096#64 + 136#64) (8192#64 + 136#64)).heap 0 := by
  have hmoves : MovesOneClaim twoBlocks (4096#64 + 136#64) (8192#64 + 136#64) :=
    (acidSetRaw_movesOneClaim_iff twoBlocks (.inr ⟨0, by decide, by decide⟩)
      (.inr ⟨1, by decide⟩)).mpr (by decide)
  exact ⟨hmoves, hmoves.last 0 (by decide) (by decide)⟩

/-- A variable that holds the first object is assigned `NULL`. -/
theorem acidSetRaw_null : ¬ ∀ (m : Memory) (var val : BitVec 64), NullOrClaimed m var →
    NullOrManaged m val → MovesOneClaim m var val := by
  intro h
  have hvar : NullOrClaimed twoBlocks (4096#64 + 136#64) := .inr ⟨0, by decide, by decide⟩
  have hmoves := h twoBlocks _ 0#64 hvar (.inl rfl)
  obtain ⟨o, ho⟩ := hmoves.locks (0#64 - 136#64) (by decide)
  revert ho
  have hnone : twoBlocks.objectAt (0#64 - 136#64) = none := by decide
  rw [hnone]
  simp

end Assignment
end Acid

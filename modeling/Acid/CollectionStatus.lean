import Acid.Locker
import Acid.PhantomizeWindow
import Acid.TaskPool

set_option autoImplicit false

/-!
# The statuses of the collection library that are dropped

`safelist_add`, `worker_add_task`, `object_set` and `locker_start` count or lock first,
add to a container next, and ignore whether the container has taken the element.
-/
namespace Acid.CollectionStatus
open PointerForest Tally

/-- `CC_OK` and `CC_ERR_ALLOC`. -/
inductive CCStat where
  | ok | errAlloc
deriving DecidableEq

/-- The heap, and what the calls to come of `list_add`, of `list_add_last` on the work queue
and of `hashtable_add` return. -/
structure World where
  heap : State
  listAdds : ℕ → CCStat
  workAdds : ℕ → CCStat
  tableAdds : ℕ → CCStat

/-- A part of a function that adds to no container. -/
def World.on (w : World) (f : State → State) : World := { w with heap := f w.heap }

def listAdd (w : World) (r : ListRef) (datum : ℕ) : World where
  heap := match w.listAdds 0 with
    | .ok => w.heap.modifySafelist r fun l => { l with data := l.data ++ [datum] }
    | .errAlloc => w.heap
  listAdds n := w.listAdds (n + 1)
  workAdds := w.workAdds
  tableAdds := w.tableAdds

def workerAddTask (w : World) (t : Task) : World where
  heap := match w.workAdds 0 with
    | .ok => w.heap.addTask t
    | .errAlloc => w.heap
  listAdds := w.listAdds
  workAdds n := w.workAdds (n + 1)
  tableAdds := w.tableAdds

def hashtableAdd (w : World) (obj key l : ℕ) : World where
  heap := match w.tableAdds 0 with
    | .ok => w.heap.modifyObject obj fun o => { o with links := o.links.add key l }
    | .errAlloc => w.heap
  listAdds := w.listAdds
  workAdds := w.workAdds
  tableAdds n := w.tableAdds (n + 1)

/-! ## The functions, with the containers' statuses -/

def safelistPush (w : World) (r : ListRef) (datum : ℕ) : World :=
  listAdd (w.on fun s => counterIncStore s r.1) r datum

def safelistAdd (w : World) (r : ListRef) (datum : ℕ) : World :=
  match w.heap.listForward r with
  | none => safelistPush w r datum
  | some f => safelistPush w (chase w.heap.listForward w.heap.numCollector f) datum

def safelistDrain (dest r : ListRef) : ℕ → World → World
  | 0, w => w
  | n + 1, w =>
    match safelistPoll w.heap r with
    | (s, none) => { w with heap := s }
    | (s, some o) => safelistDrain dest r n (safelistAdd { w with heap := s } dest o)

def safelistForward (w : World) (r dest : ListRef) : World :=
  (safelistDrain dest r (w.heap.safelist r).data.length w).on fun s =>
    s.modifySafelist r fun l => { l with forward := some dest }

def collectorForwardSafelistsTo (w : World) (collector dest : ℕ) : World :=
  let w := safelistForward w (collector, .collect) (dest, route .collect)
  let w := safelistForward w (collector, .merged) (dest, route .merged)
  let w := safelistForward w (collector, .rebuild) (dest, route .rebuild)
  let w := safelistForward w (collector, .clean) (dest, route .clean)
  safelistForward w (collector, .recovery) (dest, route .recovery)

def collectorMerge (w : World) (collector source : ℕ) : World :=
  (collectorForwardSafelistsTo w source collector).on fun s =>
    collectorSetForward s source (some collector)

def collectorAddObject (w : World) (collector obj : ℕ) : World :=
  let addTo := collectorUpdate w.heap collector
  let w := w.on fun s => s.modifyObject obj fun o =>
    { o with count := Function.update o.count o.which (o.count o.which + 1) }
  let w := w.on fun s => s.modifyObject obj fun o => { o with count2 := o.count2 + 1 }
  let w := safelistAdd w (addTo, .collect) obj
  w.on fun s => objectSetCollector s obj (some addTo)

def objectRequestDelete (w : World) (obj : ℕ) : World :=
  workerAddTask (w.on fun s => s.emit (.requestDelete obj)) (.delete obj)

def objectEnsureCollector (w : World) (obj : ℕ) : World :=
  match (w.heap.objects obj).collector with
  | some _ => w
  | none =>
    let (s, c) := collectorCreate w.heap
    workerAddTask { w with heap := objectSetCollector s obj (some c) } (.run c)

def objectDec (w : World) (obj : ℕ) (b : Bool) : World :=
  let w := w.on fun s => s.modifyObject obj fun o =>
    { o with count := Function.update o.count b (o.count b - 1) }
  let w := w.on fun s => s.check (0 ≤ (s.objects obj).count b) (.assertFailed .decCount)
  let o := w.heap.objects obj
  if o.count b = 0 ∧ b = o.which then
    if o.count (!o.which) = 0 ∧ o.count2 = 0 then objectRequestDelete w obj
    else
      let w := objectEnsureCollector w obj
      match (w.heap.objects obj).collector with
      | some c => collectorAddObject w c obj
      | none => w
  else w

def objectDecPhantom (w : World) (obj : ℕ) : World :=
  let w := w.on fun s => s.modifyObject obj fun o => { o with count2 := o.count2 - 1 }
  let w := w.on fun s => s.check (0 ≤ (s.objects obj).count2) (.assertFailed .decPhantomCount)
  let o := w.heap.objects obj
  if o.count2 = 0 then
    if o.count false = 0 ∧ o.count true = 0 then objectRequestDelete w obj
    else w.on fun s => objectSetCollector s obj none
  else w

def linkDec (w : World) (l : ℕ) : World :=
  let lk := w.heap.links l
  if lk.phantomized then objectDecPhantom w lk.target else objectDec w lk.target lk.which

def mergeLoop (obj target : ℕ) : ℕ → World → ℕ → ℕ → World × Bool
  | 0, w, _, _ => (w.on fun s => s.emit .noReturn, false)
  | n + 1, w, t, c =>
    if w.heap.forward t = some c ∧ w.heap.forward c = none then
      (w.on fun s => objectSetCollector (objectSetCollector s target (some c)) obj (some c), false)
    else if w.heap.forward c = some t ∧ w.heap.forward t = none then
      (w.on fun s => objectSetCollector (objectSetCollector s target (some t)) obj (some t), false)
    else match w.heap.forward t with
      | some t' => mergeLoop obj target n w t' c
      | none => match w.heap.forward c with
        | some c' => mergeLoop obj target n w t c'
        | none =>
          if c = t then (w, false)
          else
            let w := collectorMerge w t c
            let w := w.on fun s => s.check (s.forward c = some t) (.assertFailed .mergeForward)
            (w.on fun s =>
              objectSetCollector (objectSetCollector s target (some t)) obj (some t), true)

def objectMergeCollectors (w : World) (obj target : ℕ) : World × Bool :=
  match (w.heap.objects obj).collector, (w.heap.objects target).collector with
  | none, none => (w, false)
  | some c, none => (w.on fun s => objectSetCollector s target (some c), false)
  | none, some t => (w.on fun s => objectSetCollector s obj (some t), false)
  | some c, some t =>
    if t = c then (w, false) else mergeLoop obj target (2 * w.heap.numCollector + 1) w t c

def objectSetLabel (w : World) (obj referent l : ℕ) : World :=
  if (w.heap.objects obj).phantomized then
    let w := (objectMergeCollectors w obj referent).1
    let w := w.on fun s =>
      s.check ((s.objects obj).collector ≠ none) (.assertFailed .setCollector)
    let w := w.on fun s => s.modifyObject referent fun o => { o with count2 := o.count2 + 1 }
    w.on fun s => s.modifyLink l fun lk => { lk with phantomized := true }
  else
    let b :=
      if referent = obj then !(w.heap.objects referent).which
      else if (w.heap.objects referent).links.size = 0 then (w.heap.objects referent).which
      else !(w.heap.objects referent).which
    let w := w.on fun s => s.modifyLink l fun lk => { lk with which := b }
    w.on fun s => s.modifyObject referent fun o =>
      { o with count := Function.update o.count b (o.count b + 1) }

def objectSetReferent (w : World) (obj fieldOffset referent : ℕ) : World :=
  let (s, l) := linkCreate w.heap obj referent
  let w := hashtableAdd { w with heap := s } obj fieldOffset l
  objectSetLabel w obj referent l

def objectSet (w : World) (obj fieldOffset : ℕ) (referent : Option ℕ) : World :=
  let old := (w.heap.objects obj).links.get fieldOffset
  match referent with
  | none =>
    let w := w.on fun s => s.modifyObject obj fun o =>
      { o with links := o.links.remove fieldOffset }
    match old with
    | some l => linkDec w l
    | none => w
  | some referent =>
    match old with
    | some l =>
      if (w.heap.links l).target = referent then w
      else linkDec (objectSetReferent w obj fieldOffset referent) l
    | none => objectSetReferent w obj fieldOffset referent

/-- The second section of `task_start`. -/
def taskStartEnqueue (p : TaskPool.Pool) (i : ℕ) (status : CCStat) : TaskPool.Pool :=
  match (p.threads i).starting with
  | some t =>
    let p := match status with
      | .ok => TaskPool.workerAddTask p t
      | .errAlloc => p
    p.setThread i fun th => { th with starting := none }
  | none => p

section
variable {κ : Type} [DecidableEq κ] (id : κ → ℕ)

def lockerStart (s : Locker.Thread κ) (locks : List (Option κ)) (status : CCStat) :
    Option (Locker.Thread κ) :=
  (Locker.lockAll (Locker.lockSet id locks) s []).map fun p =>
    match status with
    | .ok => { p.1 with stack := p.2 :: p.1.stack }
    | .errAlloc => p.1

end

/-! ## Where every container takes its element -/

def okWorld (s : State) : World := ⟨s, fun _ => .ok, fun _ => .ok, fun _ => .ok⟩

section
variable (s : State)

theorem okWorld_heap : (okWorld s).heap = s := rfl

theorem on_okWorld (f : State → State) : (okWorld s).on f = okWorld (f s) := rfl

theorem safelistAdd_okWorld (r : ListRef) (x : ℕ) :
    safelistAdd (okWorld s) r x = okWorld (Acid.safelistAdd s r x) := by
  unfold safelistAdd Acid.safelistAdd
  change (match s.listForward r with
    | none => _
    | some f => _) = _
  cases s.listForward r <;> rfl

theorem safelistDrain_okWorld (dest r : ListRef) (n : ℕ) :
    safelistDrain dest r n (okWorld s) = okWorld (Acid.safelistDrain dest r n s) := by
  induction n generalizing s with
  | zero => rfl
  | succ n ih =>
    rw [safelistDrain, Acid.safelistDrain]
    change (match safelistPoll s r with
      | (s, none) => okWorld s
      | (s, some o) => safelistDrain dest r n (safelistAdd (okWorld s) dest o)) = _
    cases hd : (s.safelist r).data with
    | nil => rw [safelistPoll_nil hd]
    | cons o rest =>
      rw [safelistPoll_cons hd]
      dsimp only
      rw [safelistAdd_okWorld, ih]

theorem safelistForward_okWorld (r dest : ListRef) :
    safelistForward (okWorld s) r dest = okWorld (Acid.safelistForward s r dest) := by
  unfold safelistForward Acid.safelistForward
  change (safelistDrain dest r (s.safelist r).data.length (okWorld s)).on _ = _
  rw [safelistDrain_okWorld]
  rfl

theorem collectorMerge_okWorld (t c : ℕ) :
    collectorMerge (okWorld s) t c = okWorld (Acid.collectorMerge s t c) := by
  unfold collectorMerge collectorForwardSafelistsTo
  dsimp only
  rw [safelistForward_okWorld, safelistForward_okWorld, safelistForward_okWorld,
    safelistForward_okWorld, safelistForward_okWorld]
  rfl

theorem mergeLoop_okWorld (obj target n t c : ℕ) :
    mergeLoop obj target n (okWorld s) t c =
      (okWorld (Acid.mergeLoop obj target n s t c).1, (Acid.mergeLoop obj target n s t c).2) := by
  induction n generalizing t c with
  | zero => rfl
  | succ n ih =>
    rw [mergeLoop, Acid.mergeLoop]
    simp only [okWorld_heap]
    by_cases h1 : s.forward t = some c ∧ s.forward c = none
    · rw [if_pos h1, if_pos h1]
      rfl
    rw [if_neg h1, if_neg h1]
    by_cases h2 : s.forward c = some t ∧ s.forward t = none
    · rw [if_pos h2, if_pos h2]
      rfl
    rw [if_neg h2, if_neg h2]
    cases s.forward t with
    | some t' => exact ih t' c
    | none =>
      cases s.forward c with
      | some c' => exact ih t c'
      | none =>
        dsimp only
        split_ifs
        · rfl
        · rw [collectorMerge_okWorld]
          rfl

theorem objectMergeCollectors_okWorld (obj target : ℕ) :
    (objectMergeCollectors (okWorld s) obj target).1 =
      okWorld (Acid.objectMergeCollectors s obj target).1 := by
  unfold objectMergeCollectors Acid.objectMergeCollectors
  change (match (s.objects obj).collector, (s.objects target).collector with
    | none, none => _
    | some c, none => _
    | none, some t => _
    | some c, some t => _ : World × Bool).1 = _
  cases (s.objects obj).collector with
  | none => cases (s.objects target).collector <;> rfl
  | some c =>
    cases (s.objects target).collector with
    | none => rfl
    | some t =>
      dsimp only
      split_ifs
      · rfl
      · exact congrArg Prod.fst (mergeLoop_okWorld s obj target _ t c)

theorem collectorAddObject_okWorld (c x : ℕ) :
    collectorAddObject (okWorld s) c x = okWorld (Acid.collectorAddObject s c x) := by
  unfold collectorAddObject Acid.collectorAddObject
  dsimp only
  rw [on_okWorld, on_okWorld, safelistAdd_okWorld]
  rfl

theorem objectEnsureCollector_okWorld (x : ℕ) :
    objectEnsureCollector (okWorld s) x = okWorld (Acid.objectEnsureCollector s x) := by
  unfold objectEnsureCollector Acid.objectEnsureCollector
  change (match (s.objects x).collector with
    | some _ => _
    | none => _) = _
  cases (s.objects x).collector <;> rfl

theorem objectDec_okWorld (x : ℕ) (b : Bool) :
    objectDec (okWorld s) x b = okWorld (Acid.objectDec s x b) := by
  unfold objectDec Acid.objectDec
  dsimp only
  rw [on_okWorld, on_okWorld]
  generalize (s.modifyObject x fun o => { o with count := Function.update o.count b (o.count b - 1) }).check
    (0 ≤ ((s.modifyObject x fun o =>
      { o with count := Function.update o.count b (o.count b - 1) }).objects x).count b)
    (.assertFailed .decCount) = u
  simp only [objectEnsureCollector_okWorld, okWorld_heap]
  split_ifs
  · rfl
  · cases ((Acid.objectEnsureCollector u x).objects x).collector with
    | none => rfl
    | some c => exact collectorAddObject_okWorld _ c x
  · rfl

theorem linkDec_okWorld (l : ℕ) : linkDec (okWorld s) l = okWorld (Acid.linkDec s l) := by
  have hphantom : ∀ x, objectDecPhantom (okWorld s) x = okWorld (Acid.objectDecPhantom s x) := by
    intro x
    unfold objectDecPhantom Acid.objectDecPhantom
    dsimp only
    rw [on_okWorld, on_okWorld]
    generalize (s.modifyObject x fun o => { o with count2 := o.count2 - 1 }).check
      (0 ≤ ((s.modifyObject x fun o => { o with count2 := o.count2 - 1 }).objects x).count2)
      (.assertFailed .decPhantomCount) = u
    by_cases hz : (u.objects x).count2 = 0
    · refine (if_pos hz).trans ?_
      rw [if_pos hz]
      by_cases hb : (u.objects x).count false = 0 ∧ (u.objects x).count true = 0
      · refine (if_pos hb).trans ?_
        rw [if_pos hb]
        rfl
      · refine (if_neg hb).trans ?_
        rw [if_neg hb]
        rfl
    · refine (if_neg hz).trans ?_
      rw [if_neg hz]
  unfold linkDec Acid.linkDec
  change (if (s.links l).phantomized then _ else _) = _
  dsimp only
  split_ifs
  · exact hphantom _
  · exact objectDec_okWorld s _ _

theorem objectSetReferent_okWorld (obj f x : ℕ) :
    objectSetReferent (okWorld s) obj f x = okWorld (Acid.objectSetReferent s obj f x) := by
  change objectSetLabel (okWorld (linkAdded s obj f x)) obj x s.linkCount =
    okWorld (Acid.objectSetLabel (linkAdded s obj f x) obj x s.linkCount)
  generalize linkAdded s obj f x = u
  unfold objectSetLabel Acid.objectSetLabel
  by_cases hp : (u.objects obj).phantomized = true
  · refine (if_pos hp).trans ?_
    rw [if_pos hp, objectMergeCollectors_okWorld]
    rfl
  · refine (if_neg hp).trans ?_
    rw [if_neg hp]
    rfl

/-- Without failures these are the functions of the heap model. -/
theorem objectSet_okWorld (obj f : ℕ) (r : Option ℕ) :
    objectSet (okWorld s) obj f r = okWorld (Acid.objectSet s obj f r) := by
  unfold objectSet Acid.objectSet
  dsimp only
  cases r with
  | none =>
    change (match (s.objects obj).links.get f with
      | some l => linkDec (okWorld _) l
      | none => okWorld _) = _
    cases (s.objects obj).links.get f with
    | none => rfl
    | some l => exact linkDec_okWorld _ l
  | some x =>
    change (match (s.objects obj).links.get f with
      | some l => _
      | none => _) = _
    cases (s.objects obj).links.get f with
    | none => exact objectSetReferent_okWorld s obj f x
    | some l =>
      change (if (s.links l).target = x then _ else _) = _
      dsimp only
      split_ifs
      · rfl
      · rw [objectSetReferent_okWorld, linkDec_okWorld]

end

/-! ## One addition -/

theorem safelistAdd_eq_push (w : World) (r : ListRef) (x : ℕ) :
    ∃ q, safelistAdd w r x = safelistPush w q x := by
  unfold safelistAdd
  split
  · exact ⟨r, rfl⟩
  · exact ⟨_, rfl⟩

theorem safelistPush_ok {w : World} (h : w.listAdds 0 = .ok) (r : ListRef) (x : ℕ) :
    (safelistPush w r x).heap = Acid.safelistPush w.heap r x := by
  unfold safelistPush listAdd
  simp only [World.on, h]
  rfl

theorem safelistPush_errAlloc {w : World} (h : w.listAdds 0 = .errAlloc) (r : ListRef) (x : ℕ) :
    (safelistPush w r x).heap = counterIncStore w.heap r.1 := by
  unfold safelistPush listAdd
  simp only [World.on, h]

/-- The store count still counts the elements exactly when the list has taken the new one. -/
theorem safelistAdd_stored {w : World} (h : ∀ c, (w.heap.collectors c).Stored) (r : ListRef)
    (x : ℕ) : (∀ c, ((safelistAdd w r x).heap.collectors c).Stored) ↔ w.listAdds 0 = .ok := by
  obtain ⟨q, hq⟩ := safelistAdd_eq_push w r x
  rw [hq]
  cases hst : w.listAdds 0 with
  | ok =>
    refine ⟨fun _ => rfl, fun _ c => ?_⟩
    rw [safelistPush_ok hst, safelistPush_eq, State.modifyCollector_collectors]
    split_ifs
    · exact (h q.1).setData q.2 _
    · exact h c
  | errAlloc =>
    refine ⟨fun hs => ?_, fun hs => by cases hs⟩
    have hq1 := hs q.1
    rw [safelistPush_errAlloc hst, counterIncStore, State.modifyCollector_collectors, if_pos rfl]
      at hq1
    have hold : (w.heap.collectors q.1).storeCount = (w.heap.collectors q.1).stored := h q.1
    have hnew : (w.heap.collectors q.1).storeCount + 1 = (w.heap.collectors q.1).stored := hq1
    omega

/-- The task count still counts the tasks exactly when the queue has taken the new one. -/
theorem taskStartEnqueue_count {n : ℕ} {p : TaskPool.Pool} (h : TaskPool.Accounted n p) {i : ℕ}
    (hi : i < n) (hs : (p.threads i).starting ≠ none) (status : CCStat) :
    (taskStartEnqueue p i status).taskCount = TaskPool.pending n (taskStartEnqueue p i status) ↔
      status = .ok := by
  obtain ⟨t, ht⟩ := Option.ne_none_iff_exists'.mp hs
  cases status with
  | ok =>
    have heq : taskStartEnqueue p i .ok = TaskPool.taskStartEnqueue p i := by
      unfold taskStartEnqueue TaskPool.taskStartEnqueue
      rw [ht]
    rw [heq]
    exact ⟨fun _ => rfl, fun _ => (h.enqueue hi).count⟩
  | errAlloc =>
    refine ⟨fun hc => ?_, fun hs => by cases hs⟩
    have heq : taskStartEnqueue p i .errAlloc =
        p.setThread i fun th => { th with starting := none } := by
      unfold taskStartEnqueue
      rw [ht]
    rw [heq] at hc
    have hth : (p.setThread i fun th => { th with starting := none }).threads =
        Function.update p.threads i { p.threads i with starting := none } := rfl
    have h1 := TaskPool.tally_thread hi hth fun th => th.starting ≠ none
    have h2 := TaskPool.tally_thread hi hth fun th => th.held ≠ none
    have hold := h.count
    unfold TaskPool.pending at hc hold
    rw [h1, h2] at hc
    simp only [hs, ne_eq, not_false_eq_true, not_true_eq_false, if_true, if_false] at hc hold
    change p.taskCount = _ + (p.work.length : ℤ) + _ at hc
    omega

/-- The stack gets the entry of the locks just taken exactly when the list has taken it. -/
theorem lockerStart_stack {κ : Type} [DecidableEq κ] (id : κ → ℕ) (s : Locker.Thread κ)
    {locks : List (Option κ)} (h : locks.length ≤ 4) (status : CCStat) :
    (∃ s', lockerStart id s locks status = some s' ∧
      s'.hold = (s.plus (Locker.lockSet id locks)).hold ∧
      s'.stack = Locker.lockSet id locks :: s.stack) ↔ status = .ok := by
  have hlen := Locker.lockSet_length id (show locks.length ≤ 127 by omega)
  have hall : Locker.lockAll (Locker.lockSet id locks) s [] =
      some (s.plus (Locker.lockSet id locks), Locker.lockSet id locks) := by
    rw [Locker.lockAll_eq _ _ _ (by simp; omega), List.nil_append]
  cases status with
  | ok =>
    refine ⟨fun _ => rfl, fun _ => ⟨{ s.plus (Locker.lockSet id locks) with
      stack := Locker.lockSet id locks :: s.stack }, ?_, rfl, rfl⟩⟩
    rw [lockerStart, hall]
    rfl
  | errAlloc =>
    refine ⟨?_, fun hs => by cases hs⟩
    rintro ⟨s', heq, _, hstack⟩
    rw [lockerStart, hall] at heq
    cases heq
    have hl := congrArg List.length hstack
    change s.stack.length = s.stack.length + 1 at hl
    omega

/-! ## The elements that a list has not taken -/

section
variable {α : Type}

/-- The elements that are added and not taken. -/
def lost : (ℕ → CCStat) → List α → List α
  | _, [] => []
  | os, x :: xs =>
    match os 0 with
    | .ok => lost (fun n => os (n + 1)) xs
    | .errAlloc => x :: lost (fun n => os (n + 1)) xs

def kept : (ℕ → CCStat) → List α → List α
  | _, [] => []
  | os, x :: xs =>
    match os 0 with
    | .ok => x :: kept (fun n => os (n + 1)) xs
    | .errAlloc => kept (fun n => os (n + 1)) xs

theorem kept_cons (os : ℕ → CCStat) (x : α) (xs : List α) :
    kept os (x :: xs) = kept os [x] ++ kept (fun n => os (n + 1)) xs := by
  rw [kept, kept]
  cases os 0 <;> rfl

theorem kept_count [DecidableEq α] (a : α) (xs : List α) : ∀ os : ℕ → CCStat,
    (kept os xs).count a + (lost os xs).count a = xs.count a := by
  induction xs with
  | nil => intro os; rfl
  | cons x xs ih =>
    intro os
    have hrest := ih fun n => os (n + 1)
    rw [kept, lost]
    cases os 0 with
    | ok =>
      simp only [List.count_cons]
      omega
    | errAlloc =>
      simp only [List.count_cons]
      omega

theorem lost_append (xs ys : List α) : ∀ os : ℕ → CCStat,
    lost os (xs ++ ys) = lost os xs ++ lost (fun n => os (n + xs.length)) ys := by
  induction xs with
  | nil => intro os; rfl
  | cons x xs ih =>
    intro os
    have hshift : (fun n => os (n + (x :: xs).length)) = fun n => os (n + xs.length + 1) := by
      funext n
      rw [List.length_cons, Nat.add_assoc]
    rw [List.cons_append, lost, lost, ih, hshift]
    cases os 0 <;> rfl

theorem lost_map {β : Type} (f : α → β) (xs : List α) : ∀ os : ℕ → CCStat,
    lost os (xs.map f) = (lost os xs).map f := by
  induction xs with
  | nil => intro os; rfl
  | cons x xs ih =>
    intro os
    rw [List.map_cons, lost, lost, ih]
    cases os 0 <;> rfl

end

end Acid.CollectionStatus

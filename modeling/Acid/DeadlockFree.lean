import Acid.Accounting
import Acid.LockBalance
import Acid.OrderedRun
import Mathlib.Data.Prod.Lex

set_option autoImplicit false

/-!
# Deadlock freedom by lock order

The trace of a core operation is that of the calls that it makes on the heap it
starts on, which the other threads change only while it sleeps. A thread works
through the traces of its operations, each on a heap of its own.
-/
namespace Acid.Locked

open Procedure

/-! ## The core operations and their traces -/

inductive CoreOp where
  | objectSet (obj fieldOffset : ℕ) (referent : Option ℕ)
  | objectDec (obj : ℕ) (w : Bool)
  | objectDecPhantom (obj : ℕ)
  | objectPhantomizeNode (obj : ℕ)
  | objectRecoverNode (obj cptr : ℕ)
  | objectCleanNode (obj : ℕ)
  | objectRequestDeleteTaskRun (obj : ℕ)
  | acidSetRaw (varobj : Option ℕ) (valobj : ℕ)
  | collectorRun (c : ℕ)

def CoreOp.run (p : Setting) : CoreOp → Proc Unit
  | .objectSet obj fieldOffset referent => Locked.objectSet p.bound obj fieldOffset referent
  | .objectDec obj w => Locked.objectDec p.bound obj w
  | .objectDecPhantom obj => Locked.objectDecPhantom obj
  | .objectPhantomizeNode obj => Locked.objectPhantomizeNode p obj
  | .objectRecoverNode obj cptr => Locked.objectRecoverNode p.bound obj cptr
  | .objectCleanNode obj => Locked.objectCleanNode p.bound obj
  | .objectRequestDeleteTaskRun obj => ignore (Locked.objectRequestDeleteTaskRun p obj)
  | .acidSetRaw varobj valobj => Locked.acidSetRaw p.bound varobj valobj
  | .collectorRun c => ignore (Locked.collectorRun p c)

/-- The thread holds nothing and has logged nothing. -/
def fresh (id : Lockable → ℕ) (μ : Memory) : Machine := { toMemory := μ, id := id }

/-- The calls of `locker.c` in the order in which the operation makes them, also where it stops
before it returns. -/
def CoreOp.trace (p : Setting) (id : Lockable → ℕ) (op : CoreOp) (μ : Memory) :
    List (Locker.Call Lockable) :=
  (outcome (op.run p) (fresh id μ)).2.calls.reverse

def CoreOp.returns (p : Setting) (id : Lockable → ℕ) (op : CoreOp) (μ : Memory) : Bool :=
  (outcome (op.run p) (fresh id μ)).1.isSome

/-- The lists of a collector forward exactly when the collector does, the table of an object
holds its own links, and the threads that run during a sleep forward no list of a collector that
does not forward. -/
structure Fit (μ : Memory) : Prop where
  lists : ∀ c n, μ.heap.listForward (c, n) = none ↔ μ.heap.forward c = none
  sourced : Sourced μ.heap
  tame : ∀ n s, Rooted s → Rooted (μ.others n s)

theorem Fit.toOpen {μ : Memory} (h : Fit μ) : Open μ :=
  ⟨fun c n hc => (h.lists c n).mpr hc, h.tame⟩

/-- Every heap that a run of the system reaches is one of these. -/
theorem fit_of_run {μ : Memory} (run : Run anyStep initial μ.heap)
    (htame : ∀ n s, Rooted s → Rooted (μ.others n s)) : Fit μ where
  lists c n := by
    rw [run.anySound.collectors.lists, Option.map_eq_none_iff]
  sourced _ _ hl := (run.anySound.tables.owned hl).2
  tame := htame

theorem Obeys.ignore {α : Type} {t : Locker.Thread Lockable} {P : Memory → Prop} {q : Proc α}
    {R : α → Memory → Prop} (h : Obeys t P q R) (hb : Balanced q) :
    Obeys t P (Locked.ignore q) fun _ _ => True :=
  h.bind hb fun _ => obeys_pure fun _ _ => trivial

section
variable {p : Setting} (hd : Silent p)
include hd

theorem CoreOp.balanced (op : CoreOp) : Balanced (op.run p) := by
  cases op with
  | objectSet obj fieldOffset referent => exact balanced_objectSet _ obj fieldOffset referent
  | objectDec obj w => exact balanced_objectDec _ obj w
  | objectDecPhantom obj => exact balanced_objectDecPhantom obj
  | objectPhantomizeNode obj => exact balanced_objectPhantomizeNode p obj
  | objectRecoverNode obj cptr => exact balanced_objectRecoverNode _ obj cptr
  | objectCleanNode obj => exact balanced_objectCleanNode _ obj
  | objectRequestDeleteTaskRun obj =>
    exact (balanced_objectRequestDeleteTaskRun hd.balanced obj).ignore
  | acidSetRaw varobj valobj => exact balanced_acidSetRaw _ varobj valobj
  | collectorRun c => exact (balanced_collectorRun p c).ignore

theorem CoreOp.obeys (hndebug : p.ndebug = true) (op : CoreOp) :
    Obeys {} Fit (op.run p) fun _ _ => True := by
  have hbelow : Below 0 ({} : Locker.Thread Lockable) := by
    intro k hk
    cases hk
  have hopen : ∀ {q : Proc Unit}, Obeys {} Open q (fun _ => Open) →
      Obeys {} Fit q fun _ _ => True :=
    fun h => (h.weaken fun _ hμ => hμ.toOpen).relax fun _ _ _ => trivial
  have hsourced : Steady fun μ => Open μ ∧ Sourced μ.heap :=
    open_steady.and fun _ _ hs h => hs.sourced h
  have hfit : ∀ μ, Fit μ → Open μ ∧ Sourced μ.heap := fun _ hμ => ⟨hμ.toOpen, hμ.sourced⟩
  cases op with
  | objectSet obj fieldOffset referent =>
    exact hopen (obeys_objectSet p.bound obj fieldOffset referent hbelow)
  | objectDec obj w => exact hopen (obeys_objectDec open_steady p.bound w (.inl hbelow))
  | objectDecPhantom obj => exact hopen (obeys_objectDecPhantom open_steady.closed (.inl hbelow))
  | objectPhantomizeNode obj =>
    have h := obeys_objectPhantomizeNode hsourced (fun _ h => h.2) hndebug obj hbelow
    exact (h.weaken hfit).relax fun _ _ _ => trivial
  | objectRecoverNode obj cptr => exact hopen (obeys_objectRecoverNode hbelow p.bound cptr)
  | objectCleanNode obj => exact hopen (obeys_objectCleanNode p.bound obj hbelow)
  | objectRequestDeleteTaskRun obj =>
    have h := obeys_objectRequestDeleteTaskRun hd obj hbelow
    exact (h.weaken fun _ hμ => hμ.toOpen).ignore (balanced_objectRequestDeleteTaskRun hd.balanced obj)
  | acidSetRaw varobj valobj => exact hopen (obeys_acidSetRaw p.bound varobj valobj hbelow)
  | collectorRun c =>
    exact ((obeys_collectorRun hndebug c hbelow).weaken hfit).ignore (balanced_collectorRun p c)

variable {id : Lockable → ℕ} (hid : Function.Injective id)
include hid

/-- The trace of an operation is in order, and an operation that returns holds nothing. -/
theorem CoreOp.trace_disciplined (hndebug : p.ndebug = true) (op : CoreOp) {μ : Memory}
    (hμ : Fit μ) : Disciplined id {} (op.trace p id μ) ∧
      (op.returns p id μ = true → Locker.calls id (op.trace p id μ) {} = some {}) := by
  obtain ⟨⟨calls, hcalls, _, hdis, hreplay⟩, _⟩ := op.obeys hd hndebug (fresh id μ) rfl hid hμ
  have htrace : op.trace p id μ = calls := by
    rw [CoreOp.trace, hcalls, List.reverse_append, List.reverse_reverse]
    rfl
  rw [htrace]
  refine ⟨hdis, ?_⟩
  intro hret
  refine (hreplay hret).trans ?_
  obtain ⟨u, hu⟩ := Option.isSome_iff_exists.mp hret
  have := op.balanced hd (fresh id μ) u (outcome (op.run p) (fresh id μ)).2 (Prod.ext hu rfl)
  rw [this]
  rfl

end

/-! ## From calls to events -/

/-- `hold` as the events of `LockOrder` change it. -/
theorem lockAll_hold (ks : List Lockable) : ∀ (t t' : Locker.Thread Lockable) (le le' : List Lockable),
    Locker.lockAll ks t le = some (t', le') → t'.hold = LockOrder.plus t.hold ks := by
  induction ks with
  | nil =>
    intro t t' le le' h
    cases h
    exact (LockOrder.plus_nil _).symm
  | cons k ks ih =>
    intro t t' le le' h
    rw [Locker.lockAll, Option.bind_eq_some_iff] at h
    obtain ⟨le₁, _, h⟩ := h
    rw [ih _ _ _ _ h]
    funext x
    simp only [LockOrder.plus, Locker.idlockLock, Function.update_apply, List.count_cons]
    by_cases hx : x = k
    · subst hx
      simp only [if_true, beq_self_eq_true]
      omega
    · have : (k == x) = false := by simpa using Ne.symm hx
      simp [hx, this]

theorem lockerStart_hold {id : Lockable → ℕ} {t t' : Locker.Thread Lockable}
    {locks : List (Option Lockable)} (h : Locker.lockerStart id t locks = some t') :
    t'.hold = LockOrder.plus t.hold (Locker.lockSet id locks) := by
  rw [Locker.lockerStart, Option.map_eq_some_iff] at h
  obtain ⟨⟨t₁, le⟩, h, rfl⟩ := h
  exact lockAll_hold (Locker.lockSet id locks) t t₁ [] le h

theorem unlockAll_hold (ks : List Lockable) : ∀ t : Locker.Thread Lockable,
    (ks.foldl Locker.idlockUnlock t).hold = LockOrder.minus t.hold ks := by
  induction ks with
  | nil =>
    intro t
    funext x
    simp [LockOrder.minus]
  | cons k ks ih =>
    intro t
    rw [List.foldl_cons, ih]
    funext x
    simp only [LockOrder.minus, Locker.idlockUnlock, Function.update_apply, List.count_cons]
    by_cases hx : x = k
    · subst hx
      simp only [if_true, beq_self_eq_true]
      omega
    · have : (k == x) = false := by simpa using Ne.symm hx
      simp [hx, this]

/-- The locks that the calls take and give back, one event a call, from a thread `t` on. -/
def lockEvents (id : Lockable → ℕ) :
    Locker.Thread Lockable → List (Locker.Call Lockable) → List (LockOrder.Event Lockable)
  | _, [] => []
  | t, .start locks :: rest =>
    match Locker.lockerStart id t locks with
    | some t' => .lock (Locker.lockSet id locks) :: lockEvents id t' rest
    | none => []
  | t, .stop :: rest =>
    match t.stack with
    | ks :: stack =>
      .unlock ks :: lockEvents id (ks.foldl Locker.idlockUnlock { t with stack := stack }) rest
    | [] => []

/-- Locks are compared by class first, then by id. -/
def lockRank (id : Lockable → ℕ) (k : Lockable) : ℕ ×ₗ ℕ := toLex (k.level, id k)

theorem Ordered.climbs {id : Lockable → ℕ} {t : Locker.Thread Lockable}
    {locks : List (Option Lockable)} (h : Ordered id t locks) :
    LockOrder.Climbs (lockRank id) t.hold (Locker.lockSet id locks) := by
  obtain ⟨⟨level, hlevel⟩, hrise⟩ := h
  constructor
  · intro k hk hzero h hh
    obtain ⟨hk', habove⟩ := hlevel k (List.mem_filter.mpr ⟨hk, by simpa using hzero⟩)
    apply Prod.Lex.toLex_lt_toLex.mpr
    left
    rw [hk']
    exact habove h hh
  · refine List.Pairwise.imp_of_mem ?_ hrise
    intro a b ha hb hab
    apply Prod.Lex.toLex_lt_toLex.mpr
    right
    exact ⟨(hlevel a ha).1.trans (hlevel b hb).1.symm, hab⟩

theorem Disciplined.ascends {id : Lockable → ℕ} (calls : List (Locker.Call Lockable)) :
    ∀ t, Disciplined id t calls →
      LockOrder.Ascends (lockRank id) t.hold (lockEvents id t calls) := by
  induction calls with
  | nil =>
    intro t _
    trivial
  | cons call rest ih =>
    intro t h
    cases call with
    | start locks =>
      rw [lockEvents]
      cases hstart : Locker.lockerStart id t locks with
      | none => trivial
      | some t' =>
        refine ⟨h.1.climbs, ?_⟩
        rw [← lockerStart_hold hstart]
        exact ih t' (h.2 t' hstart)
    | stop =>
      rw [lockEvents]
      cases hstack : t.stack with
      | nil => trivial
      | cons ks stack =>
        have hend : Locker.lockerEnd t =
            some (ks.foldl Locker.idlockUnlock { t with stack := stack }) := by
          rw [Locker.lockerEnd, hstack]
        have hrest := ih _ (h _ hend)
        rw [unlockAll_hold] at hrest
        exact hrest

/-! ## Threads -/

/-- The calls of a thread that runs the operations one after the other, each on its own heap, up
to one that does not return. -/
def threadCalls (p : Setting) (id : Lockable → ℕ) :
    List (CoreOp × Memory) → List (Locker.Call Lockable)
  | [] => []
  | (op, μ) :: rest =>
    op.trace p id μ ++ if op.returns p id μ then threadCalls p id rest else []

theorem threadCalls_disciplined {p : Setting} (hndebug : p.ndebug = true) (hd : Silent p)
    {id : Lockable → ℕ} (hid : Function.Injective id) (ops : List (CoreOp × Memory)) :
    (∀ x ∈ ops, Fit x.2) → Disciplined id {} (threadCalls p id ops) := by
  induction ops with
  | nil =>
    intro _
    trivial
  | cons x rest ih =>
    intro hfit
    obtain ⟨op, μ⟩ := x
    obtain ⟨hdis, hreplay⟩ := op.trace_disciplined hd hid hndebug (hfit _ List.mem_cons_self)
    apply hdis.append
    intro t' ht'
    by_cases hret : op.returns p id μ = true
    · rw [hreplay hret, Option.some.injEq] at ht'
      rw [if_pos hret, ← ht']
      exact ih fun x hx => hfit x (List.mem_cons_of_mem _ hx)
    · rw [if_neg hret]
      trivial

/-- The parties before they run: each holds nothing and has all of its operations to come. -/
def parties {ι : Type} (p : Setting) (id : Lockable → ℕ) (ops : ι → List (CoreOp × Memory)) :
    ι → LockOrder.Party Lockable :=
  fun i => { script := lockEvents id {} (threadCalls p id (ops i)) }

/-- Every request of a core operation is in order, and no interleaving of any number of threads
reaches a cycle of waiting threads. -/
theorem coreOp_deadlockFree {p : Setting} {id : Lockable → ℕ} (hndebug : p.ndebug = true)
    (hd : Silent p) (hid : Function.Injective id) :
    (∀ μ : Memory, Run anyStep initial μ.heap → (∀ n s, Rooted s → Rooted (μ.others n s)) →
        Fit μ) ∧
      (∀ op μ, Fit μ → Disciplined id {} (CoreOp.trace p id op μ)) ∧
        ∀ (ι : Type) [DecidableEq ι] (ops : ι → List (CoreOp × Memory)),
          (∀ i, ∀ x ∈ ops i, Fit x.2) →
            ∀ s, Relation.ReflTransGen LockOrder.Step (parties p id ops) s →
              ∀ i, ¬ Relation.TransGen (LockOrder.Waits s) i i := by
  refine ⟨fun μ run htame => fit_of_run run htame,
    fun op μ hμ => (op.trace_disciplined hd hid hndebug hμ).1, ?_⟩
  intro ι _ ops hfit s hreach i
  have hascends : ∀ j, LockOrder.Ascends (lockRank id) (parties p id ops j).hold
      (parties p id ops j).script := by
    intro j
    exact Disciplined.ascends _ _ (threadCalls_disciplined hndebug hd hid (ops j) (hfit j))
  exact LockOrder.waits_acyclic (fun _ _ => rfl) (fun _ => rfl) hascends hreach i

/-- Ids by kind: every third one is an object's. -/
def numbering : Lockable → ℕ
  | .object o => 3 * o
  | .collector c => 3 * c + 1
  | .safelist (c, .collect) => 3 * (5 * c) + 2
  | .safelist (c, .merged) => 3 * (5 * c + 1) + 2
  | .safelist (c, .recovery) => 3 * (5 * c + 2) + 2
  | .safelist (c, .rebuild) => 3 * (5 * c + 3) + 2
  | .safelist (c, .clean) => 3 * (5 * c + 4) + 2

theorem numbering_injective : Function.Injective numbering := by
  rintro (o | c | ⟨c, n⟩) (o' | c' | ⟨c', n'⟩) h
  all_goals try cases n
  all_goals try cases n'
  all_goals simp only [numbering] at h
  all_goals grind

/-- The assertions are compiled out, and no destructor does anything. -/
def released : Setting where
  bound := 8
  ndebug := true
  dtor := fun _ => pure ()

/-- Two objects with a collector each, the first of which is phantomized. -/
def phantomPair : Memory where
  heap :=
    { objects := fun o => { collector := some o, phantomized := o = 0 }
      objectCount := 2
      numCollector := 2 }

theorem phantomPair_fit : Fit phantomPair where
  lists _ _ := ⟨fun _ => rfl, fun _ => rfl⟩
  sourced o l hl := by
    rw [show (phantomPair.heap.objects o).links.values = [] from rfl] at hl
    cases hl
  tame _ _ h := h

/-- Two threads that set links between the same two objects, in opposite directions, and run both
collectors in opposite orders. -/
def opposed (first : Bool) : List (CoreOp × Memory) :=
  if first then
    [(.objectSet 0 0 (some 1), phantomPair), (.collectorRun 0, phantomPair),
      (.collectorRun 1, phantomPair)]
  else
    [(.objectSet 1 0 (some 0), phantomPair), (.collectorRun 1, phantomPair),
      (.collectorRun 0, phantomPair)]

theorem opposed_fit (first : Bool) : ∀ x ∈ opposed first, Fit x.2 := by
  have h : ∀ x ∈ opposed first, x.2 = phantomPair := by
    cases first
    · simp [opposed]
    · simp [opposed]
  intro x hx
  rw [h x hx]
  exact phantomPair_fit

theorem coreOp_deadlockFree_opposed :
    (∀ op, Disciplined numbering {} (CoreOp.trace released numbering op phantomPair)) ∧
      ∀ s, Relation.ReflTransGen LockOrder.Step (parties released numbering opposed) s →
        ¬ Relation.TransGen (LockOrder.Waits s) true true := by
  have hsilent : Silent released := fun _ _ => ⟨rfl, rfl, rfl⟩
  obtain ⟨_, hordered, hacyclic⟩ := coreOp_deadlockFree (p := released) rfl hsilent
    numbering_injective
  refine ⟨fun op => hordered op phantomPair phantomPair_fit, ?_⟩
  intro s hs
  exact hacyclic Bool opposed opposed_fit s hs true

end Acid.Locked

import Acid.HashTable
import Mathlib.Data.Set.Card

set_option autoImplicit false

/-!
# Link tables over whole runs

`hashtable_add` may fail to allocate, or reach the largest capacity; what its two
allocations return is given. Whatever they return, a table stands for the map that
the successful calls build, and `HASHTABLE_FOREACH` visits each entry of it once.
-/
namespace Acid.HashTable
variable {α : Type}

/-- `enum cc_stat`, as far as `hashtable.c` returns it. -/
inductive Stat where
  | ok | errAlloc | errMaxCapacity | errKeyNotFound | iterEnd
deriving DecidableEq

/-- `MAX_POW_TWO`; no build file defines `ARCH_64`. -/
def maxPowTwo : ℕ := 2 ^ 31

/-- Whether the `mem_calloc` of `resize` and the `mem_alloc` of a new entry succeed. -/
structure Allocation where
  calloc : Bool := true
  alloc : Bool := true

/-- `resize`, with its status. -/
def tryResize (t : HashTable α) (m : Allocation) : Stat × HashTable α :=
  if t.capacity = maxPowTwo then (.errMaxCapacity, t)
  else if m.calloc then (.ok, t.resize)
  else (.errAlloc, t)

/-- The bucket that `hashtable_add` searches and adds to. -/
def addBucket (t : HashTable α) (key : ℕ) : List (ℕ × α) :=
  t.buckets (if key = 0 then 0 else bucketIndex t.capacity key)

/-- `hashtable_add` once there is room: a known key allocates nothing. -/
def tryInsert (t : HashTable α) (key : ℕ) (val : α) (m : Allocation) : Stat × HashTable α :=
  if key ∈ (t.addBucket key).map Prod.fst ∨ m.alloc then
    (.ok, if key = 0 then t.addNullKey val else t.addKey key val)
  else (.errAlloc, t)

/-- `hashtable_add`, with its status. -/
def tryAdd (t : HashTable α) (key : ℕ) (val : α) (m : Allocation) : Stat × HashTable α :=
  if t.threshold ≤ t.size then
    match t.tryResize m with
    | (.ok, t) => t.tryInsert key val m
    | (stat, t) => (stat, t)
  else t.tryInsert key val m

inductive Call (α : Type) where
  | add (key : ℕ) (val : α) (m : Allocation)
  | get (key : ℕ)
  | remove (key : ℕ)
  | removeAll

/-- The status of a call and its out parameter. -/
structure Reply (α : Type) where
  stat : Stat := .ok
  out : Option α := none

def call (t : HashTable α) : Call α → Reply α × HashTable α
  | .add key val m => ({ stat := (t.tryAdd key val m).1 }, (t.tryAdd key val m).2)
  | .get key =>
    match t.get key with
    | some v => ({ out := some v }, t)
    | none => ({ stat := .errKeyNotFound }, t)
  | .remove key =>
    match t.get key with
    | some v => ({ out := some v }, t.remove key)
    | none => ({ stat := .errKeyNotFound }, t)
  | .removeAll => ({}, t.removeAll)

/-- The replies to a sequence of calls, and the table after them. -/
def run (t : HashTable α) : List (Call α) → List (Reply α) × HashTable α
  | [] => ([], t)
  | c :: cs => ((t.call c).1 :: ((t.call c).2.run cs).1, ((t.call c).2.run cs).2)

/-! ## The map that a table stands for -/

/-- What a call does to a map, given its reply. -/
inductive MapStep : (ℕ → Option α) → Call α → Reply α → (ℕ → Option α) → Prop where
  | added (a : ℕ → Option α) (key : ℕ) (val : α) (m : Allocation) :
      MapStep a (.add key val m) {} (Function.update a key (some val))
  | noMemory (a : ℕ → Option α) (key : ℕ) (val : α) (m : Allocation)
      (h : m.calloc = false ∨ m.alloc = false) : MapStep a (.add key val m) { stat := .errAlloc } a
  | full (a : ℕ → Option α) (key : ℕ) (val : α) (m : Allocation)
      (h : 3 * 2 ^ 29 ≤ Set.ncard {k | a k ≠ none}) :
      MapStep a (.add key val m) { stat := .errMaxCapacity } a
  | found {a : ℕ → Option α} {key : ℕ} {v : α} (h : a key = some v) :
      MapStep a (.get key) { out := some v } a
  | missing {a : ℕ → Option α} {key : ℕ} (h : a key = none) :
      MapStep a (.get key) { stat := .errKeyNotFound } a
  | removed {a : ℕ → Option α} {key : ℕ} {v : α} (h : a key = some v) :
      MapStep a (.remove key) { out := some v } (Function.update a key none)
  | absent {a : ℕ → Option α} {key : ℕ} (h : a key = none) :
      MapStep a (.remove key) { stat := .errKeyNotFound } a
  | cleared (a : ℕ → Option α) : MapStep a .removeAll {} fun _ => none

inductive MapRun : (ℕ → Option α) → List (Call α) → List (Reply α) → (ℕ → Option α) → Prop where
  | nil (a : ℕ → Option α) : MapRun a [] [] a
  | cons {a b c : ℕ → Option α} {k : Call α} {r : Reply α} {ks : List (Call α)}
      {rs : List (Reply α)} (step : MapStep a k r b) (rest : MapRun b ks rs c) :
      MapRun a (k :: ks) (r :: rs) c

theorem get_addKey (t : HashTable α) (key : ℕ) (val : α) :
    (t.addKey key val).get = Function.update t.get key (some val) := by
  funext j
  by_cases hj : j = key
  · subst hj
    rw [Function.update_self, get_eq_some, mem_addKey]
    exact .inl rfl
  · rw [Function.update_of_ne hj]
    apply Option.ext
    intro v
    rw [get_eq_some, get_eq_some, mem_addKey]
    simp [hj]

theorem get_remove (t : HashTable α) (key : ℕ) :
    (t.remove key).get = Function.update t.get key none := by
  funext j
  apply Option.ext
  intro v
  rw [get_eq_some, mem_remove, Function.update_apply]
  by_cases hj : j = key
  · simp [hj]
  · simp [hj, get_eq_some]

theorem get_resize (t : HashTable α) : t.resize.get = t.get := by
  funext j
  apply Option.ext
  intro v
  rw [get_eq_some, get_eq_some, mem_resize]

theorem get_removeAll (t : HashTable α) : t.removeAll.get = fun _ => none := by
  funext j
  rw [get_eq_none]
  simp

theorem size_eq_ncard (t : HashTable α) : t.size = Set.ncard {k | t.get k ≠ none} := by
  have hkeys : {k | t.get k ≠ none} = ((t.entries.map Prod.fst).toFinset : Set ℕ) := by
    ext k
    simp only [Set.mem_ofPred_eq, List.coe_toFinset, List.mem_map, ne_eq]
    constructor
    · intro hk
      obtain ⟨v, hv⟩ := Option.ne_none_iff_exists'.mp hk
      exact ⟨(k, v), (t.get_eq_some k v).mp hv, rfl⟩
    · intro ⟨⟨j, v⟩, he, hj⟩ hk
      exact (t.get_eq_none k).mp hk v (hj ▸ he)
  rw [hkeys, Set.ncard_coe_finset, List.toFinset_card_of_nodup t.keys_nodup, List.length_map]
  rfl

theorem tryInsert_eq (t : HashTable α) (key : ℕ) (val : α) (m : Allocation) :
    t.tryInsert key val m = (.ok, t.addKey key val) ∨
      (t.tryInsert key val m = (.errAlloc, t) ∧ m.alloc = false) := by
  unfold tryInsert
  split_ifs with h hk
  · left
    rw [hk, addNullKey_eq]
  · exact .inl rfl
  · right
    rw [not_or] at h
    exact ⟨rfl, by simpa using h.2⟩

/-- The four ways that `hashtable_add` ends. -/
theorem tryAdd_cases (t : HashTable α) (key : ℕ) (val : α) (m : Allocation) :
    (∃ u : HashTable α, u.get = t.get ∧ (u = t ∧ t.size < t.threshold ∨
        u = t.resize ∧ t.capacity ≠ maxPowTwo) ∧
      (t.tryAdd key val m = (.ok, u.addKey key val) ∨
        (t.tryAdd key val m = (.errAlloc, u) ∧ m.alloc = false))) ∨
    (t.tryAdd key val m = (.errMaxCapacity, t) ∧ t.threshold ≤ t.size ∧ t.capacity = maxPowTwo) ∨
    (t.tryAdd key val m = (.errAlloc, t) ∧ m.calloc = false) := by
  by_cases hfull : t.threshold ≤ t.size
  · unfold tryAdd tryResize
    rw [if_pos hfull]
    by_cases hmax : t.capacity = maxPowTwo
    · right; left
      rw [if_pos hmax]
      exact ⟨rfl, hfull, hmax⟩
    · rw [if_neg hmax]
      cases hm : m.calloc with
      | true =>
        left
        exact ⟨t.resize, t.get_resize, .inr ⟨rfl, hmax⟩, t.resize.tryInsert_eq key val m⟩
      | false => exact .inr (.inr ⟨rfl, rfl⟩)
  · left
    refine ⟨t, rfl, .inl ⟨rfl, by omega⟩, ?_⟩
    have hadd : t.tryAdd key val m = t.tryInsert key val m := by
      unfold tryAdd
      rw [if_neg hfull]
    rw [hadd]
    exact t.tryInsert_eq key val m

/-- With enough memory, below the largest capacity, the status is `CC_OK`. -/
theorem tryAdd_eq_add (t : HashTable α) (h : t.capacity ≠ maxPowTwo) (key : ℕ) (val : α) :
    t.tryAdd key val {} = (.ok, t.add key val) := by
  have hinsert : ∀ u : HashTable α, u.tryInsert key val {} =
      (.ok, if key = 0 then u.addNullKey val else u.addKey key val) := by
    intro u
    unfold tryInsert
    rw [if_pos (.inr rfl)]
  unfold tryAdd add tryResize
  by_cases hfull : t.threshold ≤ t.size
  · rw [if_pos hfull, if_neg h, if_pos rfl]
    simp only [hinsert, if_pos hfull]
  · rw [if_neg hfull, hinsert]
    simp only [if_neg hfull]

theorem call_mapStep (t : HashTable α) (c : Call α) :
    MapStep t.get c (t.call c).1 (t.call c).2.get := by
  cases c with
  | add key val m =>
    unfold call
    dsimp only
    rcases t.tryAdd_cases key val m with ⟨u, hu, _, h | ⟨h, hm⟩⟩ | ⟨h, hfull, hmax⟩ | ⟨h, hm⟩
    · rw [h, ← hu, get_addKey]
      exact .added _ key val m
    · rw [h, ← hu]
      exact .noMemory _ key val m (.inr hm)
    · rw [h]
      refine .full _ key val m ?_
      rw [← size_eq_ncard]
      unfold threshold maxPowTwo at *
      omega
    · rw [h]
      exact .noMemory _ key val m (.inl hm)
  | get key =>
    cases h : t.get key with
    | some v =>
      simp only [call, h]
      exact .found h
    | none =>
      simp only [call, h]
      exact .missing h
  | remove key =>
    cases h : t.get key with
    | some v =>
      simp only [call, h, get_remove]
      exact .removed h
    | none =>
      simp only [call, h]
      exact .absent h
  | removeAll =>
    unfold call
    rw [get_removeAll]
    exact .cleared _

theorem run_mapRun (t : HashTable α) (cs : List (Call α)) :
    MapRun t.get cs (t.run cs).1 (t.run cs).2.get := by
  induction cs generalizing t with
  | nil => exact .nil _
  | cons c cs ih => exact .cons (t.call_mapStep c) (ih _)

/-! ## The load of a table -/

/-- The entries stay below the threshold, and the capacity is a power of two up to the largest. -/
structure Loaded (t : HashTable α) : Prop where
  size_le : t.size ≤ t.threshold
  capacity : ∃ n ≤ 27, t.capacity = 16 * 2 ^ n

theorem size_addKey_le (t : HashTable α) (key : ℕ) (val : α) :
    (t.addKey key val).size ≤ t.size + 1 := by
  have hsub : (t.addKey key val).entries.map Prod.fst ⊆ key :: t.entries.map Prod.fst := by
    intro k hk
    obtain ⟨e, he, rfl⟩ := List.mem_map.mp hk
    rcases (t.mem_addKey key val e).mp he with rfl | ⟨he, _⟩
    · exact List.mem_cons_self ..
    · exact List.mem_cons_of_mem _ (List.mem_map_of_mem he)
  have hlen := ((t.addKey key val).keys_nodup.subperm hsub).length_le
  simpa [size] using hlen

theorem size_resize (t : HashTable α) : t.resize.size = t.size := by
  rw [size_eq_ncard, size_eq_ncard, get_resize]

theorem size_remove_le (t : HashTable α) (key : ℕ) : (t.remove key).size ≤ t.size := by
  have hsub : (t.remove key).entries ⊆ t.entries := by
    intro e he
    exact ((t.mem_remove key e).mp he).1
  exact ((t.remove key).entries_nodup.subperm hsub).length_le

theorem capacity_remove (t : HashTable α) (key : ℕ) : (t.remove key).capacity = t.capacity := by
  unfold remove
  split_ifs
  · rfl
  · rfl

theorem Loaded.addKey {t : HashTable α} (h : t.Loaded) (hroom : t.size < t.threshold) (key : ℕ)
    (val : α) : (t.addKey key val).Loaded where
  size_le := by
    have hsize := t.size_addKey_le key val
    have hsame : (t.addKey key val).threshold = t.threshold := rfl
    omega
  capacity := h.capacity

theorem Loaded.resize {t : HashTable α} (h : t.Loaded) (hmax : t.capacity ≠ maxPowTwo) :
    t.resize.Loaded ∧ t.resize.size < t.resize.threshold := by
  obtain ⟨n, hn, hcap⟩ := h.capacity
  have hsize := h.size_le
  have hdouble : t.resize.capacity = 2 * t.capacity := rfl
  have hpos : 0 < 2 ^ n := Nat.two_pow_pos n
  have hlt : t.resize.size < t.resize.threshold := by
    rw [size_resize]
    unfold threshold at hsize ⊢
    omega
  refine ⟨⟨hlt.le, n + 1, ?_, ?_⟩, hlt⟩
  · by_contra hbig
    have h27 : n = 27 := by omega
    apply hmax
    rw [hcap, h27]
    rfl
  · rw [hdouble, hcap, pow_succ]
    omega

theorem Loaded.call {t : HashTable α} (h : t.Loaded) (c : Call α) : (t.call c).2.Loaded := by
  cases c with
  | add key val m =>
    change (t.tryAdd key val m).2.Loaded
    rcases t.tryAdd_cases key val m with ⟨u, _, hu, he⟩ | ⟨he, _⟩ | ⟨he, _⟩
    · have hu' : u.Loaded ∧ u.size < u.threshold := by
        rcases hu with ⟨rfl, hlt⟩ | ⟨rfl, hmax⟩
        · exact ⟨h, hlt⟩
        · exact h.resize hmax
      rcases he with he | ⟨he, _⟩
      · rw [he]
        exact hu'.1.addKey hu'.2 key val
      · rw [he]
        exact hu'.1
    · rw [he]
      exact h
    · rw [he]
      exact h
  | get key =>
    cases hk : t.get key with
    | some v =>
      simp only [HashTable.call, hk]
      exact h
    | none =>
      simp only [HashTable.call, hk]
      exact h
  | remove key =>
    cases hk : t.get key with
    | some v =>
      simp only [HashTable.call, hk]
      have hcap := t.capacity_remove key
      have hsize := (t.size_remove_le key).trans h.size_le
      rw [← show (t.remove key).threshold = t.threshold by rw [threshold, hcap, threshold]] at hsize
      exact ⟨hsize, hcap ▸ h.capacity⟩
    | none =>
      simp only [HashTable.call, hk]
      exact h
  | removeAll => exact ⟨by simp [HashTable.call, size], h.capacity⟩

theorem Loaded.run {t : HashTable α} (h : t.Loaded) (cs : List (Call α)) : (t.run cs).2.Loaded := by
  induction cs generalizing t with
  | nil => exact h
  | cons c cs ih => exact ih (h.call c)

theorem loaded_new : (new : HashTable α).Loaded :=
  ⟨by simp [size], 0, by omega, rfl⟩

/-- Whatever allocations fail, a table is the map that its replies tell of, and never overfull. -/
theorem run_refines (cs : List (Call α)) :
    MapRun (fun _ => none) cs (new.run cs).1 (new.run cs).2.get ∧
      (new.run cs).2.size = Set.ncard {k | (new.run cs).2.get k ≠ none} ∧
      4 * (new.run cs).2.size ≤ 3 * (new.run cs).2.capacity ∧
      ∃ n, (new.run cs).2.capacity = 2 ^ n ∧ 4 ≤ n ∧ n ≤ 31 := by
  have hnew : (new : HashTable α).get = fun _ => none := by
    funext k
    rw [get_eq_none]
    simp
  have hrun := (new : HashTable α).run_mapRun cs
  rw [hnew] at hrun
  have hload := (loaded_new (α := α)).run cs
  obtain ⟨n, hn, hcap⟩ := hload.capacity
  have hsize := hload.size_le
  refine ⟨hrun, size_eq_ncard _, ?_, n + 4, ?_, by omega, by omega⟩
  · unfold threshold at hsize
    omega
  · rw [hcap, pow_add]
    omega

/-! ## `HASHTABLE_FOREACH` -/

/-- `HashTableIter`. A pointer to an entry is the chain from that entry on, `[]` for `NULL`. -/
structure Iter (α : Type) where
  bucketIndex : ℕ
  nextEntry : List (ℕ × α)
  prevEntry : Option (ℕ × α)

/-- The first of the `n` buckets from `i` on that is not empty. -/
def firstBucket (t : HashTable α) (i n : ℕ) : Option ℕ :=
  (List.range' i n).find? fun j => !(t.buckets j).isEmpty

/-- `hashtable_iter_init`, which does not write to the iterator of an empty table. -/
def iterInit (t : HashTable α) : Option (Iter α) :=
  (t.firstBucket 0 t.capacity).map fun i => ⟨i, t.buckets i, none⟩

/-- `hashtable_iter_next`. -/
def iterNext (t : HashTable α) (iter : Iter α) : Stat × Option (ℕ × α) × Iter α :=
  match iter.nextEntry with
  | [] => (.iterEnd, none, iter)
  | e :: d :: rest => (.ok, some e, { iter with nextEntry := d :: rest, prevEntry := some e })
  | [e] =>
    match t.firstBucket (iter.bucketIndex + 1) (t.capacity - (iter.bucketIndex + 1)) with
    | some i => (.ok, some e, ⟨i, t.buckets i, some e⟩)
    | none => (.ok, some e, { iter with nextEntry := [], prevEntry := some e })

/-- The entries that the loop of `HASHTABLE_FOREACH` binds, with a bound on its iterations. -/
def foreachLoop (t : HashTable α) : ℕ → Iter α → Option (List (ℕ × α))
  | 0, _ => none
  | n + 1, iter =>
    match t.iterNext iter with
    | (.iterEnd, _, _) => some []
    | (_, some e, iter) => (t.foreachLoop n iter).map (e :: ·)
    | (_, none, _) => none

/-- What an iterator has yet to visit. -/
def Iter.left (t : HashTable α) (iter : Iter α) : List (ℕ × α) :=
  iter.nextEntry ++ (List.range' (iter.bucketIndex + 1)
    (t.capacity - (iter.bucketIndex + 1))).flatMap t.buckets

theorem flatMap_firstBucket (t : HashTable α) (i n : ℕ) :
    (t.firstBucket i n = none ∧ (List.range' i n).flatMap t.buckets = []) ∨
    ∃ j, t.firstBucket i n = some j ∧ t.buckets j ≠ [] ∧ (i ≤ j ∧ j < i + n) ∧
      (List.range' i n).flatMap t.buckets =
        t.buckets j ++ (List.range' (j + 1) (i + n - (j + 1))).flatMap t.buckets := by
  unfold firstBucket
  induction n generalizing i with
  | zero => exact .inl ⟨rfl, rfl⟩
  | succ n ih =>
    rw [List.range'_succ, List.find?_cons, List.flatMap_cons]
    cases hb : t.buckets i with
    | nil =>
      simp only [List.isEmpty_nil, Bool.not_true, List.nil_append]
      rcases ih (i + 1) with ⟨h1, h2⟩ | ⟨j, h1, h2, h3, h4⟩
      · exact .inl ⟨h1, h2⟩
      · refine .inr ⟨j, h1, h2, by omega, ?_⟩
        rw [h4]
        congr 3
        omega
    | cons e rest =>
      right
      refine ⟨i, rfl, by simp [hb], by omega, ?_⟩
      rw [hb]
      congr 3
      omega

/-- An iterator that has run out has nothing left. -/
def Iter.Valid (t : HashTable α) (iter : Iter α) : Prop := iter.nextEntry = [] → iter.left t = []

/-- A call of `hashtable_iter_next` visits one entry. -/
theorem iterNext_left (t : HashTable α) {iter : Iter α} (h : iter.Valid t) :
    (t.iterNext iter = (.iterEnd, none, iter) ∧ iter.left t = []) ∨
    ∃ e iter', t.iterNext iter = (.ok, some e, iter') ∧ iter'.Valid t ∧
      iter.left t = e :: iter'.left t := by
  obtain ⟨b, next, prev⟩ := iter
  cases next with
  | nil => exact .inl ⟨rfl, h rfl⟩
  | cons e rest =>
    right
    cases rest with
    | cons d rest =>
      refine ⟨e, _, rfl, ?_, rfl⟩
      intro hnil
      cases hnil
    | nil =>
      rcases t.flatMap_firstBucket (b + 1) (t.capacity - (b + 1)) with ⟨h1, h2⟩ | ⟨j, h1, h2, h3, h4⟩
      · refine ⟨e, ⟨b, [], some e⟩, ?_, ?_, ?_⟩
        · simp only [iterNext, h1]
        · intro _
          simpa [Iter.left] using h2
        · simp [Iter.left, h2]
      · refine ⟨e, ⟨j, t.buckets j, some e⟩, ?_, ?_, ?_⟩
        · simp only [iterNext, h1]
        · intro hnil
          exact absurd hnil h2
        · rw [Iter.left, h4, Iter.left]
          have hrest : b + 1 + (t.capacity - (b + 1)) - (j + 1) = t.capacity - (j + 1) := by omega
          rw [hrest]
          rfl

theorem foreachLoop_left (t : HashTable α) {iter : Iter α} (h : iter.Valid t) {n : ℕ}
    (hn : (iter.left t).length < n) : t.foreachLoop n iter = some (iter.left t) := by
  induction n generalizing iter with
  | zero => omega
  | succ n ih =>
    rcases t.iterNext_left h with ⟨h1, h2⟩ | ⟨e, iter', h1, h2, h3⟩
    · rw [foreachLoop, h1, h2]
    · rw [h3, List.length_cons] at hn
      rw [foreachLoop, h1, h3]
      dsimp only
      rw [ih h2 (by omega)]
      rfl

/-- The loop over a table that is not empty ends, and binds each mapping of the table once. -/
theorem foreach_visits (t : HashTable α) (h : 0 < t.size) :
    (∃ iter, t.iterInit = some iter ∧ ∀ n, t.size < n → t.foreachLoop n iter = some t.entries) ∧
      (∀ k v, (k, v) ∈ t.entries ↔ t.get k = some v) ∧ (t.entries.map Prod.fst).Nodup := by
  have hne : t.entries ≠ [] := by
    intro hnil
    rw [size, hnil] at h
    exact absurd h (lt_irrefl 0)
  refine ⟨?_, fun k v => (t.get_eq_some k v).symm, t.keys_nodup⟩
  rcases t.flatMap_firstBucket 0 t.capacity with ⟨_, h2⟩ | ⟨j, h1, h2, h3, h4⟩
  · rw [← List.range_eq_range'] at h2
    exact absurd h2 hne
  · refine ⟨⟨j, t.buckets j, none⟩, by rw [iterInit, h1]; rfl, fun n hn => ?_⟩
    have hleft : (⟨j, t.buckets j, none⟩ : Iter α).left t = t.entries := by
      rw [entries, List.range_eq_range', h4, Iter.left, Nat.zero_add]
    rw [← hleft]
    apply t.foreachLoop_left
    · intro hnil
      exact absurd hnil h2
    · rw [hleft]
      exact hn

/-- A chain of two entries, and another bucket. -/
def threeEntries : HashTable Char := ((new.add 24 'a').add 0 'b').add 8 'c'

theorem foreach_visits_threeEntries : ∃ iter, threeEntries.iterInit = some iter ∧
    threeEntries.foreachLoop 4 iter = some [(0, 'b'), (8, 'c'), (24, 'a')] := by
  obtain ⟨iter, hi, hv⟩ := (foreach_visits threeEntries (by decide)).1
  exact ⟨iter, hi, hv 4 (by decide)⟩

end Acid.HashTable

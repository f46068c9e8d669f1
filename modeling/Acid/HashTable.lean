import Mathlib.Data.List.Nodup
import Mathlib.Data.List.Perm.Basic
import Mathlib.Data.List.Flatten
import Mathlib.Data.List.Range
import Mathlib.Logic.Function.Basic
import Mathlib.Data.Nat.Bitwise
import Mathlib.Tactic.Ring

set_option autoImplicit false

/-!
# The chained hash table of `lib/collectc/hashtable.c`

Keys are field offsets and `hashtable_hash_offset` is the identity, so a bucket
index is the key masked by the capacity. Allocation and the capacity limit are
assumed to succeed, so an addition always takes effect.
-/
namespace Acid

/-- `hash & (capacity - 1)`. -/
def bucketIndex (capacity key : ℕ) : ℕ := key &&& (capacity - 1)

theorem bucketIndex_lt {capacity : ℕ} (h : 0 < capacity) (key : ℕ) :
    bucketIndex capacity key < capacity := by
  have hle : bucketIndex capacity key ≤ capacity - 1 := Nat.and_le_right
  omega

@[simp] theorem bucketIndex_zero (capacity : ℕ) : bucketIndex capacity 0 = 0 := by
  simp [bucketIndex]

/-- Every entry sits in the bucket of its key, and no key occurs twice. -/
structure HashTable (α : Type) where
  capacity : ℕ
  buckets : ℕ → List (ℕ × α)
  capacity_pos : 0 < capacity
  placed : ∀ i, ∀ e ∈ buckets i, bucketIndex capacity e.1 = i
  nodup : ∀ i, ((buckets i).map Prod.fst).Nodup

namespace HashTable
variable {α : Type}

/-- The entries in the order of `HASHTABLE_FOREACH`. -/
def entries (t : HashTable α) : List (ℕ × α) := (List.range t.capacity).flatMap t.buckets

def values (t : HashTable α) : List α := t.entries.map Prod.snd

/-- `DEFAULT_CAPACITY` is 16. -/
def new : HashTable α where
  capacity := 16
  buckets := fun _ => []
  capacity_pos := by decide
  placed := by simp
  nodup := by simp

def size (t : HashTable α) : ℕ := t.entries.length

/-- `capacity * load_factor` with the default load factor 0.75. -/
def threshold (t : HashTable α) : ℕ := t.capacity * 3 / 4

theorem mem_entries_iff (t : HashTable α) (e : ℕ × α) :
    e ∈ t.entries ↔ e ∈ t.buckets (bucketIndex t.capacity e.1) := by
  simp only [entries, List.mem_flatMap, List.mem_range]
  constructor
  · rintro ⟨i, _, he⟩
    rwa [t.placed i e he]
  · intro he
    exact ⟨_, bucketIndex_lt t.capacity_pos e.1, he⟩

theorem mem_bucket_iff (t : HashTable α) (i : ℕ) (e : ℕ × α) :
    e ∈ t.buckets i ↔ e ∈ t.entries ∧ bucketIndex t.capacity e.1 = i := by
  rw [mem_entries_iff]
  constructor
  · intro he
    have hi := t.placed i e he
    exact ⟨hi ▸ he, hi⟩
  · rintro ⟨he, rfl⟩
    exact he

theorem keys_nodup (t : HashTable α) : (t.entries.map Prod.fst).Nodup := by
  rw [entries, List.map_flatMap, List.nodup_flatMap]
  refine ⟨fun i _ => t.nodup i, ?_⟩
  refine (List.nodup_range (n := t.capacity)).imp ?_
  intro i j hij k hi hj
  obtain ⟨e, he, rfl⟩ := List.mem_map.mp hi
  obtain ⟨e', he', hk⟩ := List.mem_map.mp hj
  exact hij ((t.placed i e he).symm.trans (hk ▸ t.placed j e' he'))

theorem entries_nodup (t : HashTable α) : t.entries.Nodup := t.keys_nodup.of_map _

/-- One value for each key. -/
theorem entries_unique (t : HashTable α) {k : ℕ} {v w : α}
    (hv : (k, v) ∈ t.entries) (hw : (k, w) ∈ t.entries) : v = w := by
  have h := List.inj_on_of_nodup_map t.keys_nodup hv hw rfl
  simpa using h

/-- Replace the chain of one bucket. -/
def setBucket (t : HashTable α) (i : ℕ) (chain : List (ℕ × α))
    (placed : ∀ e ∈ chain, bucketIndex t.capacity e.1 = i)
    (nodup : (chain.map Prod.fst).Nodup) : HashTable α where
  capacity := t.capacity
  buckets := Function.update t.buckets i chain
  capacity_pos := t.capacity_pos
  placed := by
    intro j e he
    by_cases hj : j = i
    · subst j
      exact placed e (by simpa using he)
    · rw [Function.update_of_ne hj] at he
      exact t.placed j e he
  nodup := by
    intro j
    by_cases hj : j = i
    · subst j
      simpa using nodup
    · rw [Function.update_of_ne hj]
      exact t.nodup j

theorem mem_setBucket (t : HashTable α) (i : ℕ) (chain : List (ℕ × α)) (hp hn) (e : ℕ × α) :
    e ∈ (t.setBucket i chain hp hn).entries ↔
      if bucketIndex t.capacity e.1 = i then e ∈ chain else e ∈ t.entries := by
  rw [mem_entries_iff]
  change e ∈ Function.update t.buckets i chain (bucketIndex t.capacity e.1) ↔ _
  by_cases h : bucketIndex t.capacity e.1 = i
  · simp [h]
  · rw [Function.update_of_ne h, if_neg h, mem_entries_iff]

/-- `move_entries`: each entry is pushed on the front of its new chain. -/
def moveEntries (capacity : ℕ) (es : List (ℕ × α)) : ℕ → List (ℕ × α) :=
  es.foldl (fun dest e => Function.update dest (bucketIndex capacity e.1)
    (e :: dest (bucketIndex capacity e.1))) (fun _ => [])

theorem moveEntries_eq (capacity : ℕ) (es : List (ℕ × α)) (i : ℕ) :
    moveEntries capacity es i = (es.filter (fun e => bucketIndex capacity e.1 = i)).reverse := by
  have general : ∀ dest : ℕ → List (ℕ × α), es.foldl (fun dest e =>
      Function.update dest (bucketIndex capacity e.1) (e :: dest (bucketIndex capacity e.1))) dest i =
      (es.filter (fun e => bucketIndex capacity e.1 = i)).reverse ++ dest i := by
    induction es with
    | nil => intro dest; simp
    | cons e es ih =>
      intro dest
      rw [List.foldl_cons, ih]
      by_cases h : bucketIndex capacity e.1 = i
      · subst h; simp
      · rw [Function.update_of_ne (Ne.symm h)]; simp [h]
  exact (general (fun _ => [])).trans (List.append_nil _)

def resize (t : HashTable α) : HashTable α where
  capacity := 2 * t.capacity
  buckets := moveEntries (2 * t.capacity) t.entries
  capacity_pos := by have := t.capacity_pos; omega
  placed := by
    intro i e he
    rw [moveEntries_eq] at he
    simpa using (List.mem_filter.mp (List.mem_reverse.mp he)).2
  nodup := by
    intro i
    rw [moveEntries_eq, List.map_reverse, List.nodup_reverse]
    exact t.keys_nodup.sublist (List.filter_sublist.map _)

theorem mem_resize (t : HashTable α) (e : ℕ × α) : e ∈ t.resize.entries ↔ e ∈ t.entries := by
  rw [mem_entries_iff]
  change e ∈ moveEntries (2 * t.capacity) t.entries (bucketIndex (2 * t.capacity) e.1) ↔ _
  simp [moveEntries_eq]

/-- The chain after a new value for `key`: replaced in place, else pushed in front. -/
def chainAdd (chain : List (ℕ × α)) (key : ℕ) (val : α) : List (ℕ × α) :=
  if key ∈ chain.map Prod.fst then chain.map (fun e => if e.1 = key then (key, val) else e)
  else (key, val) :: chain

theorem mem_chainAdd (chain : List (ℕ × α)) (key : ℕ) (val : α) (e : ℕ × α) :
    e ∈ chainAdd chain key val ↔ e = (key, val) ∨ (e ∈ chain ∧ e.1 ≠ key) := by
  unfold chainAdd
  split_ifs with h
  · simp only [List.mem_map]
    constructor
    · rintro ⟨d, hd, rfl⟩
      by_cases hk : d.1 = key
      · simp [hk]
      · exact .inr ⟨by simpa [hk] using hd, by simp [hk]⟩
    · rintro (rfl | ⟨he, hk⟩)
      · obtain ⟨d, hd, hk⟩ := List.mem_map.mp h
        exact ⟨d, hd, by simp [hk]⟩
      · exact ⟨e, he, by simp [hk]⟩
  · simp only [List.mem_cons]
    constructor
    · rintro (rfl | he)
      · exact .inl rfl
      · exact .inr ⟨he, fun hk => h (hk ▸ List.mem_map_of_mem he)⟩
    · rintro (rfl | ⟨he, _⟩)
      · exact .inl rfl
      · exact .inr he

theorem chainAdd_keys_nodup {chain : List (ℕ × α)} (h : (chain.map Prod.fst).Nodup)
    (key : ℕ) (val : α) : ((chainAdd chain key val).map Prod.fst).Nodup := by
  unfold chainAdd
  split_ifs with hk
  · have hsame : (chain.map (fun e => if e.1 = key then (key, val) else e)).map Prod.fst =
        chain.map Prod.fst := by
      rw [List.map_map]
      apply List.map_congr_left
      intro e _
      by_cases he : e.1 = key <;> simp [he]
    rwa [hsame]
  · simpa using ⟨by simpa using hk, h⟩

theorem chainAdd_placed (t : HashTable α) {i key : ℕ} (hi : bucketIndex t.capacity key = i)
    (val : α) : ∀ e ∈ chainAdd (t.buckets i) key val, bucketIndex t.capacity e.1 = i := by
  intro e he
  rcases (mem_chainAdd _ _ _ _).mp he with rfl | ⟨he, _⟩
  · exact hi
  · exact t.placed i e he

def addNullKey (t : HashTable α) (val : α) : HashTable α :=
  t.setBucket 0 (chainAdd (t.buckets 0) 0 val) (t.chainAdd_placed (bucketIndex_zero _) val)
    (chainAdd_keys_nodup (t.nodup 0) 0 val)

def addKey (t : HashTable α) (key : ℕ) (val : α) : HashTable α :=
  t.setBucket (bucketIndex t.capacity key)
    (chainAdd (t.buckets (bucketIndex t.capacity key)) key val)
    (t.chainAdd_placed rfl val) (chainAdd_keys_nodup (t.nodup _) key val)

def add (t : HashTable α) (key : ℕ) (val : α) : HashTable α :=
  let t := if t.threshold ≤ t.size then t.resize else t
  if key = 0 then t.addNullKey val else t.addKey key val

theorem addNullKey_eq (t : HashTable α) (val : α) : t.addNullKey val = t.addKey 0 val := by
  simp only [addNullKey, addKey, bucketIndex_zero]

theorem mem_addKey (t : HashTable α) (key : ℕ) (val : α) (e : ℕ × α) :
    e ∈ (t.addKey key val).entries ↔ e = (key, val) ∨ (e ∈ t.entries ∧ e.1 ≠ key) := by
  rw [addKey, mem_setBucket]
  split_ifs with h
  · rw [mem_chainAdd, mem_bucket_iff]
    simp [h]
  · constructor
    · intro he
      exact .inr ⟨he, fun hk => h (by rw [hk])⟩
    · rintro (rfl | he)
      · exact absurd rfl h
      · exact he.1

theorem mem_add (t : HashTable α) (key : ℕ) (val : α) (e : ℕ × α) :
    e ∈ (t.add key val).entries ↔ e = (key, val) ∨ (e ∈ t.entries ∧ e.1 ≠ key) := by
  have hadd : ∃ u : HashTable α, (∀ d, d ∈ u.entries ↔ d ∈ t.entries) ∧
      t.add key val = u.addKey key val := by
    refine ⟨if t.threshold ≤ t.size then t.resize else t, ?_, ?_⟩
    · intro d
      split_ifs
      · exact t.mem_resize d
      · exact Iff.rfl
    · by_cases hk : key = 0
      · subst hk
        simp [add, addNullKey_eq]
      · simp [add, hk]
  obtain ⟨u, hu, he⟩ := hadd
  rw [he, mem_addKey, hu]

def getNullKey (t : HashTable α) : Option α :=
  ((t.buckets 0).find? (fun e => e.1 = 0)).map Prod.snd

def getKey (t : HashTable α) (key : ℕ) : Option α :=
  ((t.buckets (bucketIndex t.capacity key)).find? (fun e => e.1 = key)).map Prod.snd

/-- `hashtable_get`, with `none` for `CC_ERR_KEY_NOT_FOUND`. -/
def get (t : HashTable α) (key : ℕ) : Option α :=
  if key = 0 then t.getNullKey else t.getKey key

theorem get_eq_getKey (t : HashTable α) (key : ℕ) : t.get key = t.getKey key := by
  by_cases h : key = 0
  · subst h
    simp [get, getNullKey, getKey]
  · simp [get, h]

theorem get_eq_some (t : HashTable α) (key : ℕ) (v : α) :
    t.get key = some v ↔ (key, v) ∈ t.entries := by
  rw [get_eq_getKey, getKey]
  constructor
  · intro h
    obtain ⟨e, he, rfl⟩ := Option.map_eq_some_iff.mp h
    have hk : e.1 = key := by simpa using List.find?_some he
    have hm := List.mem_of_find?_eq_some he
    subst hk
    exact (t.mem_entries_iff _).mpr hm
  · intro h
    have hb := (t.mem_entries_iff _).mp h
    cases hf : (t.buckets (bucketIndex t.capacity key)).find? (fun e => e.1 = key) with
    | none =>
      have := List.find?_eq_none.mp hf _ hb
      simp at this
    | some e =>
      have hk : e.1 = key := by simpa using List.find?_some hf
      have hm := List.mem_of_find?_eq_some hf
      subst hk
      simp [t.entries_unique h ((t.mem_entries_iff e).mpr hm)]

theorem get_eq_none (t : HashTable α) (key : ℕ) :
    t.get key = none ↔ ∀ v, (key, v) ∉ t.entries := by
  constructor
  · intro h v hv
    rw [← get_eq_some, h] at hv
    cases hv
  · intro h
    cases hg : t.get key with
    | none => rfl
    | some v => exact absurd ((t.get_eq_some key v).mp hg) (h v)

/-- Unlink the entry of `key` from the chain of bucket `i`. -/
def removeFrom (t : HashTable α) (i key : ℕ) : HashTable α :=
  t.setBucket i ((t.buckets i).filter (fun e => e.1 ≠ key))
    (fun e he => t.placed i e (List.mem_of_mem_filter he))
    ((t.nodup i).sublist (List.filter_sublist.map _))

/-- `hashtable_remove` less its out parameter, which is `get` before the call. -/
def remove (t : HashTable α) (key : ℕ) : HashTable α :=
  if key = 0 then t.removeFrom 0 0 else t.removeFrom (bucketIndex t.capacity key) key

theorem mem_remove (t : HashTable α) (key : ℕ) (e : ℕ × α) :
    e ∈ (t.remove key).entries ↔ e ∈ t.entries ∧ e.1 ≠ key := by
  have hr : t.remove key = t.removeFrom (bucketIndex t.capacity key) key := by
    by_cases h : key = 0
    · subst h
      simp [remove]
    · simp [remove, h]
  rw [hr, removeFrom, mem_setBucket]
  split_ifs with h
  · rw [List.mem_filter, mem_bucket_iff]
    simp [h]
  · constructor
    · intro he
      exact ⟨he, fun hk => h (by rw [hk])⟩
    · exact And.left

/-- `hashtable_remove_all` keeps the capacity. -/
def removeAll (t : HashTable α) : HashTable α where
  capacity := t.capacity
  buckets := fun _ => []
  capacity_pos := t.capacity_pos
  placed := by simp
  nodup := by simp

@[simp] theorem entries_removeAll (t : HashTable α) : t.removeAll.entries = [] := by
  simp [entries, removeAll]

@[simp] theorem entries_new : (new : HashTable α).entries = [] := by
  simp [entries, new]

theorem mem_values (t : HashTable α) (v : α) : v ∈ t.values ↔ ∃ k, (k, v) ∈ t.entries := by
  simp [values]

/-- No value is stored under two keys. -/
theorem values_nodup_iff (t : HashTable α) :
    t.values.Nodup ↔ ∀ k k' v, (k, v) ∈ t.entries → (k', v) ∈ t.entries → k = k' := by
  rw [values, List.nodup_map_iff_inj_on t.entries_nodup]
  constructor
  · intro h k k' v h1 h2
    exact congrArg Prod.fst (h (k, v) h1 (k', v) h2 rfl)
  · rintro h ⟨k, v⟩ h1 ⟨k', v'⟩ h2 hv
    obtain rfl : v = v' := hv
    rw [h k k' v h1 h2]

/-- A key takes its own value along. -/
theorem mem_values_remove {t : HashTable α} (h : t.values.Nodup) (key : ℕ) (v : α) :
    v ∈ (t.remove key).values ↔ v ∈ t.values ∧ t.get key ≠ some v := by
  rw [values_nodup_iff] at h
  simp only [mem_values, mem_remove, ne_eq, get_eq_some]
  constructor
  · rintro ⟨k, hk, hne⟩
    exact ⟨⟨k, hk⟩, fun hkey => hne (h k key v hk hkey)⟩
  · rintro ⟨⟨k, hk⟩, hno⟩
    refine ⟨k, hk, ?_⟩
    rintro rfl
    exact hno hk

theorem mem_values_add {t : HashTable α} (h : t.values.Nodup) (key : ℕ) (val v : α) :
    v ∈ (t.add key val).values ↔ v = val ∨ (v ∈ t.values ∧ t.get key ≠ some v) := by
  have hr := mem_values_remove h key v
  simp only [mem_values, mem_remove] at hr
  rw [mem_values t v, ← hr]
  simp only [mem_values, mem_add, Prod.mk.injEq]
  constructor
  · rintro ⟨k, ⟨_, hv⟩ | hk⟩
    · exact .inl hv
    · exact .inr ⟨k, hk⟩
  · rintro (hv | ⟨k, hk⟩)
    · exact ⟨key, .inl ⟨rfl, hv⟩⟩
    · exact ⟨k, .inr hk⟩

theorem values_remove_nodup {t : HashTable α} (h : t.values.Nodup) (key : ℕ) :
    (t.remove key).values.Nodup := by
  rw [values_nodup_iff] at h ⊢
  intro k k' v h1 h2
  exact h k k' v ((t.mem_remove key _).mp h1).1 ((t.mem_remove key _).mp h2).1

theorem values_add_nodup {t : HashTable α} (h : t.values.Nodup) (key : ℕ) {val : α}
    (hval : val ∉ t.values) : (t.add key val).values.Nodup := by
  rw [values_nodup_iff] at h ⊢
  intro k k' v h1 h2
  rw [mem_add] at h1 h2
  have hne : ∀ k, (k, val) ∉ t.entries := fun k hk => hval ((t.mem_values val).mpr ⟨k, hk⟩)
  rcases h1 with h1 | ⟨h1, _⟩ <;> rcases h2 with h2 | ⟨h2, _⟩
  · cases h1
    cases h2
    rfl
  · cases h1
    exact absurd h2 (hne k')
  · cases h2
    exact absurd h1 (hne k)
  · exact h k k' v h1 h2

theorem size_eq_zero (t : HashTable α) : t.size = 0 ↔ t.entries = [] := List.length_eq_zero_iff

example : ((((new.add 24 'a').add 0 'b').add 8 'c').add 0 'd').entries =
    [(0, 'd'), (8, 'c'), (24, 'a')] := by decide

end HashTable
end Acid

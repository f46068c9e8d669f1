import Mathlib.Algebra.Ring.Int.Defs
import Mathlib.Algebra.Ring.Nat
import Mathlib.Data.Int.Init
import Mathlib.Data.List.Induction
import Mathlib.Data.List.Perm.Basic
import Mathlib.Data.List.Perm.Subperm
import Mathlib.Data.List.Pairwise
import Mathlib.Data.List.ReduceOption
import Mathlib.Logic.Function.Basic
import Mathlib.Data.Set.Function
import Mathlib.Order.Basic
import Mathlib.Tactic.Push

set_option autoImplicit false

/-!
# `idlock.c` and `locker.c`

The locks are the elements of a type, with the ids that `idlock_init` gave them.
An array is a list, read and written by index. A lockable's lock is named by the
lockable, and `none` is `NULL`.
-/
namespace Acid.Locker

section
variable {κ : Type} (id : κ → ℕ)

def idlockCompare (lock1 lock2 : κ) : ℤ :=
  if id lock1 < id lock2 then -1 else if id lock2 < id lock1 then 1 else 0

/-- The conversion to `int_fast8_t`. -/
def int8 (z : ℤ) : ℤ := Int.bmod z 256

/-- The conversion to `size_t` that the comparison of an index with a count makes. -/
def sizeT (z : ℤ) : ℕ := (z % 2 ^ 64).toNat

/-- The inner loop of `isort`, with `j + 1` as the argument: the place left for `key`. -/
def isortShift (key : κ) : ℕ → List κ → List κ × ℕ
  | 0, arr => (arr, 0)
  | j + 1, arr =>
    match arr[j]? with
    | some x =>
      if idlockCompare id x key = 1 then isortShift key j (arr.set (j + 1) x) else (arr, j + 1)
    | none => (arr, j + 1)

/-- The outer loop of `isort` over at most `n` keys. -/
def isortLoop (count : ℕ) : ℕ → ℤ → List κ → List κ
  | 0, _, arr => arr
  | n + 1, i, arr =>
    if sizeT i < count then
      match arr[i.toNat]? with
      | some key =>
        let (arr, j) := isortShift id key i.toNat arr
        isortLoop count n (int8 (i + 1)) (arr.set j key)
      | none => arr
    else arr

/-- The index is negative, hence a huge `size_t`, after 127 keys at the latest. -/
def isort (arr : List κ) (count : ℕ) : List κ := isortLoop id count 127 1 arr

/-- The loop of `remove_duplicate_complocks`, with `n` indices to go from `i`. -/
def removeDuplicateLoop : ℕ → ℕ → ℕ → List κ → List κ × ℕ
  | 0, _, r, nums => (nums, r)
  | n + 1, i, r, nums =>
    match nums[r]?, nums[i]? with
    | some a, some b =>
      if idlockCompare id a b ≠ 0 then removeDuplicateLoop n (i + 1) (r + 1) (nums.set (r + 1) b)
      else removeDuplicateLoop n (i + 1) r nums
    | _, _ => (nums, r)

def removeDuplicateComplocks (nums : List κ) (count : ℕ) : List κ × ℕ :=
  if count = 0 then (nums, 0)
  else
    let (nums, r) := removeDuplicateLoop id (count - 1) 1 0 nums
    (nums, r + 1)

/-- The first loop of `locker_start`. -/
def filterNull (locks : List (Option κ)) : List κ :=
  locks.foldl (fun filtered lock =>
    match lock with
    | some lockable => filtered ++ [lockable]
    | none => filtered) []

/-- The locks that `locker_start` goes on to lock, in this order. -/
def lockSet (locks : List (Option κ)) : List κ :=
  let filteredLocks := filterNull locks
  if 1 < filteredLocks.length then
    let sorted := isort id filteredLocks filteredLocks.length
    let (nums, count) := removeDuplicateComplocks id sorted filteredLocks.length
    nums.take count
  else filteredLocks

theorem idlockCompare_eq_one {a b : κ} : idlockCompare id a b = 1 ↔ id b < id a := by
  unfold idlockCompare
  split_ifs with h1 h2
  · have : ¬ id b < id a := by omega
    simp [this]
  · simp [h2]
  · simp [h2]

theorem idlockCompare_ne_zero {a b : κ} : idlockCompare id a b ≠ 0 ↔ id a ≠ id b := by
  unfold idlockCompare
  split_ifs <;> omega

theorem int8_succ {i : ℕ} (h : i < 127) : int8 ((i : ℤ) + 1) = ((i + 1 : ℕ) : ℤ) := by
  unfold int8
  rw [Int.bmod_def]
  split_ifs <;> omega

theorem sizeT_natCast {i : ℕ} (h : i ≤ 127) : sizeT (i : ℤ) = i := by
  unfold sizeT
  omega

/-- The key ends behind the last element that is not larger. -/
theorem isortShift_spec (key : κ) (pre : List κ) : ∀ (hole : κ) (post : List κ),
    ∃ l r, pre = l ++ r ∧ (∀ x ∈ r, id key < id x) ∧ (∀ x ∈ l.getLast?, id x ≤ id key) ∧
      (isortShift id key pre.length (pre ++ hole :: post)).1.set
        (isortShift id key pre.length (pre ++ hole :: post)).2 key = l ++ key :: (r ++ post) := by
  induction pre using List.reverseRecOn with
  | nil =>
    intro hole post
    exact ⟨[], [], rfl, by simp, by simp, by simp [isortShift]⟩
  | append_singleton pre x ih =>
    intro hole post
    have hget : ((pre ++ [x]) ++ hole :: post)[pre.length]? = some x := by simp
    have hset : ((pre ++ [x]) ++ hole :: post).set (pre.length + 1) x = pre ++ x :: x :: post := by
      simp
    rw [List.length_append, List.length_singleton]
    simp only [isortShift, hget, idlockCompare_eq_one]
    by_cases hx : id key < id x
    · obtain ⟨l, r, hpre, hr, hl, heq⟩ := ih x (x :: post)
      refine ⟨l, r ++ [x], ?_, ?_, hl, ?_⟩
      · rw [hpre, List.append_assoc]
      · intro y hy
        rcases List.mem_append.mp hy with hy | hy
        · exact hr y hy
        · rw [List.mem_singleton.mp hy]
          exact hx
      · rw [if_pos hx, hset, heq]
        simp
    · refine ⟨pre ++ [x], [], by simp, by simp, ?_, ?_⟩
      · intro y hy
        rw [List.getLast?_concat, Option.mem_some_iff] at hy
        subst hy
        omega
      · rw [if_neg hx]
        simp

/-- An insertion keeps a sorted prefix sorted. -/
theorem pairwise_insert {key : κ} {l r : List κ}
    (h : (l ++ r).Pairwise fun a b => id a ≤ id b) (hr : ∀ x ∈ r, id key < id x)
    (hl : ∀ x ∈ l.getLast?, id x ≤ id key) :
    (l ++ key :: r).Pairwise fun a b => id a ≤ id b := by
  obtain ⟨h1, h2, h3⟩ := List.pairwise_append.mp h
  have hkey : ∀ x ∈ l, id x ≤ id key := by
    intro x hx
    obtain ⟨front, last, rfl⟩ : ∃ front last, l = front ++ [last] := by
      induction l using List.reverseRecOn with
      | nil => cases hx
      | append_singleton front last => exact ⟨front, last, rfl⟩
    have hlast : id last ≤ id key := hl last (by simp)
    rcases List.mem_append.mp hx with hx | hx
    · have := (List.pairwise_append.mp h1).2.2 x hx last (by simp)
      omega
    · rw [List.mem_singleton.mp hx]
      exact hlast
  apply List.pairwise_append.mpr
  refine ⟨h1, List.pairwise_cons.mpr ⟨fun x hx => (hr x hx).le, h2⟩, ?_⟩
  intro a ha b hb
  rcases List.mem_cons.mp hb with rfl | hb
  · exact hkey a ha
  · exact h3 a ha b hb

/-- The outer loop, from a sorted prefix `pre` on. -/
theorem isortLoop_spec (post : List κ) : ∀ (n : ℕ) (pre : List κ),
    (pre.Pairwise fun a b => id a ≤ id b) → pre.length + post.length ≤ 127 → post.length ≤ n →
    (isortLoop id (pre.length + post.length) n pre.length (pre ++ post)).Pairwise
        (fun a b => id a ≤ id b) ∧
      (isortLoop id (pre.length + post.length) n pre.length (pre ++ post)).Perm (pre ++ post) := by
  induction post with
  | nil =>
    intro n pre hpre hlen _
    have hguard : ¬ sizeT (pre.length : ℤ) < pre.length + 0 := by
      rw [sizeT_natCast (by simpa using hlen)]
      omega
    cases n with
    | zero => simpa [isortLoop] using hpre
    | succ n => simpa [isortLoop, hguard] using hpre
  | cons key post ih =>
    intro n pre hpre hlen hn
    rw [List.length_cons] at hlen hn
    obtain ⟨n, rfl⟩ : ∃ m, n = m + 1 := ⟨n - 1, by omega⟩
    obtain ⟨l, r, hlr, hr, hl, heq⟩ := isortShift_spec id key pre key post
    have hguard : sizeT (pre.length : ℤ) < pre.length + (key :: post).length := by
      rw [sizeT_natCast (by omega), List.length_cons]
      omega
    have hget : (pre ++ key :: post)[pre.length]? = some key := by simp
    have hnext : l ++ key :: (r ++ post) = (l ++ key :: r) ++ post := by simp
    have hcount : (l ++ key :: r).length = pre.length + 1 := by
      rw [hlr]
      simp only [List.length_append, List.length_cons]
      omega
    have hperm : ((l ++ key :: r) ++ post).Perm (pre ++ key :: post) := by
      rw [hlr]
      calc ((l ++ key :: r) ++ post).Perm ((key :: (l ++ r)) ++ post) :=
            List.perm_middle.append_right post
        _ = key :: ((l ++ r) ++ post) := rfl
        List.Perm _ _ := List.perm_middle.symm
    obtain ⟨hs, hp⟩ := ih n (l ++ key :: r) (pairwise_insert id (hlr ▸ hpre) hr hl)
      (by rw [hcount]; omega) (by omega)
    have hstep : isortLoop id (pre.length + (key :: post).length) (n + 1) pre.length
        (pre ++ key :: post) =
        isortLoop id ((l ++ key :: r).length + post.length) n (l ++ key :: r).length
          ((l ++ key :: r) ++ post) := by
      rw [isortLoop, if_pos hguard]
      rw [Int.toNat_natCast, hget]
      simp only [heq, int8_succ (show pre.length < 127 by omega)]
      rw [hnext, hcount, List.length_cons]
      congr 1
      omega
    rw [hstep]
    exact ⟨hs, hp.trans hperm⟩

/-- `isort` sorts by id. -/
theorem isort_spec {arr : List κ} (h : arr.length ≤ 127) :
    (isort id arr arr.length).Pairwise (fun a b => id a ≤ id b) ∧
      (isort id arr arr.length).Perm arr := by
  cases arr with
  | nil => simp [isort, isortLoop]
  | cons x arr =>
    rw [List.length_cons] at h
    have := isortLoop_spec id arr 127 [x] (List.pairwise_singleton _ _) (by simp; omega) (by omega)
    simpa [isort, Nat.add_comm] using this

/-- The loop on sorted input: `front ++ [a]` is the part already cleaned, `junk` was skipped. -/
theorem removeDuplicateLoop_spec (rest : List κ) : ∀ (front : List κ) (a : κ) (junk : List κ),
    ((front ++ [a]).Pairwise fun a b => id a < id b) →
    ((a :: rest).Pairwise fun a b => id a ≤ id b) →
    ∀ nums r, removeDuplicateLoop id rest.length (front.length + 1 + junk.length) front.length
      (front ++ a :: (junk ++ rest)) = (nums, r) →
    ((nums.take (r + 1)).Pairwise fun a b => id a < id b) ∧
      (∀ x ∈ nums.take (r + 1), x ∈ front ++ a :: rest) ∧
      ∀ x ∈ front ++ a :: rest, ∃ y ∈ nums.take (r + 1), id y = id x := by
  induction rest with
  | nil =>
    intro front a junk hd _ nums r heq
    simp only [List.length_nil, removeDuplicateLoop, List.append_nil, Prod.mk.injEq] at heq
    obtain ⟨rfl, rfl⟩ := heq
    have htake : (front ++ a :: junk).take (front.length + 1) = front ++ [a] := by
      rw [List.append_cons, List.take_left' (by simp)]
    rw [htake]
    exact ⟨hd, fun x hx => hx, fun x hx => ⟨x, hx, rfl⟩⟩
  | cons b rest ih =>
    intro front a junk hd hs nums r heq
    obtain ⟨hab, hrest⟩ := List.pairwise_cons.mp hs
    have hr : (front ++ a :: (junk ++ b :: rest))[front.length]? = some a := by simp
    have hi : (front ++ a :: (junk ++ b :: rest))[front.length + 1 + junk.length]? = some b := by
      rw [List.getElem?_append_right (by omega)]
      have : front.length + 1 + junk.length - front.length = junk.length + 1 := by omega
      rw [this, List.getElem?_cons_succ, List.getElem?_append_right (le_refl _)]
      simp
    rw [List.length_cons, removeDuplicateLoop, hr, hi] at heq
    simp only [idlockCompare_ne_zero] at heq
    by_cases hne : id a = id b
    · -- `b` is skipped
      rw [if_neg (not_not.mpr hne)] at heq
      have hnums : front ++ a :: (junk ++ b :: rest) = front ++ a :: ((junk ++ [b]) ++ rest) := by
        simp
      have hlen : front.length + 1 + junk.length + 1 = front.length + 1 + (junk ++ [b]).length := by
        simp [Nat.add_assoc]
      rw [hnums, hlen] at heq
      have hs' : (a :: rest).Pairwise fun a b => id a ≤ id b :=
        List.pairwise_cons.mpr ⟨fun x hx => hab x (by simp [hx]), (List.pairwise_cons.mp hrest).2⟩
      obtain ⟨h1, h2, h3⟩ := ih front a (junk ++ [b]) hd hs' nums r heq
      refine ⟨h1, ?_, ?_⟩
      · intro x hx
        have := h2 x hx
        simp only [List.mem_append, List.mem_cons] at this ⊢
        tauto
      · intro x hx
        by_cases hxb : x = b
        · obtain ⟨y, hy, hya⟩ := h3 a (by simp)
          exact ⟨y, hy, by rw [hya, hxb, hne]⟩
        · apply h3 x
          simp only [List.mem_append, List.mem_cons] at hx ⊢
          tauto
    · -- `b` becomes the last element of the cleaned part
      rw [if_pos hne] at heq
      have hlt : id a < id b := by
        have := hab b (by simp)
        omega
      obtain ⟨junk', hset, hlen⟩ : ∃ junk',
          (front ++ a :: (junk ++ b :: rest)).set (front.length + 1) b =
            (front ++ [a]) ++ b :: (junk' ++ rest) ∧ junk'.length = junk.length := by
        cases junk with
        | nil => exact ⟨[], by simp, rfl⟩
        | cons j junk => exact ⟨junk ++ [b], by simp, by simp⟩
      have hidx : front.length + 1 + junk.length + 1 =
          (front ++ [a]).length + 1 + junk'.length := by
        rw [hlen, List.length_append, List.length_singleton]
        omega
      have hlast : front.length + 1 = (front ++ [a]).length := by simp
      rw [hset, hidx, hlast] at heq
      have hd' : ((front ++ [a]) ++ [b]).Pairwise fun a b => id a < id b := by
        apply List.pairwise_append.mpr
        refine ⟨hd, List.pairwise_singleton _ _, ?_⟩
        intro x hx y hy
        rw [List.mem_singleton.mp hy]
        rcases List.mem_append.mp hx with hx | hx
        · have := (List.pairwise_append.mp hd).2.2 x hx a (by simp)
          omega
        · rw [List.mem_singleton.mp hx]
          exact hlt
      have := ih (front ++ [a]) b junk' hd' hrest nums r heq
      simpa only [List.append_assoc, List.singleton_append] using this

/-- `remove_duplicate_complocks` on sorted input. -/
theorem removeDuplicateComplocks_spec {nums : List κ}
    (h : nums.Pairwise fun a b => id a ≤ id b) :
    let (nums', count) := removeDuplicateComplocks id nums nums.length
    ((nums'.take count).Pairwise fun a b => id a < id b) ∧
      (∀ x ∈ nums'.take count, x ∈ nums) ∧ ∀ x ∈ nums, ∃ y ∈ nums'.take count, id y = id x := by
  cases nums with
  | nil => simp [removeDuplicateComplocks]
  | cons a rest =>
    have := removeDuplicateLoop_spec id rest [] a [] (List.pairwise_singleton _ _) h _ _ rfl
    simpa [removeDuplicateComplocks] using this

theorem filterNull_append (acc : List κ) (locks : List (Option κ)) :
    locks.foldl (fun filtered lock =>
      match lock with
      | some lockable => filtered ++ [lockable]
      | none => filtered) acc = acc ++ locks.reduceOption := by
  induction locks generalizing acc with
  | nil => simp
  | cons lock locks ih =>
    rw [List.foldl_cons, ih]
    cases lock with
    | none => rw [List.reduceOption_cons_of_none]
    | some k => rw [List.reduceOption_cons_of_some, List.append_assoc, List.singleton_append]

theorem filterNull_eq (locks : List (Option κ)) : filterNull locks = locks.reduceOption :=
  filterNull_append [] locks

theorem mem_filterNull {locks : List (Option κ)} {k : κ} :
    k ∈ filterNull locks ↔ some k ∈ locks := by
  rw [filterNull_eq, List.reduceOption_mem_iff]

theorem filterNull_length (locks : List (Option κ)) :
    (filterNull locks).length ≤ locks.length := by
  rw [filterNull_eq]
  exact List.reduceOption_length_le locks

/-- The lock set, for any assignment of ids: one lock for each id, in increasing order. -/
theorem lockSet_spec {locks : List (Option κ)} (h : locks.length ≤ 127) :
    ((lockSet id locks).Pairwise fun a b => id a < id b) ∧
      (∀ k ∈ lockSet id locks, some k ∈ locks) ∧
      ∀ k, some k ∈ locks → ∃ k' ∈ lockSet id locks, id k' = id k := by
  have hlen : (filterNull locks).length ≤ 127 := (filterNull_length locks).trans h
  unfold lockSet
  by_cases h1 : 1 < (filterNull locks).length
  · obtain ⟨hs, hp⟩ := isort_spec id hlen
    have hcount := hp.length_eq
    rw [if_pos h1]
    have hd := removeDuplicateComplocks_spec id hs
    rw [hcount] at hd
    obtain ⟨d1, d2, d3⟩ := hd
    refine ⟨d1, ?_, ?_⟩
    · intro k hk
      exact mem_filterNull.mp (hp.mem_iff.mp (d2 k hk))
    · intro k hk
      exact d3 k (hp.mem_iff.mpr (mem_filterNull.mpr hk))
  · rw [if_neg h1]
    refine ⟨?_, fun k hk => mem_filterNull.mp hk, fun k hk => ⟨k, mem_filterNull.mpr hk, rfl⟩⟩
    rcases hf : filterNull locks with _ | ⟨x, _ | ⟨y, rest⟩⟩
    · exact List.Pairwise.nil
    · exact List.pairwise_singleton _ _
    · rw [hf] at h1
      simp at h1

theorem lockSet_length {locks : List (Option κ)} (h : locks.length ≤ 127) :
    (lockSet id locks).length ≤ locks.length := by
  obtain ⟨hp, hm, _⟩ := lockSet_spec id h
  have hn : (lockSet id locks).Nodup := hp.imp fun h heq => by simp [heq] at h
  have hsub : lockSet id locks ⊆ filterNull locks := fun k hk => mem_filterNull.mpr (hm k hk)
  exact (hn.subperm hsub).length_le.trans (filterNull_length locks)

end

/-- The id of the `n`-th lock that is initialised: `id_count` begins at 1. -/
def idlockInit (n : ℕ) : ℕ := (1 + n) % 2 ^ 64

theorem idlockInit_injOn : Set.InjOn idlockInit {n | n < 2 ^ 64} := by
  intro a ha b hb heq
  simp only [Set.mem_ofPred_eq] at ha hb
  unfold idlockInit at heq
  omega

section
variable {κ : Type} [DecidableEq κ] (id : κ → ℕ)

/-- What a thread holds: its `locker_t`, the newest entry first, and how often it has locked
each of the recursive mutexes. -/
structure Thread (κ : Type) where
  stack : List (List κ) := []
  hold : κ → ℕ := fun _ => 0

def idlockLock (s : Thread κ) (k : κ) : Thread κ :=
  { s with hold := Function.update s.hold k (s.hold k + 1) }

def idlockUnlock (s : Thread κ) (k : κ) : Thread κ :=
  { s with hold := Function.update s.hold k (s.hold k - 1) }

/-- `none` is a write past the end of `ary`. -/
def lockerEntryAdd (le : List κ) (elem : κ) : Option (List κ) :=
  if le.length < 4 then some (le ++ [elem]) else none

/-- The last loop of `locker_start`. -/
def lockAll : List κ → Thread κ → List κ → Option (Thread κ × List κ)
  | [], s, newLocks => some (s, newLocks)
  | lock :: rest, s, newLocks =>
    (lockerEntryAdd newLocks lock).bind fun newLocks => lockAll rest (idlockLock s lock) newLocks

def lockerStart (s : Thread κ) (locks : List (Option κ)) : Option (Thread κ) :=
  (lockAll (lockSet id locks) s []).map fun p => { p.1 with stack := p.2 :: p.1.stack }

/-- `none` is the dereference of the entry that an empty stack does not have. -/
def lockerEnd (s : Thread κ) : Option (Thread κ) :=
  match s.stack with
  | [] => none
  | locks :: rest => some (locks.foldl idlockUnlock { s with stack := rest })

inductive Call (κ : Type) where
  | start (locks : List (Option κ))
  | stop

def call (s : Thread κ) : Call κ → Option (Thread κ)
  | .start locks => lockerStart id s locks
  | .stop => lockerEnd s

def calls : List (Call κ) → Thread κ → Option (Thread κ)
  | [], s => some s
  | a :: rest, s => (call id s a).bind (calls rest)

/-- The well-nested sequences of calls, with arrays as `locker_start4` can make them. -/
inductive Nested : List (Call κ) → Prop where
  | nil : Nested []
  | scope {locks : List (Option κ)} {body rest : List (Call κ)} (len : locks.length ≤ 4)
      (inner : Nested body) (after : Nested rest) :
      Nested (.start locks :: (body ++ .stop :: rest))

theorem calls_append (xs ys : List (Call κ)) : ∀ s : Thread κ,
    calls id (xs ++ ys) s = (calls id xs s).bind (calls id ys) := by
  induction xs with
  | nil =>
    intro s
    rfl
  | cons a xs ih =>
    intro s
    rw [List.cons_append, calls, calls, Option.bind_assoc]
    congr 1
    funext t
    exact ih t

/-- Holding every lock of `ks` once more. -/
def Thread.plus (s : Thread κ) (ks : List κ) : Thread κ :=
  { s with hold := fun k => s.hold k + ks.count k }

theorem plus_idlockLock (s : Thread κ) (k : κ) (ks : List κ) :
    (idlockLock s k).plus ks = s.plus (k :: ks) := by
  unfold Thread.plus idlockLock
  congr 1
  funext x
  by_cases hx : x = k
  · subst hx
    simp only [Function.update_self, List.count_cons_self]
    omega
  · simp only [Function.update_of_ne hx, List.count_cons_of_ne (Ne.symm hx)]

theorem idlockUnlock_plus (s : Thread κ) (k : κ) (ks : List κ) :
    idlockUnlock (s.plus (k :: ks)) k = s.plus ks := by
  unfold Thread.plus idlockUnlock
  congr 1
  funext x
  by_cases hx : x = k
  · subst hx
    simp only [Function.update_self, List.count_cons_self]
    omega
  · simp only [Function.update_of_ne hx, List.count_cons_of_ne (Ne.symm hx)]

theorem lockAll_eq (ks : List κ) : ∀ (s : Thread κ) (le : List κ), le.length + ks.length ≤ 4 →
    lockAll ks s le = some (s.plus ks, le ++ ks) := by
  induction ks with
  | nil =>
    intro s le _
    simp [lockAll, Thread.plus]
  | cons k ks ih =>
    intro s le hlen
    rw [List.length_cons] at hlen
    have hadd : lockerEntryAdd le k = some (le ++ [k]) := if_pos (by omega)
    rw [lockAll, hadd, Option.bind_some, ih _ _ (by simp; omega), plus_idlockLock,
      List.append_assoc, List.singleton_append]

theorem unlockAll_eq (ks : List κ) : ∀ s : Thread κ, ks.foldl idlockUnlock (s.plus ks) = s := by
  induction ks with
  | nil =>
    intro s
    simp [Thread.plus]
  | cons k ks ih =>
    intro s
    rw [List.foldl_cons, idlockUnlock_plus, ih]

theorem lockerStart_eq (s : Thread κ) {locks : List (Option κ)} (h : locks.length ≤ 4) :
    lockerStart id s locks =
      some { s.plus (lockSet id locks) with stack := lockSet id locks :: s.stack } := by
  have hlen := lockSet_length id (show locks.length ≤ 127 by omega)
  unfold lockerStart
  rw [lockAll_eq _ _ _ (by simp; omega)]
  rfl

/-- An end undoes the start whose entry is on top. -/
theorem lockerEnd_plus (s : Thread κ) (ks : List κ) :
    lockerEnd { s.plus ks with stack := ks :: s.stack } = some s := by
  change some (ks.foldl idlockUnlock (s.plus ks)) = some s
  rw [unlockAll_eq]

theorem Nested.calls_eq {ops : List (Call κ)} (h : Nested ops) :
    ∀ s : Thread κ, calls id ops s = some s := by
  induction h with
  | nil =>
    intro s
    rfl
  | @scope locks body rest len inner after ihBody ihRest =>
    intro s
    rw [calls, call, lockerStart_eq id s len, Option.bind_some, calls_append, ihBody,
      Option.bind_some, calls, call, lockerEnd_plus, Option.bind_some, ihRest]

/-- `locker_start` normalises its array, and well-nested calls leave every hold count and the
stack as they were. Where no two of the array's locks share an id, the lock set is exactly
the set of locks that are not `NULL`. -/
theorem lockSet_normalised :
    (∀ locks : List (Option κ), locks.length ≤ 127 →
      ((lockSet id locks).Pairwise fun a b => id a < id b) ∧
      (∀ k ∈ lockSet id locks, some k ∈ locks) ∧
      (∀ k, some k ∈ locks → ∃ k' ∈ lockSet id locks, id k' = id k) ∧
      (Set.InjOn id {k | some k ∈ locks} → ∀ k, k ∈ lockSet id locks ↔ some k ∈ locks)) ∧
    ∀ ops : List (Call κ), Nested ops → ∀ s : Thread κ,
      ∃ s', calls id ops s = some s' ∧ s'.stack = s.stack ∧ ∀ k, s'.hold k = s.hold k := by
  constructor
  · intro locks hlen
    obtain ⟨hp, hm, hc⟩ := lockSet_spec id hlen
    refine ⟨hp, hm, hc, ?_⟩
    intro hinj k
    constructor
    · exact hm k
    · intro hk
      obtain ⟨k', hk', heq⟩ := hc k hk
      have : k' = k := hinj (hm k' hk') hk heq
      exact this ▸ hk'
  · intro ops hn s
    exact ⟨s, hn.calls_eq id s, rfl, fun _ => rfl⟩

/-- Three locks, one of them named twice, in the order of their initialisation. -/
def fourLocks : List (Option ℕ) := [some 7, none, some 2, some 7]

/-- Inside the scope of its locks, one of them is taken once more. -/
theorem lockSet_normalised_four :
    lockSet idlockInit fourLocks = [2, 7] ∧
    (∀ k, k ∈ lockSet idlockInit fourLocks ↔ some k ∈ fourLocks) ∧
    ∃ s', calls idlockInit [.start fourLocks, .start [some 7], .stop, .stop]
        { stack := [[9]], hold := fun _ => 1 } = some s' ∧
      s'.stack = [[9]] ∧ ∀ k, s'.hold k = 1 := by
  refine ⟨by decide, ?_, ?_⟩
  · apply ((lockSet_normalised idlockInit).1 fourLocks (by decide)).2.2.2
    apply idlockInit_injOn.mono
    intro k hk
    simp only [fourLocks, List.mem_cons, Option.some.injEq, Set.mem_ofPred_eq] at hk ⊢
    grind
  · have hinner : Nested [Call.start [some 7], .stop] := .scope (by decide) .nil .nil
    exact (lockSet_normalised idlockInit).2 _ (Nested.scope (by decide) hinner .nil) _

end

end Acid.Locker

import Acid.Balance
import Mathlib.Algebra.BigOperators.Group.Multiset.Basic
import Mathlib.Algebra.Order.BigOperators.Group.Multiset
import Mathlib.Data.Multiset.AddSub

set_option autoImplicit false

/-!
# Forwarding loses and duplicates nothing
-/
namespace Acid
open PointerForest Tally

/-- The runs of list additions, polls and merges of two roots, with the log of the objects
added and of those polled. -/
inductive ForwardRun : State → List ℕ → List ℕ → Prop where
  | start : ForwardRun initial [] []
  | create {s : State} {added polled : List ℕ} (run : ForwardRun s added polled) :
      ForwardRun (collectorCreate s).1 added polled
  | add {s : State} {added polled : List ℕ} (run : ForwardRun s added polled) (r : ListRef)
      (hr : r.1 < s.numCollector) (o : ℕ) : ForwardRun (safelistAdd s r o) (o :: added) polled
  | poll {s : State} {added polled : List ℕ} (run : ForwardRun s added polled) (r : ListRef) :
      ForwardRun (safelistPoll s r).1 added ((safelistPoll s r).2.toList ++ polled)
  | merge {s : State} {added polled : List ℕ} (run : ForwardRun s added polled) {t c : ℕ}
      (ht : t < s.numCollector) (hc : c < s.numCollector) (htr : s.forward t = none)
      (hcr : s.forward c = none) (hne : c ≠ t) : ForwardRun (collectorMerge s t c) added polled

/-- All elements of the five lists of a collector. -/
def Collector.contents (k : Collector) : Multiset ℕ :=
  ↑((k.lists .collect).data ++ (k.lists .merged).data ++ (k.lists .recovery).data ++
    (k.lists .rebuild).data ++ (k.lists .clean).data)

/-- All elements of all lists. -/
def contents (s : State) : Multiset ℕ :=
  ∑ c ∈ Finset.range s.numCollector, (s.collectors c).contents

theorem count_contents (s : State) (x : ℕ) : ((contents s).count x : ℤ) =
    occurrences s .collect x + occurrences s .merged x + occurrences s .recovery x +
      occurrences s .rebuild x + occurrences s .clean x := by
  unfold contents occurrences
  rw [Multiset.count_sum', Nat.cast_sum, ← Finset.sum_add_distrib, ← Finset.sum_add_distrib,
    ← Finset.sum_add_distrib, ← Finset.sum_add_distrib]
  refine Finset.sum_congr rfl fun c _ => ?_
  rw [Collector.contents, Multiset.coe_count]
  simp only [List.count_append]
  push_cast
  ring

theorem contents_push (s : State) {r : ListRef} (hr : r.1 < s.numCollector) (o : ℕ) :
    contents (safelistPush s r o) = o ::ₘ contents s := by
  ext x
  have hx := count_contents (safelistPush s r o) x
  have hy := count_contents s x
  have hocc := fun n => occurrences_push s hr n o x
  simp only [hocc] at hx
  rw [Multiset.count_cons]
  obtain ⟨c, n⟩ := r
  by_cases hox : o = x
  · subst hox
    rw [if_pos rfl]
    zify
    cases n <;> simp at hx <;> omega
  · have hxo : ¬ x = o := fun e => hox e.symm
    rw [if_neg hxo]
    zify
    cases n <;> simp [hox] at hx <;> omega

theorem Collectors.contents_poll {s : State} (h : Collectors s) {r : ListRef} {o : ℕ}
    {rest : List ℕ} (hd : (s.safelist r).data = o :: rest) :
    contents s = o ::ₘ contents (safelistPoll s r).1 := by
  have hr := (h.root_of_mem (r := r) (x := o) (by simp [hd])).2.1
  rw [safelistPoll_eq (h.store r.1) hd]
  ext x
  have hx := count_contents (s.modifyCollector r.1 fun k => k.setData r.2 rest) x
  have hy := count_contents s x
  have hocc := fun n => occurrences_setData s hr r.2 n rest x
  have hrr : s.safelist (r.1, r.2) = s.safelist r := rfl
  simp only [hocc, hrr, hd, List.count_cons] at hx
  rw [Multiset.count_cons]
  dsimp only
  obtain ⟨c, n⟩ := r
  by_cases hox : o = x
  · subst hox
    zify
    cases n <;> simp at hx <;> simp <;> omega
  · have hxo : ¬ x = o := fun e => hox e.symm
    rw [if_neg hxo]
    zify
    cases n <;> simp [hox] at hx <;> omega

theorem contents_create (s : State) : contents (collectorCreate s).1 = contents s := by
  ext x
  have hx := count_contents (collectorCreate s).1 x
  have hy := count_contents s x
  simp only [occurrences_create] at hx
  omega

theorem Collectors.contents_merge {s : State} (h : Collectors s) {t c : ℕ}
    (ht : s.forward t = none) (hc : s.forward c = none) (hne : c ≠ t) (hat : Alive s t)
    (hac : Alive s c) : contents (collectorMerge s t c) = contents s := by
  ext x
  have hx := count_contents (collectorMerge s t c) x
  have hy := count_contents s x
  simp only [h.occurrences_merge ht hc hne hat hac, Collector.gained, List.count_append] at hx
  push_cast at hx
  omega

theorem collectorCreate_total {s : State} (h : ∀ c < s.numCollector, Alive s c) :
    ∀ c < (collectorCreate s).1.numCollector, Alive (collectorCreate s).1 c := by
  intro c hc
  by_cases hcn : c = s.numCollector
  · subst hcn
    exact ⟨hc, by simp [collectorCreate]⟩
  · have hlt : c < s.numCollector := by
      have : c < s.numCollector + 1 := hc
      omega
    exact collectorCreate_alive (h c hlt)

theorem safelistPush_alive (s : State) (r : ListRef) (o a : ℕ) :
    Alive (safelistPush s r o) a ↔ Alive s a := by
  rw [safelistPush_eq, Alive, Alive, State.modifyCollector_collectors]
  split_ifs with ha
  · rw [ha]
    rfl
  · rfl

/-- Nothing is destroyed here, and what was added is in a list or has been polled. -/
theorem ForwardRun.invariant {s : State} {added polled : List ℕ}
    (run : ForwardRun s added polled) :
    Collectors s ∧ (∀ c < s.numCollector, Alive s c) ∧
      (added : Multiset ℕ) = (polled : Multiset ℕ) + contents s := by
  induction run with
  | start =>
    refine ⟨⟨⟨fun _ => 0, ?_⟩, ?_, ?_, ?_, ?_, ?_, ?_, ?_⟩, ?_, ?_⟩
    all_goals simp [initial, State.forward, State.listForward, State.safelist, holders, followers,
      tally, Collector.Stored, Collector.stored, contents]
  | @create s added polled _ ih =>
    obtain ⟨hcs, hal, hct⟩ := ih
    exact ⟨hcs.create, collectorCreate_total hal, by rw [contents_create]; exact hct⟩
  | @add s added polled _ r hr o ih =>
    obtain ⟨hcs, hal, hct⟩ := ih
    have hroot := hcs.update_alive (hal r.1 hr)
    have hsame := safelistAdd_same s r o
    refine ⟨hcs.add o (hal r.1 hr), ?_, ?_⟩
    · intro c hc
      rw [hsame.numCollector] at hc
      rw [hcs.safelistAdd_eq, safelistPush_alive]
      exact hal c hc
    · rw [hcs.safelistAdd_eq, contents_push s hroot.1, Multiset.add_cons, ← hct]
      rfl
  | @poll s added polled _ r ih =>
    obtain ⟨hcs, hal, hct⟩ := ih
    cases hd : (s.safelist r).data with
    | nil =>
      rw [safelistPoll_nil hd]
      exact ⟨hcs, hal, hct⟩
    | cons o rest =>
      have hcp := hcs.poll r
      have hcc := hcs.contents_poll hd
      rw [safelistPoll_eq (hcs.store r.1) hd] at hcp hcc ⊢
      refine ⟨hcp, ?_, ?_⟩
      · intro c hc
        refine ⟨hc, ?_⟩
        dsimp only
        rw [State.modifyCollector_collectors]
        split_ifs with hcr
        · exact (hal r.1 (hcr ▸ hc)).2
        · exact (hal c hc).2
      · rw [hct, hcc]
        dsimp only [Option.toList_some, List.singleton_append]
        rw [← Multiset.cons_coe, Multiset.add_cons, Multiset.cons_add]
  | @merge s added polled _ t c ht hc htr hcr hne ih =>
    obtain ⟨hcs, hal, hct⟩ := ih
    have hat := hal t ht
    have hac := hal c hc
    refine ⟨hcs.merge htr hcr hne hat hac, ?_, ?_⟩
    · intro d hd
      rw [(collectorMerge_rest s t c).2.1] at hd
      exact (hcs.merge_alive htr hcr hne d).mpr (hal d hd)
    · rw [hcs.contents_merge htr hcr hne hat hac]
      exact hct

/-- Where a merge puts the elements of the forwarded collector `c`. -/
structure Merged (s : State) (t c : ℕ) (s' : State) : Prop where
  emptied : ∀ n, (s'.safelist (c, n)).data = []
  collect : (s'.safelist (t, .collect)).data =
    (s.safelist (t, .collect)).data ++ (s.safelist (c, .collect)).data
  merged : (s'.safelist (t, .merged)).data =
    (s.safelist (t, .merged)).data ++ (s.safelist (c, .merged)).data ++
      (s.safelist (c, .clean)).data ++ (s.safelist (c, .recovery)).data
  rebuild : (s'.safelist (t, .rebuild)).data =
    (s.safelist (t, .rebuild)).data ++ (s.safelist (c, .rebuild)).data
  recovery : (s'.safelist (t, .recovery)).data = (s.safelist (t, .recovery)).data
  clean : (s'.safelist (t, .clean)).data = (s.safelist (t, .clean)).data
  others : ∀ r : ListRef, r.1 ≠ c → r.1 ≠ t → s'.safelist r = s.safelist r

theorem Collectors.merged {s : State} (h : Collectors s) {t c : ℕ} (ht : s.forward t = none)
    (hc : s.forward c = none) (hne : c ≠ t) : Merged s t c (collectorMerge s t c) := by
  rw [h.merge_eq ht hc hne]
  refine ⟨?_, ?_, ?_, ?_, ?_, ?_, ?_⟩
  · intro n
    rw [State.safelist, putCollectors_source hne]
    rfl
  all_goals try (rw [State.safelist, putCollectors_dest]; rfl)
  intro r hrc hrt
  simp [State.safelist, State.putCollectors, State.modifyCollector, hrc, hrt]

/-- An addition to a list of `c` appends to one list of the root of `c` and to no other. -/
theorem Collectors.landed {s : State} (h : Collectors s) (c : ℕ) (n : ListName) (o : ℕ)
    (q : ListRef) : ((safelistAdd s (c, n) o).safelist q).data =
      if q = (collectorUpdate s c, if s.forward c = none then n else route n) then
        (s.safelist q).data ++ [o] else (s.safelist q).data := by
  rw [h.safelistAdd_eq]
  dsimp only
  generalize (collectorUpdate s c, if s.forward c = none then n else route n) = p
  rw [safelistPush, State.modifySafelist_safelist]
  have hinc : ∀ r, (counterIncStore s p.1).safelist r = s.safelist r := by
    intro r
    rw [counterIncStore, State.safelist, State.modifyCollector_collectors]
    split_ifs with hr
    · rw [State.safelist, hr]
    · rfl
  split_ifs with hq
  · rw [hinc, hq]
  · rw [hinc]

/-- Over any run of additions, polls and merges. -/
theorem forwarding_conserves {s : State} {added polled : List ℕ}
    (run : ForwardRun s added polled) :
    (added : Multiset ℕ) = (polled : Multiset ℕ) + contents s ∧
    (polled : Multiset ℕ) ≤ added ∧
    (∀ t c, t < s.numCollector → c < s.numCollector → s.forward t = none → s.forward c = none →
      c ≠ t → Merged s t c (collectorMerge s t c)) ∧
    (∀ c n o q, c < s.numCollector → ((safelistAdd s (c, n) o).safelist q).data =
      if q = (collectorUpdate s c, if s.forward c = none then n else route n) then
        (s.safelist q).data ++ [o] else (s.safelist q).data) := by
  obtain ⟨hcs, _, hct⟩ := run.invariant
  refine ⟨hct, ?_, ?_, ?_⟩
  · rw [hct]
    exact Multiset.le_add_right _ _
  · intro t c _ _ ht hc hne
    exact hcs.merged ht hc hne
  · intro c n o q _
    exact hcs.landed c n o q

/-- A list of `0` after `0` has been forwarded to `1`. -/
theorem forwarding_conserves_two : ∃ s, s.forward 0 = some 1 ∧
    ((safelistAdd s (0, .clean) 7).safelist (1, .merged)).data = [5, 7] := by
  have run := ForwardRun.merge (t := 1) (c := 0)
    (.add (.create (.create .start)) (0, .recovery) (by simp [collectorCreate, initial]) 5)
    (by decide) (by decide) (by decide) (by decide) (by decide)
  refine ⟨_, ?_, ((forwarding_conserves run).2.2.2 0 .clean 7 (1, .merged) (by decide)).trans ?_⟩
  · decide
  · decide

end Acid

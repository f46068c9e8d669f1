import Acid.Merging
import Mathlib.Tactic.Ring

set_option autoImplicit false

/-!
# The lists after an addition, a poll and a merge

A list operation rewrites the data of one list and keeps the store count in step.
-/
namespace Acid

namespace Collector

/-- New data for one list, with the store count moved by the change of length. -/
def setData (k : Collector) (n : ListName) (data : List ℕ) : Collector :=
  { k with
    storeCount := k.storeCount + data.length - (k.lists n).data.length
    lists := Function.update k.lists n { k.lists n with data := data } }

def setListForward (k : Collector) (n : ListName) (dest : ListRef) : Collector :=
  { k with lists := Function.update k.lists n { k.lists n with forward := some dest } }

/-- The sum of the lengths of the five lists. -/
def stored (k : Collector) : ℕ :=
  (k.lists .collect).data.length + (k.lists .merged).data.length +
    (k.lists .recovery).data.length + (k.lists .rebuild).data.length +
    (k.lists .clean).data.length

/-- The store count is the number of elements. -/
def Stored (k : Collector) : Prop := k.storeCount = k.stored

theorem length_le_stored (k : Collector) (n : ListName) : (k.lists n).data.length ≤ k.stored := by
  cases n <;> unfold stored <;> omega

theorem setData_stored (k : Collector) (n : ListName) (data : List ℕ) :
    ((k.setData n data).stored : ℤ) = k.stored + data.length - (k.lists n).data.length := by
  cases n <;> simp [stored, setData, Function.update] <;> ring

theorem Stored.setData {k : Collector} (h : k.Stored) (n : ListName) (data : List ℕ) :
    (k.setData n data).Stored := by
  unfold Stored at *
  rw [setData_stored, ← h]
  rfl

theorem Stored.setListForward {k : Collector} (h : k.Stored) (n : ListName) (dest : ListRef) :
    (k.setListForward n dest).Stored := by
  unfold Stored at *
  have hs : (k.setListForward n dest).stored = k.stored := by
    cases n <;> simp [stored, Collector.setListForward, Function.update]
  rw [hs, ← h]
  rfl

theorem setData_setData (k : Collector) (n : ListName) (a b : List ℕ) :
    (k.setData n a).setData n b = k.setData n b := by
  simp only [setData, Function.update_self, Function.update_idem]
  congr 1
  ring

theorem setData_self (k : Collector) (n : ListName) :
    k.setData n (k.lists n).data = k := by
  simp [setData]

end Collector

theorem modifyCollector_self (s : State) (c : ℕ) {f : Collector → Collector}
    (h : f (s.collectors c) = s.collectors c) : s.modifyCollector c f = s := by
  simp [State.modifyCollector, h]

theorem modifyCollector_modifyCollector (s : State) (c : ℕ) (f g : Collector → Collector) :
    (s.modifyCollector c f).modifyCollector c g = s.modifyCollector c (g ∘ f) := by
  simp [State.modifyCollector]

theorem modifyCollector_comm (s : State) {c d : ℕ} (h : c ≠ d) (f g : Collector → Collector) :
    (s.modifyCollector c f).modifyCollector d g = (s.modifyCollector d g).modifyCollector c f := by
  simp only [State.modifyCollector, Function.update_of_ne h, Function.update_of_ne h.symm]
  rw [Function.update_comm h]

theorem safelistPush_eq (s : State) (r : ListRef) (o : ℕ) :
    safelistPush s r o =
      s.modifyCollector r.1 fun k => k.setData r.2 ((k.lists r.2).data ++ [o]) := by
  simp only [safelistPush, counterIncStore, State.modifySafelist, modifyCollector_modifyCollector]
  congr 1
  funext k
  simp [Collector.setData]
  ring

theorem safelistPoll_eq {s : State} {r : ListRef} {o : ℕ} {rest : List ℕ}
    (hs : (s.collectors r.1).Stored) (h : (s.safelist r).data = o :: rest) :
    safelistPoll s r = (s.modifyCollector r.1 fun k => k.setData r.2 rest, some o) := by
  have hlen : ((s.collectors r.1).lists r.2).data.length = rest.length + 1 := by
    have := congrArg List.length h
    simpa [State.safelist] using this
  have hle := (s.collectors r.1).length_le_stored r.2
  have hpos : 0 < (s.collectors r.1).storeCount := by
    rw [hs]
    omega
  rw [safelistPoll_cons h, counterDecStore, State.check_pos _ hpos]
  simp only [State.modifySafelist, modifyCollector_modifyCollector]
  simp only [State.modifyCollector, Function.comp_apply, Collector.setData, hlen]
  congr 4
  push_cast
  ring

theorem safelistAdd_eq {s : State} {r : ListRef} (h : s.listForward r = none) (o : ℕ) :
    safelistAdd s r o =
      s.modifyCollector r.1 fun k => k.setData r.2 ((k.lists r.2).data ++ [o]) := by
  rw [safelistAdd, h]
  exact safelistPush_eq s r o

theorem safelistDrain_eq {r dest : ListRef} (hne : r.1 ≠ dest.1) (xs : List ℕ) :
    ∀ {s : State}, s.listForward dest = none → (s.collectors r.1).Stored →
      (s.safelist r).data = xs →
      safelistDrain dest r xs.length s =
        (s.modifyCollector r.1 fun k => k.setData r.2 []).modifyCollector dest.1
          fun k => k.setData dest.2 ((k.lists dest.2).data ++ xs) := by
  induction xs with
  | nil =>
    intro s _ _ hx
    have hx' : ((s.collectors r.1).lists r.2).data = [] := hx
    have hr := (s.collectors r.1).setData_self r.2
    rw [hx'] at hr
    rw [modifyCollector_self s r.1 hr, modifyCollector_self]
    · rfl
    · simp [Collector.setData_self]
  | cons o rest ih =>
    intro s hd hs hx
    have hx' : ((s.collectors r.1).lists r.2).data = o :: rest := hx
    have hadd := safelistAdd_eq (s := s.modifyCollector r.1 fun k => k.setData r.2 rest)
      (r := dest) (by
        simpa [State.listForward, State.safelist, State.modifyCollector, Ne.symm hne] using hd) o
    have hstep : safelistDrain dest r (rest.length + 1) s =
        safelistDrain dest r rest.length (safelistAdd
          (s.modifyCollector r.1 fun k => k.setData r.2 rest) dest o) := by
      rw [safelistDrain, safelistPoll_eq hs hx]
    rw [List.length_cons, hstep, ih, hadd]
    · rw [modifyCollector_comm _ hne.symm, modifyCollector_modifyCollector,
        modifyCollector_modifyCollector]
      congr 1
      · simp [Function.comp_def, Collector.setData_setData]
      · funext k
        simp only [Function.comp_apply, Collector.setData_setData]
        congr 1
        simp [Collector.setData]
    · rw [hadd]
      simpa [State.listForward, State.safelist, State.modifyCollector, Ne.symm hne, Collector.setData] using hd
    · rw [hadd]
      simpa [State.modifyCollector, hne] using hs.setData r.2 rest
    · rw [hadd]
      simp [State.safelist, State.modifyCollector, hne, Collector.setData]

/-- A collector's record after the list `n` has been forwarded to `dest`. -/
def Collector.cede (k : Collector) (n : ListName) (dest : ListRef) : Collector :=
  (k.setData n []).setListForward n dest

theorem safelistForward_eq {s : State} {r dest : ListRef} (hne : r.1 ≠ dest.1)
    (hd : s.listForward dest = none) (hs : (s.collectors r.1).Stored) :
    safelistForward s r dest =
      (s.modifyCollector r.1 fun k => k.cede r.2 dest).modifyCollector dest.1
        fun k => k.setData dest.2 ((k.lists dest.2).data ++ (s.safelist r).data) := by
  rw [safelistForward, safelistDrain_eq hne _ hd hs rfl, State.modifySafelist,
    modifyCollector_comm _ hne.symm, modifyCollector_modifyCollector]
  rfl

/-- Where a merge leaves the records of the forwarded collector and of its destination. -/
def Collector.ceded (k : Collector) (t : ℕ) : Collector :=
  { k with
    storeCount := k.storeCount - k.stored
    lists := fun n => { data := [], forward := some (t, route n) }
    forward := some t }

def Collector.gained (k source : Collector) : Collector :=
  { k with
    refCount := k.refCount + 1
    storeCount := k.storeCount + source.stored
    lists := fun n =>
      match n with
      | .collect => { k.lists .collect with
          data := (k.lists .collect).data ++ (source.lists .collect).data }
      | .merged => { k.lists .merged with
          data := (k.lists .merged).data ++ (source.lists .merged).data ++
            (source.lists .clean).data ++ (source.lists .recovery).data }
      | .rebuild => { k.lists .rebuild with
          data := (k.lists .rebuild).data ++ (source.lists .rebuild).data }
      | .recovery => k.lists .recovery
      | .clean => k.lists .clean }

/-- New records for two collectors. -/
def State.putCollectors (s : State) (c t : ℕ) (k j : Collector) : State :=
  (s.modifyCollector c fun _ => k).modifyCollector t fun _ => j

theorem putCollectors_self (s : State) (c t : ℕ) :
    s.putCollectors c t (s.collectors c) (s.collectors t) = s := by
  simp [State.putCollectors, State.modifyCollector]

theorem putCollectors_dest (s : State) (c t : ℕ) (k j : Collector) :
    (s.putCollectors c t k j).collectors t = j := by
  simp [State.putCollectors, State.modifyCollector]

/-- A collector's record after it has received the list `n` of `k`. -/
def Collector.receive (j k : Collector) (n : ListName) : Collector :=
  j.setData (route n) ((j.lists (route n)).data ++ (k.lists n).data)

theorem Collector.receive_forward {j : Collector} (h : ∀ n, (j.lists n).forward = none)
    (k : Collector) (m n : ListName) : ((j.receive k m).lists n).forward = none := by
  by_cases hn : n = route m
  · simp [Collector.receive, Collector.setData, hn, h]
  · simp [Collector.receive, Collector.setData, hn, h]

theorem Collector.Stored.cede {k : Collector} (h : k.Stored) (n : ListName) (dest : ListRef) :
    (k.cede n dest).Stored :=
  (h.setData n []).setListForward n dest

section
variable {s : State} {c t : ℕ} (hne : c ≠ t)
include hne

theorem putCollectors_source (k j : Collector) : (s.putCollectors c t k j).collectors c = k := by
  simp [State.putCollectors, State.modifyCollector, hne]

theorem safelistForward_putCollectors {k j : Collector} (hk : k.Stored)
    (hj : ∀ n, (j.lists n).forward = none) (n : ListName) :
    safelistForward (s.putCollectors c t k j) (c, n) (t, route n) =
      s.putCollectors c t (k.cede n (t, route n)) (j.receive k n) := by
  rw [safelistForward_eq hne]
  · simp only [State.putCollectors, State.safelist]
    rw [modifyCollector_comm _ hne.symm, modifyCollector_modifyCollector,
      modifyCollector_modifyCollector]
    simp [State.modifyCollector, hne, Collector.receive]
  · simp [State.listForward, State.safelist, putCollectors_dest, hj]
  · rw [putCollectors_source hne]
    exact hk

end

theorem collectorForwardSafelistsTo_eq {s : State} {t c : ℕ} (hne : c ≠ t)
    (ht : ∀ n, s.listForward (t, n) = none) (hs : (s.collectors c).Stored) :
    collectorForwardSafelistsTo s c t =
      s.putCollectors c t { (s.collectors c).ceded t with forward := (s.collectors c).forward }
        { (s.collectors t).gained (s.collectors c) with refCount := (s.collectors t).refCount } := by
  have hs0 := putCollectors_self s c t
  have hj : ∀ n, ((s.collectors t).lists n).forward = none := ht
  generalize hk : s.collectors c = k at hs0 hs ⊢
  generalize ht : s.collectors t = j at hs0 hj ⊢
  have f1 := safelistForward_putCollectors (s := s) hne hs hj .collect
  have s1 := hs.cede .collect (t, route .collect)
  have j1 := Collector.receive_forward hj k .collect
  have f2 := safelistForward_putCollectors (s := s) hne s1 j1 .merged
  have s2 := s1.cede .merged (t, route .merged)
  have j2 := Collector.receive_forward j1 (k.cede .collect (t, route .collect)) .merged
  have f3 := safelistForward_putCollectors (s := s) hne s2 j2 .rebuild
  have s3 := s2.cede .rebuild (t, route .rebuild)
  have j3 := Collector.receive_forward j2
    ((k.cede .collect (t, route .collect)).cede .merged (t, route .merged)) .rebuild
  have f4 := safelistForward_putCollectors (s := s) hne s3 j3 .clean
  have s4 := s3.cede .clean (t, route .clean)
  have j4 := Collector.receive_forward j3
    (((k.cede .collect (t, route .collect)).cede .merged (t, route .merged)).cede .rebuild
      (t, route .rebuild)) .clean
  have f5 := safelistForward_putCollectors (s := s) hne s4 j4 .recovery
  rw [collectorForwardSafelistsTo]
  nth_rewrite 1 [← hs0]
  rw [f1, f2, f3, f4, f5]
  congr 1
  · simp only [Collector.cede, Collector.setData, Collector.setListForward, Collector.ceded,
      Collector.stored, Function.update, Collector.mk.injEq]
    refine ⟨trivial, ?_, ?_, trivial, trivial⟩
    · simp
      ring
    · funext n
      cases n <;> simp
  · simp only [Collector.cede, Collector.setData, Collector.setListForward, Collector.gained,
      Collector.receive, route, Collector.stored, Function.update, Collector.mk.injEq]
    refine ⟨trivial, ?_, ?_, trivial, trivial⟩
    · simp
      ring
    · funext n
      cases n <;> simp

theorem collectorMerge_eq {s : State} {t c : ℕ} (hne : c ≠ t) (hc : s.forward c = none)
    (ht : ∀ n, s.listForward (t, n) = none) (hs : (s.collectors c).Stored) :
    collectorMerge s t c =
      s.putCollectors c t ((s.collectors c).ceded t) ((s.collectors t).gained (s.collectors c)) := by
  rw [collectorMerge, collectorForwardSafelistsTo_eq hne ht hs, collectorSetForward]
  have hf : (s.putCollectors c t { (s.collectors c).ceded t with forward := (s.collectors c).forward }
      { (s.collectors t).gained (s.collectors c) with
        refCount := (s.collectors t).refCount }).forward c = none := by
    rw [State.forward, putCollectors_source hne]
    exact hc
  rw [hf, if_neg (by simp)]
  simp only [counterRepoint, counterIncRef]
  rw [State.putCollectors, modifyCollector_modifyCollector, modifyCollector_comm _ hne.symm,
    modifyCollector_modifyCollector]
  rfl

end Acid

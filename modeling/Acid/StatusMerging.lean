import Acid.CollectionStatus

set_option autoImplicit false

/-!
# A merge whose lists do not take every element

The lists of a collector are handed over element by element; what a list does not take
is in no list any more, and what remains is counted here object by object.
-/
namespace Acid.CollectionStatus
open PointerForest Tally

/-- All but the collectors' lists and pointers. -/
structure Rest (s s' : State) : Prop where
  objects : s'.objects = s.objects
  objectCount : s'.objectCount = s.objectCount
  links : s'.links = s.links
  linkCount : s'.linkCount = s.linkCount
  numCollector : s'.numCollector = s.numCollector
  claims : s'.claims = s.claims

theorem Rest.refl (s : State) : Rest s s := ⟨rfl, rfl, rfl, rfl, rfl, rfl⟩

theorem Rest.trans {s s' s'' : State} (h : Rest s s') (h' : Rest s' s'') : Rest s s'' where
  objects := h'.objects.trans h.objects
  objectCount := h'.objectCount.trans h.objectCount
  links := h'.links.trans h.links
  linkCount := h'.linkCount.trans h.linkCount
  numCollector := h'.numCollector.trans h.numCollector
  claims := h'.claims.trans h.claims

theorem modifyCollector_rest (s : State) (c : ℕ) (f : Collector → Collector) :
    Rest s (s.modifyCollector c f) :=
  ⟨rfl, rfl, rfl, rfl, rfl, rfl⟩

theorem modifySafelist_rest (s : State) (r : ListRef) (f : Safelist → Safelist) :
    Rest s (s.modifySafelist r f) :=
  ⟨rfl, rfl, rfl, rfl, rfl, rfl⟩

theorem check_rest (s : State) (p : Prop) [Decidable p] (e : Event) : Rest s (s.check p e) := by
  constructor <;> simp

theorem counterDecStore_safelist (s : State) (c : ℕ) (q : ListRef) :
    (counterDecStore s c).safelist q = s.safelist q := by
  rw [State.safelist, counterDecStore, State.modifyCollector_collectors, State.check_collectors]
  split_ifs with hq
  · rw [State.safelist, hq]
  · rfl

theorem counterIncStore_safelist (s : State) (c : ℕ) (q : ListRef) :
    (counterIncStore s c).safelist q = s.safelist q := by
  rw [State.safelist, counterIncStore, State.modifyCollector_collectors]
  split_ifs with hq
  · rw [State.safelist, hq]
  · rfl

/-- What moving the elements `xs` of the list `r` to the list `dest` leaves. -/
structure Moved (w w' : World) (r dest : ListRef) (xs : List ℕ) : Prop where
  rest : Rest w.heap w'.heap
  data : ∀ q, (w'.heap.safelist q).data =
    if q = r then [] else if q = dest then (w.heap.safelist dest).data ++ kept w.listAdds xs
    else (w.heap.safelist q).data
  statuses : w'.listAdds = fun n => w.listAdds (n + xs.length)

theorem safelistDrain_moved {r dest : ListRef} (hne : r ≠ dest) (xs : List ℕ) : ∀ w : World,
    (w.heap.safelist r).data = xs → w.heap.listForward dest = none →
    Moved w (safelistDrain dest r xs.length w) r dest xs ∧
      ∀ q, (safelistDrain dest r xs.length w).heap.listForward q = w.heap.listForward q := by
  induction xs with
  | nil =>
    intro w hd _
    refine ⟨⟨.refl _, fun q => ?_, rfl⟩, fun _ => rfl⟩
    change (w.heap.safelist q).data = _
    split_ifs with hq hq
    · rw [hq, hd]
    · rw [hq, kept, List.append_nil]
    · rfl
  | cons x xs ih =>
    intro w hd hf
    rw [List.length_cons, safelistDrain, safelistPoll_cons hd]
    dsimp only
    -- the state after the poll and the addition of one element
    have hpoll : ∀ q, (((counterDecStore w.heap r.1).modifySafelist r fun l =>
        { l with data := xs }).safelist q) =
        if q = r then { w.heap.safelist r with data := xs } else w.heap.safelist q := by
      intro q
      rw [State.modifySafelist_safelist, counterDecStore_safelist, counterDecStore_safelist]
    have hrest : Rest w.heap ((counterDecStore w.heap r.1).modifySafelist r fun l =>
        { l with data := xs }) :=
      ((check_rest _ _ _).trans (modifyCollector_rest _ _ _)).trans (modifyCollector_rest _ _ _)
    generalize (counterDecStore w.heap r.1).modifySafelist r (fun l => { l with data := xs }) = s1
      at hpoll hrest ⊢
    have hf1 : s1.listForward dest = none := by
      rw [State.listForward, hpoll, if_neg (Ne.symm hne)]
      exact hf
    have hadd : safelistAdd { w with heap := s1 } dest x = safelistPush { w with heap := s1 } dest x := by
      unfold safelistAdd
      simp only [hf1]
    rw [hadd]
    have hpush : ∀ q, ((safelistPush { w with heap := s1 } dest x).heap.safelist q) =
        if q = dest then { s1.safelist dest with
          data := (s1.safelist dest).data ++ kept w.listAdds [x] } else s1.safelist q := by
      intro q
      cases hst : w.listAdds 0 with
      | ok =>
        rw [safelistPush_ok (w := { w with heap := s1 }) hst, Acid.safelistPush,
          State.modifySafelist_safelist, counterIncStore_safelist, counterIncStore_safelist]
        simp [kept, hst]
      | errAlloc =>
        rw [safelistPush_errAlloc (w := { w with heap := s1 }) hst, counterIncStore_safelist]
        split_ifs with hq
        · simp [kept, hst, hq]
        · rfl
    have hrest2 : Rest s1 (safelistPush { w with heap := s1 } dest x).heap := by
      cases hst : w.listAdds 0 with
      | ok =>
        rw [safelistPush_ok (w := { w with heap := s1 }) hst]
        exact (modifyCollector_rest s1 _ _).trans (modifySafelist_rest _ _ _)
      | errAlloc =>
        rw [safelistPush_errAlloc (w := { w with heap := s1 }) hst]
        exact modifyCollector_rest _ _ _
    have hstat : (safelistPush { w with heap := s1 } dest x).listAdds =
        fun n => w.listAdds (n + 1) := rfl
    generalize safelistPush { w with heap := s1 } dest x = w2 at hpush hrest2 hstat ⊢
    obtain ⟨hmoved, hforward⟩ := ih w2
      (by rw [hpush, if_neg hne, hpoll, if_pos rfl])
      (by
        rw [State.listForward, hpush, if_pos rfl]
        exact hf1)
    refine ⟨⟨(hrest.trans hrest2).trans hmoved.rest, fun q => ?_, ?_⟩, fun q => ?_⟩
    · rw [hmoved.data]
      split_ifs with hqr hqd
      · rfl
      · rw [hpush, if_pos rfl, hpoll, if_neg (Ne.symm hne), hstat, kept_cons w.listAdds x xs,
          ← List.append_assoc]
      · rw [hpush, if_neg hqd, hpoll, if_neg hqr]
    · rw [hmoved.statuses, hstat]
      funext n
      change w.listAdds (n + xs.length + 1) = _
      rw [List.length_cons, Nat.add_assoc]
    · rw [hforward, State.listForward, hpush]
      by_cases hqd : q = dest
      · rw [if_pos hqd, hqd]
        change s1.listForward dest = _
        rw [hf1, hf]
      · rw [if_neg hqd, hpoll]
        by_cases hqr : q = r
        · rw [if_pos hqr, hqr]
          rfl
        · rw [if_neg hqr]
          rfl

theorem safelistForward_moved {r dest : ListRef} (hne : r ≠ dest) {w : World}
    (hf : w.heap.listForward dest = none) :
    Moved w (safelistForward w r dest) r dest (w.heap.safelist r).data ∧
      ∀ q, (safelistForward w r dest).heap.listForward q =
        if q = r then some dest else w.heap.listForward q := by
  obtain ⟨hmoved, hforward⟩ := safelistDrain_moved hne (w.heap.safelist r).data w rfl hf
  unfold safelistForward
  generalize safelistDrain dest r (w.heap.safelist r).data.length w = w1 at hmoved hforward ⊢
  have hlist : ∀ q, ((w1.on fun s => s.modifySafelist r fun l =>
      { l with forward := some dest }).heap.safelist q) =
      if q = r then { w1.heap.safelist r with forward := some dest } else w1.heap.safelist q :=
    fun q => State.modifySafelist_safelist w1.heap r q fun l => { l with forward := some dest }
  refine ⟨⟨hmoved.rest.trans (modifySafelist_rest w1.heap r fun l =>
    { l with forward := some dest }), fun q => ?_, hmoved.statuses⟩,
    fun q => ?_⟩
  · rw [← hmoved.data, hlist]
    split_ifs with hq
    · rw [hq]
    · rfl
  · rw [State.listForward, hlist]
    split_ifs with hq
    · rfl
    · exact hforward q

theorem Moved.occurrences {w w' : World} {r dest : ListRef}
    (h : Moved w w' r dest (w.heap.safelist r).data) (hne : r.1 ≠ dest.1)
    (hr : r.1 < w.heap.numCollector) (hd : dest.1 < w.heap.numCollector) (n : ListName) (x : ℕ) :
    occurrences w'.heap n x = occurrences w.heap n x -
      (if n = r.2 then ((w.heap.safelist r).data.count x : ℤ) else 0) +
      if n = dest.2 then ((kept w.listAdds (w.heap.safelist r).data).count x : ℤ) else 0 := by
  have hrow : ∀ c, ((((w'.heap.collectors c).lists n).data.count x : ℕ) : ℤ) =
      (((w.heap.collectors c).lists n).data.count x : ℕ) -
      (if c = r.1 then (if n = r.2 then ((w.heap.safelist r).data.count x : ℤ) else 0) else 0) +
      if c = dest.1 then
        (if n = dest.2 then ((kept w.listAdds (w.heap.safelist r).data).count x : ℤ) else 0)
      else 0 := by
    intro c
    have hdata := h.data (c, n)
    rw [State.safelist] at hdata
    rw [hdata]
    by_cases hcr : c = r.1
    · subst hcr
      rw [if_neg hne, if_pos rfl]
      by_cases hn : n = r.2
      · subst hn
        simp [State.safelist]
      · have h1 : ¬ (r.1, n) = r := fun he => hn (congrArg Prod.snd he)
        have h2 : ¬ (r.1, n) = dest := fun he => hne (by rw [← he])
        simp [h1, h2, hn, State.safelist]
    · have h1 : ¬ (c, n) = r := fun he => hcr (congrArg Prod.fst he)
      rw [if_neg h1, if_neg hcr]
      by_cases hcd : c = dest.1
      · subst hcd
        rw [if_pos rfl]
        by_cases hn : n = dest.2
        · subst hn
          simp [State.safelist]
        · have h2 : ¬ (dest.1, n) = dest := fun he => hn (congrArg Prod.snd he)
          simp [h2, hn, State.safelist]
      · have h2 : ¬ (c, n) = dest := fun he => hcd (congrArg Prod.fst he)
        simp [h2, hcd, State.safelist]
  unfold Acid.occurrences
  rw [h.rest.numCollector, Finset.sum_congr rfl fun c _ => hrow c, Finset.sum_add_distrib,
    Finset.sum_sub_distrib, Finset.sum_ite_eq', Finset.sum_ite_eq',
    if_pos (Finset.mem_range.mpr hr), if_pos (Finset.mem_range.mpr hd)]

/-- The elements of `x`'s that count, those of the rebuild list aside. -/
def counted (x : ℕ) (ps : List (ListName × ℕ)) : ℕ := ps.countP fun p => p.1 ≠ .rebuild ∧ p.2 = x

def collected (x : ℕ) (ps : List (ListName × ℕ)) : ℕ := ps.countP fun p => p.1 = .collect ∧ p.2 = x

theorem collected_le (x : ℕ) (ps : List (ListName × ℕ)) : collected x ps ≤ counted x ps := by
  apply List.countP_mono_left
  intro p _ hp
  simp only [decide_eq_true_eq] at hp ⊢
  exact ⟨(by rw [hp.1]; decide), hp.2⟩

theorem counted_append (x : ℕ) (ps qs : List (ListName × ℕ)) :
    counted x (ps ++ qs) = counted x ps + counted x qs ∧
      collected x (ps ++ qs) = collected x ps + collected x qs :=
  ⟨List.countP_append .., List.countP_append ..⟩

theorem counted_map (x : ℕ) (n : ListName) (xs : List ℕ) :
    counted x (xs.map (n, ·)) = (if n ≠ .rebuild then xs.count x else 0) ∧
      collected x (xs.map (n, ·)) = if n = .collect then xs.count x else 0 := by
  constructor
  · rw [counted, List.countP_map]
    split_ifs with hn
    · rw [List.count]
      apply List.countP_congr
      simp [hn]
    · rw [List.countP_eq_zero]
      simp at hn
      simp [hn]
  · rw [collected, List.countP_map]
    split_ifs with hn
    · rw [List.count]
      apply List.countP_congr
      simp [hn]
    · rw [List.countP_eq_zero]
      simp [hn]

/-- A list that is moved to where it is routed loses what is not taken. -/
theorem Moved.curation {w w' : World} {c t : ℕ} {n : ListName}
    (h : Moved w w' (c, n) (t, route n) (w.heap.safelist (c, n)).data) (hne : c ≠ t)
    (hc : c < w.heap.numCollector) (ht : t < w.heap.numCollector) (x : ℕ) :
    curation w'.heap x + counted x ((lost w.listAdds (w.heap.safelist (c, n)).data).map (n, ·)) =
      curation w.heap x ∧
    Acid.occurrences w'.heap .collect x +
      collected x ((lost w.listAdds (w.heap.safelist (c, n)).data).map (n, ·)) =
      Acid.occurrences w.heap .collect x := by
  have hcount := kept_count x (w.heap.safelist (c, n)).data w.listAdds
  have hocc := fun m => h.occurrences hne hc ht m x
  rw [(counted_map x n _).1, (counted_map x n _).2, Acid.curation, Acid.curation, hocc .collect,
    hocc .merged, hocc .recovery, hocc .clean]
  cases n <;> simp [route] <;> omega

/-! ## A merge with losses -/

/-- What a collector that is forwarded hands over, in order. -/
def ceded (s : State) (c : ℕ) (ns : List ListName) : List (ListName × ℕ) :=
  ns.flatMap fun n => (s.safelist (c, n)).data.map (n, ·)

def listNames : List ListName := [.collect, .merged, .rebuild, .clean, .recovery]

theorem forwardAll_loses {c t : ℕ} (hne : c ≠ t) (ns : List ListName) : ∀ w : World, ns.Nodup →
    c < w.heap.numCollector → t < w.heap.numCollector →
    (∀ n, w.heap.listForward (t, n) = none) →
    let w' := ns.foldl (fun w n => safelistForward w (c, n) (t, route n)) w
    Rest w.heap w'.heap ∧ ∀ x,
      curation w'.heap x + counted x (lost w.listAdds (ceded w.heap c ns)) = curation w.heap x ∧
      occurrences w'.heap .collect x + collected x (lost w.listAdds (ceded w.heap c ns)) =
        occurrences w.heap .collect x := by
  induction ns with
  | nil =>
    intro w _ _ _ _
    exact ⟨.refl _, fun x => ⟨by simp [ceded, lost, counted], by simp [ceded, lost, collected]⟩⟩
  | cons n ns ih =>
    intro w hnd hc ht hf
    obtain ⟨hn, hns⟩ := List.nodup_cons.mp hnd
    have hr : (c, n) ≠ (t, route n) := fun he => hne (congrArg Prod.fst he)
    obtain ⟨hm, hforward⟩ := safelistForward_moved hr (hf (route n))
    have hcur := hm.curation hne hc ht
    rw [List.foldl_cons]
    generalize safelistForward w (c, n) (t, route n) = w1 at hm hforward hcur ⊢
    have hceded : ceded w1.heap c ns = ceded w.heap c ns := by
      unfold ceded
      rw [List.flatMap_def, List.flatMap_def]
      congr 1
      apply List.map_congr_left
      intro m hm'
      have h1 : ¬ (c, m) = (c, n) := by
        intro he
        cases he
        exact hn hm'
      have h2 : ¬ (c, m) = (t, route n) := fun he => hne (congrArg Prod.fst he)
      rw [hm.data, if_neg h1, if_neg h2]
    obtain ⟨hrest, hlost⟩ := ih w1 hns (hc.trans_eq hm.rest.numCollector.symm)
      (ht.trans_eq hm.rest.numCollector.symm) fun m => by
        have h1 : ¬ (t, m) = (c, n) := fun he => hne (congrArg Prod.fst he).symm
        rw [hforward, if_neg h1]
        exact hf m
    refine ⟨hm.rest.trans hrest, fun x => ?_⟩
    obtain ⟨h1, h2⟩ := hlost x
    obtain ⟨h3, h4⟩ := hcur x
    have hsplit : lost w.listAdds (ceded w.heap c (n :: ns)) =
        (lost w.listAdds (w.heap.safelist (c, n)).data).map (n, ·) ++
          lost w1.listAdds (ceded w1.heap c ns) := by
      rw [hceded, hm.statuses]
      unfold ceded
      rw [List.flatMap_cons, lost_append, lost_map, List.length_map]
    rw [hsplit, (counted_append x _ _).1, (counted_append x _ _).2]
    constructor
    · push_cast
      omega
    · push_cast
      omega

/-- The counts of `x` and all links are as before. -/
structure SameCounts (x : ℕ) (s s' : State) : Prop where
  shape : ∀ y, (s'.objects y).shape = (s.objects y).shape
  count : (s'.objects x).count = (s.objects x).count
  count2 : (s'.objects x).count2 = (s.objects x).count2
  objectCount : s'.objectCount = s.objectCount
  links : s'.links = s.links
  linkCount : s'.linkCount = s.linkCount
  claims : s'.claims = s.claims

namespace SameCounts
variable {x : ℕ} {s s' s'' : State}

theorem refl (x : ℕ) (s : State) : SameCounts x s s := ⟨fun _ => rfl, rfl, rfl, rfl, rfl, rfl, rfl⟩

theorem trans (h : SameCounts x s s') (h' : SameCounts x s' s'') : SameCounts x s s'' where
  shape y := (h'.shape y).trans (h.shape y)
  count := h'.count.trans h.count
  count2 := h'.count2.trans h.count2
  objectCount := h'.objectCount.trans h.objectCount
  links := h'.links.trans h.links
  linkCount := h'.linkCount.trans h.linkCount
  claims := h'.claims.trans h.claims

theorem of_frame (h : Frame s s') (hc : (s'.objects x).count = (s.objects x).count ∧
    (s'.objects x).count2 = (s.objects x).count2) : SameCounts x s s' :=
  ⟨h.shape, hc.1, hc.2, h.objectCount, h.links, h.linkCount, h.claims⟩

theorem of_rest (h : Rest s s') : SameCounts x s s' := by
  refine ⟨?_, ?_, ?_, h.objectCount, h.links, h.linkCount, h.claims⟩ <;> simp [h.objects]

variable (h : SameCounts x s s')
include h

theorem which (y : ℕ) : (s'.objects y).which = (s.objects y).which :=
  show (s'.objects y).shape.which = (s.objects y).shape.which by rw [h.shape y]

theorem table (y : ℕ) : (s'.objects y).links = (s.objects y).links :=
  show (s'.objects y).shape.links = (s.objects y).shape.links by rw [h.shape y]

end SameCounts

/-- The lists hold `x` as often as before. -/
def SameLists (x : ℕ) (s s' : State) : Prop := ∀ n, occurrences s' n x = occurrences s n x

theorem SameLists.curation {x : ℕ} {s s' : State} (h : SameLists x s s') :
    curation s' x = curation s x := by
  rw [Acid.curation, Acid.curation, h, h, h, h]

theorem setCollector_same (s : State) (y : ℕ) (c : Option ℕ) (x : ℕ) :
    SameCounts x s (objectSetCollector s y c) ∧ SameLists x s (objectSetCollector s y c) := by
  refine ⟨.of_frame (objectSetCollector_frame s y c) (objectSetCollector_count s y c x), fun n => ?_⟩
  apply occurrences_congr (objectSetCollector_rest s y c).1
  intro r
  rw [objectSetCollector_safelist]

theorem setBoth_same (s : State) (y z : ℕ) (c : Option ℕ) (x : ℕ) :
    SameCounts x s (objectSetCollector (objectSetCollector s y c) z c) ∧
      SameLists x s (objectSetCollector (objectSetCollector s y c) z c) := by
  have h1 := setCollector_same s y c x
  have h2 := setCollector_same (objectSetCollector s y c) z c x
  exact ⟨h1.1.trans h2.1, fun n => (h2.2 n).trans (h1.2 n)⟩

theorem collectorForwardSafelistsTo_foldl (w : World) (c t : ℕ) :
    collectorForwardSafelistsTo w c t =
      listNames.foldl (fun w n => safelistForward w (c, n) (t, route n)) w := rfl

theorem collectorMerge_loses {w : World} {t c : ℕ} (hne : c ≠ t) (hc : c < w.heap.numCollector)
    (ht : t < w.heap.numCollector) (hf : ∀ n, w.heap.listForward (t, n) = none) (x : ℕ) :
    SameCounts x w.heap (collectorMerge w t c).heap ∧
    curation (collectorMerge w t c).heap x +
      counted x (lost w.listAdds (ceded w.heap c listNames)) = curation w.heap x ∧
    occurrences (collectorMerge w t c).heap .collect x +
      collected x (lost w.listAdds (ceded w.heap c listNames)) = occurrences w.heap .collect x := by
  obtain ⟨hrest, hlost⟩ := forwardAll_loses hne listNames w (by decide) hc ht hf
  rw [← collectorForwardSafelistsTo_foldl] at hrest hlost
  have hheap : (collectorMerge w t c).heap =
      collectorSetForward (collectorForwardSafelistsTo w c t).heap c (some t) := rfl
  rw [hheap]
  generalize (collectorForwardSafelistsTo w c t).heap = s at hrest hlost ⊢
  have hset := collectorSetForward_rest s c (some t)
  have hsame : SameLists x s (collectorSetForward s c (some t)) := by
    intro n
    apply occurrences_congr hset.2.1
    intro r
    unfold collectorSetForward
    split_ifs
    · rfl
    · have hfield := counterRepoint_field (fun k => k.lists r.2) (fun _ _ => rfl) s (s.forward c)
        (some t) r.1
      rw [State.safelist, State.modifyCollector_collectors]
      split_ifs with hr
      · rw [hr] at hfield
        exact congrArg Safelist.data (hfield.trans (by rw [State.safelist, hr]))
      · exact congrArg Safelist.data hfield
  refine ⟨(SameCounts.of_rest hrest).trans (.of_frame (collectorSetForward_frame s c (some t)) ?_),
    ?_, ?_⟩
  · rw [hset.1]
    exact ⟨rfl, rfl⟩
  · rw [hsame.curation]
    exact (hlost x).1
  · rw [hsame .collect]
    exact (hlost x).2

/-- The lists that a merge hands over, by the collectors of the two objects. -/
def cededBy (s : State) (obj target : ℕ) : List (ListName × ℕ) :=
  match (s.objects obj).collector, (s.objects target).collector with
  | some c, some t =>
    if collectorUpdate s c = collectorUpdate s t then [] else ceded s (collectorUpdate s c) listNames
  | _, _ => []

/-- The merge loop ends as in the heap model. -/
theorem mergeLoop_ends {w : World} {rank : ℕ → ℕ}
    (hr : ∀ a b, w.heap.forward a = some b → rank b < rank a) (o x n : ℕ) (t c : ℕ)
    (hlt : rank t + rank c < n) (hne : t = c → w.heap.forward c ≠ none) :
    (∃ d, Chain w.heap.forward t d ∧ Chain w.heap.forward c d ∧ w.heap.forward d = none ∧
      (mergeLoop o x n w t c).1 = w.on fun s =>
        objectSetCollector (objectSetCollector s x (some d)) o (some d)) ∨
    (∃ d e, Chain w.heap.forward t d ∧ Chain w.heap.forward c e ∧ w.heap.forward d = none ∧
      w.heap.forward e = none ∧ e ≠ d ∧ (mergeLoop o x n w t c).1 = (collectorMerge w d e).on fun s =>
        objectSetCollector (objectSetCollector s x (some d)) o (some d)) := by
  induction n generalizing t c with
  | zero => omega
  | succ n ih =>
    by_cases h1 : w.heap.forward t = some c ∧ w.heap.forward c = none
    · exact .inl ⟨c, .single h1.1, .refl, h1.2, by rw [mergeLoop, if_pos h1]⟩
    by_cases h2 : w.heap.forward c = some t ∧ w.heap.forward t = none
    · exact .inl ⟨t, .refl, .single h2.1, h2.2, by rw [mergeLoop, if_neg h1, if_pos h2]⟩
    cases ht : w.heap.forward t with
    | some t' =>
      have hstep : mergeLoop o x (n + 1) w t c = mergeLoop o x n w t' c := by
        rw [mergeLoop, if_neg h1, if_neg h2, ht]
      have hrank := hr t t' ht
      rw [hstep]
      rcases ih t' c (by omega) (by rintro rfl hn; exact h1 ⟨ht, hn⟩) with
        ⟨d, hd, h⟩ | ⟨d, e, hd, h⟩
      · exact .inl ⟨d, .head ht hd, h⟩
      · exact .inr ⟨d, e, .head ht hd, h⟩
    | none =>
      cases hc : w.heap.forward c with
      | some c' =>
        have hstep : mergeLoop o x (n + 1) w t c = mergeLoop o x n w t c' := by
          rw [mergeLoop, if_neg h1, if_neg h2, ht, hc]
        have hrank := hr c c' hc
        rw [hstep]
        rcases ih t c' (by omega) (by rintro rfl _; exact h2 ⟨hc, ht⟩) with
          ⟨d, hd, he, h⟩ | ⟨d, e, hd, he, h⟩
        · exact .inl ⟨d, hd, .head hc he, h⟩
        · exact .inr ⟨d, e, hd, .head hc he, h⟩
      | none =>
        have hct : c ≠ t := fun h => hne h.symm hc
        have hfor : (collectorMerge w t c).heap.forward c = some t := by
          change (collectorSetForward (collectorForwardSafelistsTo w c t).heap c (some t)).forward c = _
          rw [collectorSetForward_forward, Function.update_self]
        refine .inr ⟨t, c, .refl, .refl, ht, hc, hct, ?_⟩
        rw [mergeLoop, if_neg h1, if_neg h2, ht, hc]
        simp only [if_neg hct, World.on]
        rw [State.check_pos _ hfor]

/-- A merge keeps all counts; the lists that are handed over lose what is not taken. -/
theorem objectMergeCollectors_loses {w : World} (h : Collectors w.heap) (obj target x : ℕ) :
    SameCounts x w.heap (objectMergeCollectors w obj target).1.heap ∧
    curation (objectMergeCollectors w obj target).1.heap x +
      counted x (lost w.listAdds (cededBy w.heap obj target)) = curation w.heap x ∧
    occurrences (objectMergeCollectors w obj target).1.heap .collect x +
      collected x (lost w.listAdds (cededBy w.heap obj target)) =
      occurrences w.heap .collect x := by
  -- without a merge, pointers are all that changes
  have hsame : ∀ s' : State, cededBy w.heap obj target = [] →
      SameCounts x w.heap s' ∧ SameLists x w.heap s' →
      SameCounts x w.heap s' ∧
      curation s' x + counted x (lost w.listAdds (cededBy w.heap obj target)) =
        curation w.heap x ∧
      occurrences s' .collect x + collected x (lost w.listAdds (cededBy w.heap obj target)) =
        occurrences w.heap .collect x := by
    rintro s' hnil ⟨h1, h2⟩
    rw [hnil, h2.curation, h2 .collect]
    exact ⟨h1, by simp [lost, counted], by simp [lost, collected]⟩
  unfold objectMergeCollectors
  cases ho : (w.heap.objects obj).collector with
  | none =>
    cases ht : (w.heap.objects target).collector with
    | none => exact hsame _ (by simp [cededBy, ho]) ⟨.refl .., fun _ => rfl⟩
    | some t => exact hsame _ (by simp [cededBy, ho]) (setCollector_same _ _ _ x)
  | some c =>
    cases ht : (w.heap.objects target).collector with
    | none => exact hsame _ (by simp [cededBy, ho, ht]) (setCollector_same _ _ _ x)
    | some t =>
      dsimp only
      by_cases htc : t = c
      · rw [if_pos htc]
        exact hsame _ (by simp [cededBy, ho, ht, htc]) ⟨.refl .., fun _ => rfl⟩
      · rw [if_neg htc]
        obtain ⟨rank, hr, hb⟩ := h.ranked.bounded w.heap.numCollector h.bound
        have hrt := hb t
        have hrc := hb c
        rcases mergeLoop_ends hr obj target (2 * w.heap.numCollector + 1) t c (by omega)
          (fun hx => absurd hx htc) with ⟨d, hd, he, hdn, heq⟩ | ⟨d, e, hd, he, hdn, hen, hne, heq⟩
        · rw [heq]
          apply hsame _ _ (setBoth_same _ _ _ _ x)
          simp only [cededBy, ho, ht]
          rw [if_pos ((h.update_of_chain he hdn).trans (h.update_of_chain hd hdn).symm)]
        · rw [heq]
          have hcu := h.update_of_chain he hen
          have htu := h.update_of_chain hd hdn
          have hnil : cededBy w.heap obj target = ceded w.heap e listNames := by
            simp only [cededBy, ho, ht]
            rw [hcu, htu, if_neg hne]
          have hcd : d < w.heap.numCollector := by
            rw [← htu]
            exact (h.update_alive (h.object_alive ht).2).1
          have hce : e < w.heap.numCollector := by
            rw [← hcu]
            exact (h.update_alive (h.object_alive ho).2).1
          obtain ⟨h1, h2, h3⟩ := collectorMerge_loses hne hce hcd (h.root_lists hdn) x
          have hboth := setBoth_same (collectorMerge w d e).heap target obj (some d) x
          rw [hnil]
          refine ⟨h1.trans hboth.1, ?_, ?_⟩
          · change curation (objectSetCollector (objectSetCollector (collectorMerge w d e).heap
              target (some d)) obj (some d)) x + _ = _
            rw [hboth.2.curation]
            exact h2
          · change occurrences (objectSetCollector (objectSetCollector (collectorMerge w d e).heap
              target (some d)) obj (some d)) .collect x + _ = _
            rw [hboth.2 .collect]
            exact h3

end Acid.CollectionStatus

import Acid.StatusMerging

set_option autoImplicit false

/-!
# The accounts after a dropped status

`object_set` counts a link that the table may not have taken, and goes on to release the
old one; the referent's counts are compared with what they should count.
-/
namespace Acid.CollectionStatus
open PointerForest Tally

/-! ## The release of a link to another object -/

/-- Nothing that the counts of `x` rest on changes. -/
def Spares (x : ℕ) (s s' : State) : Prop := SameCounts x s s' ∧ SameLists x s s'

namespace Spares
variable {x : ℕ} {s s' s'' : State}

theorem refl (x : ℕ) (s : State) : Spares x s s := ⟨.refl x s, fun _ => rfl⟩

theorem trans (h : Spares x s s') (h' : Spares x s' s'') : Spares x s s'' :=
  ⟨h.1.trans h'.1, fun n => (h'.2 n).trans (h.2 n)⟩

theorem of_collectors (h : Frame s s') (hx : s'.objects x = s.objects x)
    (hn : s'.numCollector = s.numCollector) (hc : s'.collectors = s.collectors) :
    Spares x s s' := by
  refine ⟨.of_frame h (by rw [hx]; exact ⟨rfl, rfl⟩), fun n => occurrences_congr hn (fun r => ?_) n x⟩
  rw [State.safelist, State.safelist, hc]

end Spares

section
variable {x y : ℕ} (hne : x ≠ y)
include hne

theorem modifyObject_spares (s : State) {f : Object → Object} (hf : ∀ o, (f o).shape = o.shape) :
    Spares x s (s.modifyObject y f) :=
  .of_collectors (modifyObject_frame s y (hf _)) (State.modifyObject_objects_ne s f hne) rfl rfl

theorem safelistPush_spares (w : World) (r : ListRef) : Spares x w.heap (safelistPush w r y).heap := by
  have hinc : Spares x w.heap (counterIncStore w.heap r.1) := by
    refine ⟨.of_rest (modifyCollector_rest w.heap r.1 _), fun n => ?_⟩
    apply occurrences_congr
    · rfl
    · intro q
      rw [counterIncStore_safelist]
  cases hst : w.listAdds 0 with
  | ok =>
    rw [safelistPush_ok hst]
    refine hinc.trans ⟨.of_rest (modifySafelist_rest _ r _), fun n => ?_⟩
    unfold occurrences
    apply Finset.sum_congr rfl
    intro c _
    have hlist := State.modifySafelist_safelist (counterIncStore w.heap r.1) r (c, n)
      fun l => { l with data := l.data ++ [y] }
    rw [State.safelist] at hlist
    rw [Acid.safelistPush, hlist]
    split_ifs with hr
    · rw [← hr]
      simp [List.count_append, Ne.symm hne, State.safelist]
    · rfl
  | errAlloc =>
    rw [safelistPush_errAlloc hst]
    exact hinc

theorem collectorAddObject_spares (w : World) (c : ℕ) :
    Spares x w.heap (collectorAddObject w c y).heap := by
  unfold collectorAddObject
  dsimp only
  generalize hw : (w.on fun s => s.modifyObject y fun o =>
    { o with count := Function.update o.count o.which (o.count o.which + 1) }).on (fun s =>
      s.modifyObject y fun o => { o with count2 := o.count2 + 1 }) = w1
  have h1 : Spares x w.heap w1.heap := by
    rw [← hw]
    refine (modifyObject_spares hne w.heap (f := fun o =>
      { o with count := Function.update o.count o.which (o.count o.which + 1) }) fun _ => rfl).trans ?_
    exact modifyObject_spares hne _ (f := fun o => { o with count2 := o.count2 + 1 }) fun _ => rfl
  obtain ⟨q, hq⟩ := safelistAdd_eq_push w1 (collectorUpdate w.heap c, .collect) y
  rw [hq]
  exact (h1.trans (safelistPush_spares hne w1 q)).trans (setCollector_same _ y _ x)

omit hne in
theorem workerAddTask_spares (w : World) (t : Task) :
    Spares x w.heap (workerAddTask w t).heap := by
  unfold workerAddTask
  dsimp only
  split
  · exact .of_collectors (addTask_frame w.heap t) rfl rfl rfl
  · exact .refl x _

omit hne in
theorem check_spares (s : State) (p : Prop) [Decidable p] (e : Event) : Spares x s (s.check p e) :=
  .of_collectors (check_frame s p e) (by rw [State.check_objects]) (State.check_numCollector s p e)
    (State.check_collectors s p e)

omit hne in
theorem objectRequestDelete_spares (w : World) (z : ℕ) :
    Spares x w.heap (objectRequestDelete w z).heap := by
  have h1 : Spares x w.heap (w.heap.emit (.requestDelete z)) :=
    .of_collectors (emit_frame _ _) rfl rfl rfl
  exact h1.trans (workerAddTask_spares (w.on fun s => s.emit (.requestDelete z)) _)

omit hne in
theorem objectEnsureCollector_spares (w : World) (z : ℕ) :
    Spares x w.heap (objectEnsureCollector w z).heap := by
  unfold objectEnsureCollector
  split
  · exact .refl x _
  · have h1 : Spares x w.heap (collectorCreate w.heap).1 :=
      ⟨.of_frame (collectorCreate_frame w.heap) ⟨rfl, rfl⟩, fun n => occurrences_create w.heap n x⟩
    have h2 := setCollector_same (collectorCreate w.heap).1 z (some (collectorCreate w.heap).2) x
    exact (h1.trans h2).trans (workerAddTask_spares { w with
      heap := objectSetCollector (collectorCreate w.heap).1 z (some (collectorCreate w.heap).2) } _)

theorem objectDec_spares (w : World) (b : Bool) : Spares x w.heap (objectDec w y b).heap := by
  unfold objectDec
  dsimp only
  generalize hw : (w.on fun s => s.modifyObject y fun o =>
    { o with count := Function.update o.count b (o.count b - 1) }).on (fun s =>
      s.check (0 ≤ (s.objects y).count b) (.assertFailed .decCount)) = w1
  have h1 : Spares x w.heap w1.heap := by
    rw [← hw]
    refine (modifyObject_spares hne w.heap (f := fun o =>
      { o with count := Function.update o.count b (o.count b - 1) }) fun _ => rfl).trans ?_
    exact check_spares _ _ _
  split_ifs
  · exact h1.trans (objectRequestDelete_spares w1 y)
  · have h2 := h1.trans (objectEnsureCollector_spares w1 y)
    split
    · exact h2.trans (collectorAddObject_spares hne _ _)
    · exact h2
  · exact h1

theorem objectDecPhantom_spares (w : World) : Spares x w.heap (objectDecPhantom w y).heap := by
  unfold objectDecPhantom
  dsimp only
  generalize hw : (w.on fun s => s.modifyObject y fun o => { o with count2 := o.count2 - 1 }).on
    (fun s => s.check (0 ≤ (s.objects y).count2) (.assertFailed .decPhantomCount)) = w1
  have h1 : Spares x w.heap w1.heap := by
    rw [← hw]
    refine (modifyObject_spares hne w.heap (f := fun o => { o with count2 := o.count2 - 1 })
      fun _ => rfl).trans ?_
    exact check_spares _ _ _
  split_ifs
  · exact h1.trans (objectRequestDelete_spares w1 y)
  · exact h1.trans (setCollector_same w1.heap y none x)
  · exact h1

end

theorem linkDec_spares {w : World} {l x : ℕ} (hne : x ≠ (w.heap.links l).target) :
    Spares x w.heap (linkDec w l).heap := by
  unfold linkDec
  dsimp only
  split_ifs
  · exact objectDecPhantom_spares hne w
  · exact objectDec_spares hne w _

/-! ## The new link -/

/-- The counts of `x` are its links in tables, its claims and its places in lists. -/
structure CountsAgree (s : State) (x : ℕ) : Prop where
  count : ∀ b, (s.objects x).count b = labelledLinks s x b + sideRefs s x b
  count2 : (s.objects x).count2 = phantomLinks s x + curation s x

theorem countsAgree_of_accounted {s : State} (h : Accounted s) (x : ℕ) : CountsAgree s x := by
  constructor
  · intro b
    have hc := h.balance.count x b
    rw [strongRefs, tally_eq_card] at hc
    simpa [labelledLinks] using hc
  · have hc := h.balance.count2 x
    rw [phantomRefs, tally_eq_card] at hc
    simpa [phantomLinks] using hc

theorem tableLinks_same {x : ℕ} {s s' : State} (h : SameCounts x s s') :
    tableLinks s' = tableLinks s := by
  ext l
  simp only [tableLinks, Finset.mem_filter, Finset.mem_range, InTable, h.linkCount, h.objectCount,
    h.table]

theorem Spares.countsAgree {x : ℕ} {s s' : State} (h : Spares x s s') :
    CountsAgree s' x ↔ CountsAgree s x := by
  have hlabelled : ∀ b, labelledLinks s' x b = labelledLinks s x b := by
    intro b
    rw [labelledLinks, labelledLinks, tableLinks_same h.1, h.1.links]
  have hphantom : phantomLinks s' x = phantomLinks s x := by
    rw [phantomLinks, phantomLinks, tableLinks_same h.1, h.1.links]
  have hside : ∀ b, sideRefs s' x b = sideRefs s x b := by
    intro b
    rw [sideRefs, sideRefs, h.1.which, h.1.claims, h.2]
  have hcur : curation s' x = curation s x := SameLists.curation h.2
  constructor
  · rintro ⟨h1, h2⟩
    refine ⟨fun b => ?_, ?_⟩
    · rw [← h.1.count, ← hlabelled, ← hside]
      exact h1 b
    · rw [← h.1.count2, ← hphantom, ← hcur]
      exact h2
  · rintro ⟨h1, h2⟩
    refine ⟨fun b => ?_, ?_⟩
    · rw [h.1.count, hlabelled, hside]
      exact h1 b
    · rw [h.1.count2, hphantom, hcur]
      exact h2

/-- What `hashtable_add` does to the links that lead to `x`: the new one counts if it was
taken, and an old one at its key leads elsewhere. -/
structure Linked (s u : State) (x : ℕ) (L : Link) (taken : Prop) : Prop where
  links : ∀ k, u.links k = if k = s.linkCount then L else s.links k
  target : L.target = x
  fresh : s.linkCount ∉ tableLinks s
  new : s.linkCount ∈ tableLinks u ↔ taken
  old : ∀ k, k ≠ s.linkCount → (s.links k).target = x → (k ∈ tableLinks u ↔ k ∈ tableLinks s)

theorem Linked.card {s u : State} {x : ℕ} {L : Link} {taken : Prop} [Decidable taken]
    (h : Linked s u x L taken) (q : Link → Prop) [DecidablePred q] :
    ((tableLinks u).filter fun k => (u.links k).target = x ∧ q (u.links k)).card =
      ((tableLinks s).filter fun k => (s.links k).target = x ∧ q (s.links k)).card +
        if taken ∧ q L then 1 else 0 := by
  have hmem : ∀ k, k ∈ (tableLinks u).filter (fun k => (u.links k).target = x ∧ q (u.links k)) ↔
      (k = s.linkCount ∧ taken ∧ q L) ∨
        k ∈ (tableLinks s).filter fun k => (s.links k).target = x ∧ q (s.links k) := by
    intro k
    simp only [Finset.mem_filter, h.links]
    by_cases hk : k = s.linkCount
    · subst hk
      simp [h.new, h.target, h.fresh]
    · simp only [hk, false_and, false_or]
      constructor
      · rintro ⟨h1, ht, hq⟩
        exact ⟨(h.old k hk ht).mp h1, ht, hq⟩
      · rintro ⟨h1, ht, hq⟩
        exact ⟨(h.old k hk ht).mpr h1, ht, hq⟩
  by_cases hc : taken ∧ q L
  · rw [if_pos hc]
    have heq : (tableLinks u).filter (fun k => (u.links k).target = x ∧ q (u.links k)) =
        insert s.linkCount
          ((tableLinks s).filter fun k => (s.links k).target = x ∧ q (s.links k)) := by
      ext k
      rw [hmem, Finset.mem_insert]
      simp [hc]
    rw [heq, Finset.card_insert_of_notMem]
    exact fun hm => h.fresh (Finset.mem_filter.mp hm).1
  · rw [if_neg hc, add_zero]
    congr 1
    ext k
    rw [hmem]
    simp [hc]

/-- A new link `l` to `x` with the record `L`, its count, and what a merge loses on the way. -/
structure Counted (s u : State) (x l : ℕ) (L : Link) (losses : List (ListName × ℕ)) : Prop where
  links : ∀ k, u.links k = if k = l then L else s.links k
  target : L.target = x
  table : ∀ y, (u.objects y).links = (s.objects y).links
  objectCount : u.objectCount = s.objectCount
  linkCount : u.linkCount = s.linkCount
  claims : u.claims = s.claims
  which : (u.objects x).which = (s.objects x).which
  count : ∀ b, (u.objects x).count b =
    (s.objects x).count b + if L.phantomized = false ∧ L.which = b then 1 else 0
  count2 : (u.objects x).count2 = (s.objects x).count2 + if L.phantomized = true then 1 else 0
  curated : curation u x + counted x losses = curation s x
  collect : occurrences u .collect x + collected x losses = occurrences s .collect x

/-- What the lists lose when `object_set` merges collectors. -/
def setLosses (w : World) (obj x : ℕ) : List (ListName × ℕ) :=
  if (w.heap.objects obj).phantomized then lost w.listAdds (cededBy w.heap obj x) else []

theorem objectSetLabel_counted {w : World} (h : Collectors w.heap) {obj x l : ℕ}
    (hl : w.heap.links l = { src := obj, target := x }) :
    ∃ L, Counted w.heap (objectSetLabel w obj x l).heap x l L (setLosses w obj x) := by
  unfold objectSetLabel setLosses
  by_cases hp : (w.heap.objects obj).phantomized = true
  · rw [if_pos hp, if_pos hp]
    obtain ⟨hsame, hcur, hcol⟩ := objectMergeCollectors_loses h obj x x
    generalize (objectMergeCollectors w obj x).1 = w1 at hsame hcur hcol ⊢
    dsimp only [World.on]
    have hcheck := check_spares (x := x) w1.heap ((w1.heap.objects obj).collector ≠ none)
      (.assertFailed .setCollector)
    generalize w1.heap.check ((w1.heap.objects obj).collector ≠ none)
      (.assertFailed .setCollector) = s2 at hcheck ⊢
    have h2 := hsame.trans hcheck.1
    refine ⟨{ src := obj, target := x, phantomized := true }, ?_, rfl, fun y => ?_, h2.objectCount,
      h2.linkCount, h2.claims, ?_, fun b => ?_, ?_, ?_, ?_⟩
    · intro k
      rw [State.modifyLink_links, State.modifyObject_links, h2.links, hl]
    · rw [State.modifyLink_objects, State.modifyObject_objects]
      split_ifs with hy
      · rw [hy]
        exact h2.table x
      · exact h2.table y
    · rw [State.modifyLink_objects, State.modifyObject_objects_self]
      exact h2.which x
    · rw [State.modifyLink_objects, State.modifyObject_objects_self]
      simp [h2.count]
    · rw [State.modifyLink_objects, State.modifyObject_objects_self]
      simp [h2.count2]
    · exact (congrArg (· + _) hcheck.2.curation).trans hcur
    · exact (congrArg (· + _) (hcheck.2 .collect)).trans hcol
  · rw [if_neg hp, if_neg hp]
    dsimp only [World.on]
    generalize (if x = obj then !(w.heap.objects x).which
      else if (w.heap.objects x).links.size = 0 then (w.heap.objects x).which
      else !(w.heap.objects x).which) = b
    refine ⟨{ src := obj, target := x, which := b }, ?_, rfl, fun y => ?_, rfl, rfl, rfl, ?_,
      fun d => ?_, ?_, ?_, ?_⟩
    · intro k
      rw [State.modifyObject_links, State.modifyLink_links, hl]
    · rw [State.modifyObject_objects, State.modifyLink_objects]
      split_ifs with hy
      · rw [hy]
      · rfl
    · rw [State.modifyObject_objects_self, State.modifyLink_objects]
    · rw [State.modifyObject_objects_self, State.modifyLink_objects]
      by_cases hd : b = d
      · simp [hd]
      · simp [hd, Function.update_of_ne (Ne.symm hd)]
    · rw [State.modifyObject_objects_self, State.modifyLink_objects]
      simp
    · simp only [counted, List.countP_nil, Nat.cast_zero, add_zero]
      rfl
    · simp only [collected, List.countP_nil, Nat.cast_zero, add_zero]
      rfl

/-- The heap once `hashtable_add` has returned. -/
theorem hashtableAdd_linked {w : World} (h : Accounted w.heap) {obj x : ℕ} (f : ℕ)
    (hlive : Live w.heap obj)
    (hold : ∀ k, (w.heap.objects obj).links.get f = some k → (w.heap.links k).target ≠ x)
    {w1 : World}
    (hw : w1 = hashtableAdd { w with heap := (linkCreate w.heap obj x).1 } obj f w.heap.linkCount) :
    Collectors w1.heap ∧ w1.heap.links w.heap.linkCount = { src := obj, target := x } ∧
    (∀ k, k ≠ w.heap.linkCount → w1.heap.links k = w.heap.links k) ∧
    (w.heap.linkCount ∈ tableLinks w1.heap ↔ w.tableAdds 0 = .ok) ∧
    (∀ k, k ≠ w.heap.linkCount → (w.heap.links k).target = x →
      (k ∈ tableLinks w1.heap ↔ k ∈ tableLinks w.heap)) ∧
    (∀ y, { w1.heap.objects y with links := .new } = { w.heap.objects y with links := .new }) ∧
    w1.heap.collectors = w.heap.collectors ∧ w1.heap.numCollector = w.heap.numCollector ∧
    w1.heap.claims = w.heap.claims ∧ w1.listAdds = w.listAdds := by
  have hfresh : ∀ y, w.heap.linkCount ∉ (w.heap.objects y).links.values :=
    fun y hm => Nat.lt_irrefl _ (h.tables.owned hm).1
  cases hst : w.tableAdds 0 with
  | ok =>
    have heq : w1.heap = Acid.linkAdded w.heap obj f x := by
      rw [hw, hashtableAdd]
      simp only [hst]
      rfl
    have hadd := Sound.linkAdded (x := x) h f hlive
    have hobj := linkAdded_objects w.heap obj f x
    rw [heq]
    refine ⟨hadd.collectors, ?_, ?_, ?_, ?_, ?_, rfl, rfl, rfl, ?_⟩
    · rw [linkAdded_links, if_pos rfl]
    · intro k hk
      rw [linkAdded_links, if_neg hk]
    · refine ⟨fun _ => rfl, fun _ => hadd.mem_tableLinks.mpr ⟨obj, ?_⟩⟩
      rw [hobj, if_pos rfl]
      exact (HashTable.mem_values_add (h.tables.nodup obj) f _ _).mpr (.inl rfl)
    · intro k hk ht
      rw [hadd.mem_tableLinks, Sound.mem_tableLinks h]
      constructor
      · rintro ⟨y, hy⟩
        rw [hobj] at hy
        split_ifs at hy with hyo
        · rcases (HashTable.mem_values_add (h.tables.nodup obj) f _ _).mp hy with hk' | ⟨hk', _⟩
          · exact absurd hk' hk
          · exact ⟨obj, hk'⟩
        · exact ⟨y, hy⟩
      · rintro ⟨y, hy⟩
        refine ⟨y, ?_⟩
        rw [hobj]
        split_ifs with hyo
        · subst hyo
          exact (HashTable.mem_values_add (h.tables.nodup y) f _ _).mpr
            (.inr ⟨hy, fun hg => hold k hg ht⟩)
        · exact hy
    · intro y
      rw [hobj]
      split_ifs with hyo
      · rw [hyo]
      · rfl
    · rw [hw]
      rfl
  | errAlloc =>
    have heq : w1.heap = (linkCreate w.heap obj x).1 := by
      rw [hw, hashtableAdd]
      simp only [hst]
    have hcreate := Sound.linkCreate h obj x
    rw [heq]
    have hlinks : ∀ k, (linkCreate w.heap obj x).1.links k =
        if k = w.heap.linkCount then { src := obj, target := x } else w.heap.links k := by
      intro k
      simp [linkCreate, Function.update_apply]
    refine ⟨hcreate.collectors, ?_, ?_, ?_, ?_, fun _ => rfl, rfl, rfl, rfl, ?_⟩
    · rw [hlinks, if_pos rfl]
    · intro k hk
      rw [hlinks, if_neg hk]
    · refine ⟨fun hm => ?_, fun hs => by cases hs⟩
      obtain ⟨y, hy⟩ := hcreate.mem_tableLinks.mp hm
      exact absurd hy (hfresh y)
    · intro k _ _
      rw [hcreate.mem_tableLinks, Sound.mem_tableLinks h]
      rfl
    · rw [hw]
      rfl

theorem cededBy_congr {s s' : State} (hc : s'.collectors = s.collectors)
    (hn : s'.numCollector = s.numCollector) {obj x : ℕ}
    (hcol : ∀ y, (s'.objects y).collector = (s.objects y).collector) :
    cededBy s' obj x = cededBy s obj x := by
  have hupdate : collectorUpdate s' = collectorUpdate s :=
    funext (collectorUpdate_congr hn (forward_eq_of_collectors hc))
  have hceded : ∀ c, ceded s' c listNames = ceded s c listNames := by
    intro c
    unfold ceded State.safelist
    rw [hc]
  unfold cededBy
  rw [hcol, hcol, hupdate]
  simp only [hceded]

/-- The counts of the referent still agree exactly when the table has taken the new link and no
list that a merge hands over has lost the referent. -/
theorem objectSetReferent_agrees {w : World} (h : Accounted w.heap) {obj f x : ℕ}
    (hlive : Live w.heap obj)
    (hold : ∀ k, (w.heap.objects obj).links.get f = some k → (w.heap.links k).target ≠ x) :
    CountsAgree (objectSetReferent w obj f x).heap x ↔
      w.tableAdds 0 = .ok ∧ counted x (setLosses w obj x) = 0 := by
  have heq : objectSetReferent w obj f x = objectSetLabel (hashtableAdd { w with
      heap := (linkCreate w.heap obj x).1 } obj f w.heap.linkCount) obj x w.heap.linkCount := rfl
  rw [heq]
  generalize hw : hashtableAdd { w with heap := (linkCreate w.heap obj x).1 } obj f
    w.heap.linkCount = w1
  obtain ⟨hcs, hl, hlinks, hnew, hrest, hobj, hcol, hn, hclaims, hstat⟩ :=
    hashtableAdd_linked h f hlive hold hw.symm
  have hfield : ∀ {α : Type} (p : Object → α), (∀ o, p { o with links := .new } = p o) →
      ∀ y, p (w1.heap.objects y) = p (w.heap.objects y) := by
    intro α p hp y
    rw [← hp, hobj, hp]
  have hlosses : setLosses w1 obj x = setLosses w obj x := by
    unfold setLosses
    rw [hstat, hfield Object.phantomized (fun _ => rfl), cededBy_congr hcol hn
      (hfield Object.collector fun _ => rfl)]
  obtain ⟨L, hc⟩ := objectSetLabel_counted hcs hl
  rw [hlosses] at hc
  generalize (objectSetLabel w1 obj x w.heap.linkCount).heap = u at hc ⊢
  have htables : tableLinks u = tableLinks w1.heap := by
    ext k
    simp only [tableLinks, Finset.mem_filter, Finset.mem_range, InTable, hc.linkCount,
      hc.objectCount, hc.table]
  have hlinked : Linked w.heap u x L (w.tableAdds 0 = .ok) := by
    refine ⟨fun k => ?_, hc.target, fun hm => ?_, by rw [htables, hnew], fun k hk ht => ?_⟩
    · rw [hc.links]
      split_ifs with hk
      · rfl
      · exact hlinks k hk
    · obtain ⟨y, hy⟩ := (Sound.mem_tableLinks h).mp hm
      exact Nat.lt_irrefl _ (h.tables.owned hy).1
    · rw [htables, hrest k hk ht]
  have hlabelled : ∀ b, labelledLinks u x b = labelledLinks w.heap x b +
      if w.tableAdds 0 = .ok ∧ L.phantomized = false ∧ L.which = b then 1 else 0 :=
    fun b => hlinked.card fun lk => lk.phantomized = false ∧ lk.which = b
  have hphantom : phantomLinks u x = phantomLinks w.heap x +
      if w.tableAdds 0 = .ok ∧ L.phantomized = true then 1 else 0 :=
    hlinked.card fun lk => lk.phantomized = true
  have hagree := countsAgree_of_accounted h x
  have hwhich : (u.objects x).which = (w.heap.objects x).which :=
    hc.which.trans (hfield Object.which (fun _ => rfl) x)
  have hcount := fun b => (hc.count b).trans (congrArg (· + _)
    (congrFun (hfield Object.count (fun _ => rfl) x) b))
  have hcount2 := hc.count2.trans (congrArg (· + _) (hfield Object.count2 (fun _ => rfl) x))
  have hcur : curation w1.heap x = curation w.heap x ∧
      occurrences w1.heap .collect x = occurrences w.heap .collect x := by
    have hocc : ∀ n, occurrences w1.heap n x = occurrences w.heap n x := by
      intro n
      apply occurrences_congr hn
      intro r
      rw [State.safelist, State.safelist, hcol]
    exact ⟨SameLists.curation hocc, hocc .collect⟩
  have hcurated := hc.curated
  have hcollect := hc.collect
  rw [hcur.1] at hcurated
  rw [hcur.2] at hcollect
  have hle := collected_le x (setLosses w obj x)
  have hside : ∀ b, sideRefs u x b +
      (if b = (w.heap.objects x).which then (collected x (setLosses w obj x) : ℤ) else 0) =
        sideRefs w.heap x b := by
    intro b
    rw [sideRefs, sideRefs, hwhich, hc.claims, hclaims]
    split_ifs
    · omega
    · rfl
  constructor
  · rintro ⟨h1, h2⟩
    have hs2 := hagree.count2
    rw [hcount2, hphantom] at h2
    cases hp : L.phantomized with
    | true =>
      rw [hp] at h2
      by_cases hok : w.tableAdds 0 = .ok
      · refine ⟨hok, ?_⟩
        simp only [hok, and_self, if_true] at h2
        push_cast at h2
        omega
      · simp only [hok, false_and, if_false, if_true] at h2
        push_cast at h2
        omega
    | false =>
      have hb := h1 L.which
      have hsb := hagree.count L.which
      have hsideb := hside L.which
      rw [hcount, hlabelled] at hb
      rw [hp] at h2 hb
      simp only [Bool.false_eq_true, and_false, if_false, if_true, add_zero, and_true] at h2 hb
      by_cases hok : w.tableAdds 0 = .ok
      · exact ⟨hok, by omega⟩
      · simp only [hok, if_false, add_zero] at hb
        split_ifs at hsideb <;> omega
  · rintro ⟨hok, hzero⟩
    constructor
    · intro b
      have hsideb := hside b
      have hzero' : collected x (setLosses w obj x) = 0 := by omega
      rw [hzero'] at hsideb
      rw [hcount, hlabelled, hagree.count, ← hsideb]
      simp only [hok, true_and]
      push_cast
      split_ifs <;> omega
    · rw [hcount2, hphantom, hagree.count2, ← hcurated, hzero]
      simp only [hok, true_and]
      push_cast
      split_ifs <;> omega

theorem objectSetReferent_links {w : World} (h : Accounted w.heap) {obj f x : ℕ}
    (hlive : Live w.heap obj)
    (hold : ∀ k, (w.heap.objects obj).links.get f = some k → (w.heap.links k).target ≠ x) {k : ℕ}
    (hk : k ≠ w.heap.linkCount) :
    (objectSetReferent w obj f x).heap.links k = w.heap.links k := by
  obtain ⟨hcs, hl, hlinks, _⟩ := hashtableAdd_linked h f hlive hold rfl
  obtain ⟨L, hc⟩ := objectSetLabel_counted hcs hl
  have hset := hc.links k
  rw [if_neg hk] at hset
  exact hset.trans (hlinks k hk)

theorem counted_eq_zero (x : ℕ) (ps : List (ListName × ℕ)) :
    counted x ps = 0 ↔ ∀ n, n ≠ .rebuild → (n, x) ∉ ps := by
  rw [counted, List.countP_eq_zero]
  constructor
  · intro h n hn hm
    exact h (n, x) hm (by simp [hn])
  · rintro h ⟨n, y⟩ hm hp
    simp only [decide_eq_true_eq] at hp
    exact h n hp.1 (hp.2 ▸ hm)

theorem objectSet_agrees {w : World} (h : Accounted w.heap) {obj : ℕ} (f x : ℕ)
    (hlive : Live w.heap obj) :
    CountsAgree (objectSet w obj f (some x)).heap x ↔
      (∃ l, (w.heap.objects obj).links.get f = some l ∧ (w.heap.links l).target = x) ∨
      (w.tableAdds 0 = .ok ∧ ∀ n, n ≠ .rebuild → (n, x) ∉ setLosses w obj x) := by
  rw [← counted_eq_zero]
  unfold objectSet
  dsimp only
  cases hget : (w.heap.objects obj).links.get f with
  | none =>
    rw [objectSetReferent_agrees h hlive fun k hk => by rw [hget] at hk; cases hk]
    simp
  | some l =>
    dsimp only
    by_cases ht : (w.heap.links l).target = x
    · rw [if_pos ht]
      exact ⟨fun _ => .inl ⟨l, rfl, ht⟩, fun _ => countsAgree_of_accounted h x⟩
    · rw [if_neg ht]
      have hold : ∀ k, (w.heap.objects obj).links.get f = some k →
          (w.heap.links k).target ≠ x := by
        intro k hk
        rw [hget] at hk
        cases hk
        exact ht
      have hl : l < w.heap.linkCount :=
        (h.tables.owned ((HashTable.mem_values _ l).mpr
          ⟨f, (HashTable.get_eq_some _ f l).mp hget⟩)).1
      have hne : x ≠ ((objectSetReferent w obj f x).heap.links l).target := by
        rw [objectSetReferent_links h hlive hold (Nat.ne_of_lt hl)]
        exact Ne.symm ht
      rw [(linkDec_spares hne).countsAgree, objectSetReferent_agrees h hlive hold]
      simp [ht]

/-- Each of the four functions keeps its account exactly when the containers take what it adds:
`object_set` also where the field leads to the referent already, or where only other objects
or rebuild lists suffer. -/
theorem statuses_keepAccounts {κ : Type} [DecidableEq κ] (id : κ → ℕ) :
    (∀ w : World, (∀ c, (w.heap.collectors c).Stored) → ∀ r x,
      (∀ c, ((safelistAdd w r x).heap.collectors c).Stored) ↔ w.listAdds 0 = .ok) ∧
    (∀ n p i, TaskPool.Accounted n p → i < n → (p.threads i).starting ≠ none → ∀ status,
      (taskStartEnqueue p i status).taskCount = TaskPool.pending n (taskStartEnqueue p i status) ↔
        status = .ok) ∧
    (∀ (w : World) obj, Accounted w.heap → Live w.heap obj → ∀ f x,
      CountsAgree (objectSet w obj f (some x)).heap x ↔
        (∃ l, (w.heap.objects obj).links.get f = some l ∧ (w.heap.links l).target = x) ∨
        (w.tableAdds 0 = .ok ∧ ∀ n, n ≠ .rebuild → (n, x) ∉ setLosses w obj x)) ∧
    ∀ (s : Locker.Thread κ) (locks : List (Option κ)), locks.length ≤ 4 → ∀ status,
      (∃ s', lockerStart id s locks status = some s' ∧
        s'.hold = (s.plus (Locker.lockSet id locks)).hold ∧
        s'.stack = Locker.lockSet id locks :: s.stack) ↔ status = .ok :=
  ⟨fun _ h r x => safelistAdd_stored h r x,
    fun _ _ _ h hi hs status => taskStartEnqueue_count h hi hs status,
    fun _ _ h hlive f x => objectSet_agrees h f x hlive,
    fun s _ h status => lockerStart_stack id s h status⟩

/-- Two objects in the classes of different collectors, the first of them phantomized. -/
def halfPhantom : List Action := [.initStrong false, .set 0 0 (some 0), .initStrong false,
  .set 1 0 (some 1), .decStrong 0, .decStrong 1, .enter 0 0, .iterate 0 0 .merged,
  .iterate 0 0 .collect]

/-- The link between them merges the collectors. Lists that refuse what the merge adds to them
leave the referent's account alone, a table that refuses the link does not. -/
theorem statuses_keepAccounts_halfPhantom :
    CountsAgree (objectSet ⟨replay initial halfPhantom, fun _ => .errAlloc, fun _ => .ok,
      fun _ => .ok⟩ 0 1 (some 1)).heap 1 ∧
    ¬ CountsAgree (objectSet ⟨replay initial halfPhantom, fun _ => .ok, fun _ => .ok,
      fun _ => .errAlloc⟩ 0 1 (some 1)).heap 1 := by
  have run : Run anyStep initial (replay initial halfPhantom) :=
    Run.replay (fun _ _ _ => trivial) .start
      (show replayable (fun _ _ => true) initial halfPhantom = true by decide +kernel)
  have hlive : Live (replay initial halfPhantom) 0 := by constructor <;> decide +kernel
  have hkeeps := (statuses_keepAccounts (κ := ℕ) fun n => n).2.2.1
  constructor
  · refine (hkeeps ⟨replay initial halfPhantom, fun _ => .errAlloc, fun _ => .ok, fun _ => .ok⟩ 0
      run.accounted hlive 1 1).mpr (.inr ⟨rfl, fun n _ => ?_⟩)
    cases n <;> decide +kernel
  · intro hagree
    rcases (hkeeps ⟨replay initial halfPhantom, fun _ => .ok, fun _ => .ok, fun _ => .errAlloc⟩ 0
      run.accounted hlive 1 1).mp hagree with ⟨l, hl, _⟩ | ⟨hok, _⟩
    · have hnone : ((replay initial halfPhantom).objects 0).links.get 1 = none := by decide +kernel
      exact Option.some_ne_none l (hl.symm.trans hnone)
    · cases hok

/-- The first collector's collect list does not take an object. -/
theorem safelistAdd_not_stored : ¬ ∀ w : World, (∀ c, (w.heap.collectors c).Stored) → ∀ r x,
    ∀ c, ((safelistAdd w r x).heap.collectors c).Stored := by
  intro h
  have hnew : ∀ c, ((collectorCreate initial).1.collectors c).Stored := by
    intro c
    have hc : (collectorCreate initial).1.collectors c = {} := by simp [collectorCreate, initial]
    rw [hc]
    rfl
  have hs := h ⟨(collectorCreate initial).1, fun _ => .errAlloc, fun _ => .ok, fun _ => .ok⟩ hnew
    (0, .collect) 0
  cases (safelistAdd_stored hnew (0, .collect) 0).mp hs

end Acid.CollectionStatus

import Acid.Interleaving
import Acid.Accounting

set_option autoImplicit false

/-!
# `object_phantomize_node`, section by section

Between the snapshot of the links and the section of each of them the mutator may
set fields of the object. A link that it releases there is released once more.
-/
namespace Acid
open PointerForest Tally

/-- A well-formed heap with exact accounts. -/
def Accounted (s : State) : Prop := Sound s { refs := tableLinks s }

theorem Run.accounted {s : State} (run : Run anyStep initial s) : Accounted s := by
  have h := run.anySound.weaken (K := ∅) (S := ∅) (Set.empty_subset _) (Set.empty_subset _)
  exact h

/-- The local variables `phantomize` and `phantoms` of the call, and the heap around it. -/
structure PhantomizeWindow where
  heap : State
  phantomize : Bool
  phantoms : List ℕ

/-- The section up to the first release of the lock. -/
def phantomizeSection (s : State) (obj : ℕ) : PhantomizeWindow :=
  let s := objectUpdateCollector s obj
  let s := s.modifyObject obj fun o =>
    { o with count := Function.update o.count o.which (o.count o.which - 1) }
  let s := s.check (0 ≤ (s.objects obj).count (s.objects obj).which) (.assertFailed .phantomizeCount)
  if 0 < (s.objects obj).count (s.objects obj).which then ⟨s, false, []⟩
  else
    let s := phantomizeFlip s obj
    if (s.objects obj).phantomized then ⟨s, false, []⟩
    else
      let s := phantomizeStart s obj
      ⟨s, true, (s.objects obj).links.values⟩

/-- One section for each link of the snapshot, and whole `object_set` calls on `obj` with a
field offset and a referent. -/
def phantomizing (obj : ℕ) : Sectioned PhantomizeWindow (ℕ × Option ℕ) where
  advance w := match w.phantoms with
    | [] => none
    | l :: ls => some { w with heap := phantomizeSnapshot obj w.heap l, phantoms := ls }
  mayCall w e := ∀ x, e.2 = some x → InUse w.heap x
  call w e := { w with heap := objectSet w.heap obj e.1 e.2 }

/-- The last section. -/
def phantomizeComplete (obj : ℕ) (w : PhantomizeWindow) : State :=
  if w.phantomize then w.heap.modifyObject obj fun o => { o with phantomizationComplete := true }
  else w.heap

theorem phantomizing_rest (obj : ℕ) (w : PhantomizeWindow) :
    (phantomizing obj).rest w.phantoms.length w =
      { w with heap := w.phantoms.foldl (phantomizeSnapshot obj) w.heap, phantoms := [] } := by
  obtain ⟨s, p, ls⟩ := w
  induction ls generalizing s with
  | nil => rfl
  | cons l ls ih => exact ih (phantomizeSnapshot obj s l)

/-- Without calls in between, the sections are the whole of `object_phantomize_node`. -/
theorem objectPhantomizeNode_sections (s : State) (obj : ℕ) :
    objectPhantomizeNode s obj = phantomizeComplete obj ((phantomizing obj).rest
      (phantomizeSection s obj).phantoms.length (phantomizeSection s obj)) := by
  rw [phantomizing_rest, objectPhantomizeNode_eq]
  unfold phantomizeSection
  dsimp only
  split_ifs
  · rfl
  · rfl
  · rw [objectPhantomizeLinks_eq, phantomizeStart_table]
    rfl

/-- The accounts of a heap while the call on `obj` holds the phantom count of its list. -/
structure Accounts (s : State) (obj : ℕ) : Prop where
  count : ∀ x b, (s.objects x).count b = labelledLinks s x b + sideRefs s x b
  count2 : ∀ x, (s.objects x).count2 = phantomLinks s x + curation s x + if x = obj then 1 else 0
  nonneg : ∀ x, (∀ b, 0 ≤ (s.objects x).count b) ∧ 0 ≤ (s.objects x).count2
  faults : ∀ a : Assertion, a.negative → Event.assertFailed a ∉ s.trace

theorem Sound.accounts {s : State} {obj c : ℕ}
    (h : Sound s { refs := tableLinks s, curated := [(obj, c)] }) : Accounts s obj where
  count x b := by
    have hc := h.balance.count x b
    rw [strongRefs, tally_eq_card] at hc
    simpa [labelledLinks] using hc
  count2 x := by
    have hc := h.balance.count2 x
    rw [phantomRefs, tally_eq_card] at hc
    have hone : [obj].count x = if x = obj then 1 else 0 := by
      by_cases hx : x = obj
      · simp [hx]
      · simp [hx, Ne.symm hx]
    simpa [phantomLinks, hone] using hc
  nonneg x := ⟨h.balance.count_nonneg x, h.balance.count2_nonneg x⟩
  faults := h.deletes.faults

theorem phantomizeStart_graph (s : State) (obj : ℕ) : SameGraph s (phantomizeStart s obj) :=
  ((modifyObject_graph s obj rfl rfl).trans (check_frame _ _ _).graph).trans
    (modifyObject_graph _ obj rfl rfl)

theorem phantomizeFlip_graph (s : State) (obj : ℕ) : SameGraph s (phantomizeFlip s obj) := by
  unfold phantomizeFlip
  split_ifs
  · exact modifyObject_graph s obj rfl rfl
  · exact (Frame.refl s).graph

namespace Sound
variable {s : State} {obj c : ℕ}

/-- The first section gives the strong count of the list back, and keeps the phantom count. -/
theorem phantomizeSection (h : Sound s {
      refs := tableLinks s
      strong := [(obj, (s.objects obj).which)]
      curated := [(obj, c)] }) :
    Sound (Acid.phantomizeSection s obj).heap
      { refs := tableLinks (Acid.phantomizeSection s obj).heap, curated := [(obj, c)] } := by
  have h1 := h.updateCollector (x := obj)
  have hf1 := objectUpdateCollector_frame s obj
  unfold Acid.phantomizeSection
  generalize objectUpdateCollector s obj = s1 at h1 hf1 ⊢
  rw [← hf1.which, ← tableLinks_congr hf1.graph] at h1
  have h2 := (Sound.takeStrong (L := { refs := tableLinks s1, curated := [(obj, c)] }) h1).weaken
    (le_refl ∅) (Set.empty_subset _)
  have hg2 := modifyObject_graph s1 obj (f := fun o =>
    { o with count := Function.update o.count o.which (o.count o.which - 1) }) rfl rfl
  dsimp only
  generalize hs2 : s1.modifyObject obj (fun o =>
    { o with count := Function.update o.count o.which (o.count o.which - 1) }) = s2 at hg2 ⊢
  replace h2 : Sound s2 { refs := tableLinks s1, curated := [(obj, c)] } := hs2 ▸ h2
  rw [← tableLinks_congr hg2] at h2
  have hnn := h2.balance.count_nonneg obj (s2.objects obj).which
  rw [State.check_pos _ hnn]
  split_ifs with hpos hph
  · exact h2
  · have h3 := h2.phantomizeFlip obj (Set.notMem_empty _) (by omega)
    rwa [← tableLinks_congr (phantomizeFlip_graph s2 obj)] at h3
  · have h3 := h2.phantomizeFlip obj (Set.notMem_empty _) (by omega)
    rw [← tableLinks_congr (phantomizeFlip_graph s2 obj)] at h3
    generalize Acid.phantomizeFlip s2 obj = s3 at h3 ⊢
    dsimp only
    rw [tableLinks_congr (phantomizeStart_graph s3 obj)]
    have h4 := h3.reflag (x := obj) (f := fun o => { o with phantomized := true }) rfl rfl rfl rfl
      rfl (fun b => by simp [sideRefs, State.modifyObject, occurrences])
      fun hx => absurd hx (Set.notMem_empty _)
    exact (h4.check _ rfl).recomplete

theorem recompleted (h : Sound s { refs := tableLinks s, curated := [(obj, c)] }) (b : Bool) :
    Sound (s.modifyObject obj fun o => { o with phantomizationComplete := b })
      { refs := tableLinks (s.modifyObject obj fun o => { o with phantomizationComplete := b })
        curated := [(obj, c)] } := by
  have hg := modifyObject_graph s obj (f := fun o => { o with phantomizationComplete := b }) rfl rfl
  rw [tableLinks_congr hg]
  exact h.recomplete

end Sound

/-- What holds between two sections. A link of the snapshot is in the table or was phantomized,
and a link of the table is in the snapshot or was phantomized. -/
structure PhantomizeWindow.Intact (w : PhantomizeWindow) (obj c : ℕ) : Prop where
  sound : Sound w.heap { refs := tableLinks w.heap, curated := [(obj, c)] }
  created : ∀ l ∈ w.phantoms, l < w.heap.linkCount
  stored : ∀ l ∈ w.phantoms, (w.heap.links l).phantomized = false →
    l ∈ (w.heap.objects obj).links.values
  flagged : w.phantomize = true → (w.heap.objects obj).phantomized = true
  snapped : w.phantomize = true → ∀ l ∈ (w.heap.objects obj).links.values,
    (w.heap.links l).phantomized = true ∨ l ∈ w.phantoms

theorem phantomizeSection_snapshot (s : State) (obj : ℕ) :
    (phantomizeSection s obj).phantomize = false ∧ (phantomizeSection s obj).phantoms = [] ∨
    ((phantomizeSection s obj).heap.objects obj).phantomized = true ∧
      (phantomizeSection s obj).phantoms =
        ((phantomizeSection s obj).heap.objects obj).links.values := by
  unfold phantomizeSection
  dsimp only
  split_ifs
  · exact .inl ⟨rfl, rfl⟩
  · exact .inl ⟨rfl, rfl⟩
  · right
    refine ⟨?_, rfl⟩
    rw [phantomizeStart_objects, if_pos rfl]

theorem intact_section {s : State} {obj c : ℕ} (h : Sound s {
      refs := tableLinks s
      strong := [(obj, (s.objects obj).which)]
      curated := [(obj, c)] }) : (phantomizeSection s obj).Intact obj c := by
  have hs := h.phantomizeSection
  rcases phantomizeSection_snapshot s obj with ⟨hp, hl⟩ | ⟨hp, hl⟩
  · refine ⟨hs, ?_, ?_, ?_, ?_⟩
    · simp [hl]
    · simp [hl]
    · simp [hp]
    · simp [hp]
  · refine ⟨hs, fun l hm => ?_, fun l hm _ => ?_, fun _ => hp, fun _ l hm => .inr ?_⟩
    · rw [hl] at hm
      exact (hs.tables.owned hm).1
    · rwa [← hl]
    · rwa [hl]

namespace PhantomizeWindow.Intact
variable {w : PhantomizeWindow} {obj c : ℕ}

theorem link {l : ℕ} {ls : List ℕ} (h : w.Intact obj c) (hl : w.phantoms = l :: ls) :
    Intact { w with heap := phantomizeSnapshot obj w.heap l, phantoms := ls } obj c := by
  have hf := phantomizeSnapshot_frame obj w.heap l
  have hmem : l ∈ w.phantoms := hl ▸ List.mem_cons_self ..
  have htail : ∀ k ∈ ls, k ∈ w.phantoms := fun k hk => hl ▸ List.mem_cons_of_mem _ hk
  have hlinks := phantomizeSnapshot_links w.heap l
  have hkeeps : ∀ k, (w.heap.links k).phantomized = true →
      ((phantomizeSnapshot obj w.heap l).links k).phantomized = true := by
    intro k hk
    rw [hlinks]
    split_ifs
    · rfl
    · exact hk
  refine ⟨?_, ?_, ?_, ?_, ?_⟩
  · dsimp only
    rw [tableLinks_congr hf.graph]
    by_cases hp : (w.heap.links l).phantomized = true
    · have heq : phantomizeSnapshot obj w.heap l =
          w.heap.check ((w.heap.objects obj).phantomized = true)
            (.assertFailed .phantomizeObject) := by
        unfold phantomizeSnapshot
        dsimp only
        rw [State.check_links, if_pos hp]
      rw [heq]
      exact h.sound.check _ rfl
    · have hin := h.stored l hmem (by simpa using hp)
      apply h.sound.phantomizeSnapshot
      · exact h.sound.mem_tableLinks.mpr ⟨obj, hin⟩
      · rw [(h.sound.tables.owned hin).2]
        exact h.sound.live_of_curated (List.mem_singleton_self _)
  · intro k hk
    exact (h.created k (htail k hk)).trans_eq hf.linkCount.symm
  · intro k hk hp
    rw [hf.table]
    apply h.stored k (htail k hk)
    by_contra hn
    rw [hkeeps k (by simpa using hn)] at hp
    cases hp
  · intro hp
    exact (hf.phantomized obj).trans (h.flagged hp)
  · intro hp k hk
    rw [hf.table] at hk
    rcases h.snapped hp k hk with hk | hk
    · exact .inl (hkeeps k hk)
    · rw [hl, List.mem_cons] at hk
      rcases hk with rfl | hk
      · left
        rw [hlinks, if_pos rfl]
      · exact .inr hk

end PhantomizeWindow.Intact

/-- No call releases a link of the snapshot before its section has phantomized it. -/
def KeepsSnapshot (obj : ℕ) (w : PhantomizeWindow) : Option (ℕ × Option ℕ) → Prop
  | none => True
  | some (f, r) => ∀ l ∈ w.phantoms, (w.heap.objects obj).links.get f = some l →
      (w.heap.links l).phantomized = true ∨ r = some (w.heap.links l).target

namespace PhantomizeWindow.Intact
variable {w : PhantomizeWindow} {obj c : ℕ}

theorem edit {e : ℕ × Option ℕ} (h : w.Intact obj c) (he : (phantomizing obj).mayCall w e)
    (hk : KeepsSnapshot obj w (some e)) : Intact ((phantomizing obj).call w e) obj c := by
  obtain ⟨f, r⟩ := e
  have hlive := h.sound.live_of_curated (List.mem_singleton_self _)
  have hnodup := h.sound.tables.nodup obj
  have hsound : Sound (objectSet w.heap obj f r)
      { refs := tableLinks (objectSet w.heap obj f r), curated := [(obj, c)] } :=
    h.sound.set (L := { refs := tableLinks w.heap, curated := [(obj, c)] }) rfl hlive he
      (fun _ _ _ hm => absurd hm (Set.notMem_empty _)) fun _ _ hs => hs.elim
  rcases objectSet_cases w.heap obj f r with ⟨rfl, hf, hlinks⟩ | ⟨heq, _⟩ |
    ⟨x, rfl, hf, hne, hlinks⟩
  · have htable : ∀ l, l ∈ ((objectSet w.heap obj f none).objects obj).links.values ↔
        l ∈ (w.heap.objects obj).links.values ∧ (w.heap.objects obj).links.get f ≠ some l := by
      intro l
      rw [hf.table, State.modifyObject_objects_self]
      exact HashTable.mem_values_remove hnodup f l
    have hph : ((objectSet w.heap obj f none).objects obj).phantomized =
        (w.heap.objects obj).phantomized := by
      rw [hf.phantomized, State.modifyObject_objects_self]
    refine ⟨hsound, fun l hl => ?_, fun l hl hp => ?_, fun hp => ?_, fun hp l hl => ?_⟩
    · exact (h.created l hl).trans_eq hf.linkCount.symm
    · change ((objectSet w.heap obj f none).links l).phantomized = false at hp
      rw [hlinks] at hp
      refine (htable l).mpr ⟨h.stored l hl hp, fun hget => ?_⟩
      rcases hk l hl hget with hold | hnone
      · rw [hp] at hold
        cases hold
      · cases hnone
    · exact hph.trans (h.flagged hp)
    · change ((objectSet w.heap obj f none).links l).phantomized = true ∨ _
      rw [hlinks]
      exact h.snapped hp l ((htable l).mp hl).1
  · have hcall : (phantomizing obj).call w (f, r) = w := by
      change { w with heap := objectSet w.heap obj f r } = w
      rw [heq]
    rw [hcall]
    exact h
  · have htable : ∀ l, l ∈ ((objectSet w.heap obj f (some x)).objects obj).links.values ↔
        l = w.heap.linkCount ∨
          (l ∈ (w.heap.objects obj).links.values ∧ (w.heap.objects obj).links.get f ≠ some l) := by
      intro l
      rw [hf.table, linkAdded_objects, if_pos rfl]
      exact HashTable.mem_values_add hnodup f w.heap.linkCount l
    have hph : ((objectSet w.heap obj f (some x)).objects obj).phantomized =
        (w.heap.objects obj).phantomized := by
      rw [hf.phantomized, linkAdded_objects, if_pos rfl]
    have hold : ∀ l, l < w.heap.linkCount →
        (objectSet w.heap obj f (some x)).links l = w.heap.links l := by
      intro l hl
      rw [hlinks, if_neg hl.ne]
    refine ⟨hsound, fun l hl => ?_, fun l hl hp => ?_, fun hp => ?_, fun hp l hl => ?_⟩
    · have hcount : (objectSet w.heap obj f (some x)).linkCount = w.heap.linkCount + 1 :=
        hf.linkCount
      have hlt := h.created l hl
      change l < (objectSet w.heap obj f (some x)).linkCount
      omega
    · change ((objectSet w.heap obj f (some x)).links l).phantomized = false at hp
      rw [hold l (h.created l hl)] at hp
      refine (htable l).mpr (.inr ⟨h.stored l hl hp, fun hget => ?_⟩)
      rcases hk l hl hget with hph' | hsame
      · rw [hp] at hph'
        cases hph'
      · exact hne l hget (Option.some.inj hsame).symm
    · exact hph.trans (h.flagged hp)
    · change ((objectSet w.heap obj f (some x)).links l).phantomized = true ∨ _
      rcases (htable l).mp hl with rfl | ⟨hin, _⟩
      · left
        rw [hlinks, if_pos rfl]
        exact h.flagged hp
      · rw [hold l (h.sound.tables.owned hin).1]
        exact h.snapped hp l hin

theorem complete (h : w.Intact obj c) : Accounts (phantomizeComplete obj w) obj := by
  unfold phantomizeComplete
  split_ifs
  · exact (h.sound.recompleted true).accounts
  · exact h.sound.accounts

end PhantomizeWindow.Intact

theorem Accounted.poll {s : State} (h : Accounted s) {c obj : ℕ} {rest : List ℕ}
    (hd : (s.safelist (c, .collect)).data = obj :: rest) :
    Sound (afterPoll s c .collect obj) {
      refs := tableLinks (afterPoll s c .collect obj)
      strong := [(obj, ((afterPoll s c .collect obj).objects obj).which)]
      curated := [(obj, c)] } := by
  rw [tableLinks_congr (afterPoll_frame s c .collect obj).graph, afterPoll_objects]
  exact (Sound.poll h hd rfl).check _ rfl

/-- Phantomizing `obj` keeps the accounts, whatever is set in it meanwhile, as long as no link
of the snapshot is released before its own section. -/
theorem phantomizeNode_window {s : State} (h : Accounted s) {c obj : ℕ} {rest : List ℕ}
    (hd : (s.safelist (c, .collect)).data = obj :: rest) {w : PhantomizeWindow}
    (run : Interleaving (phantomizing obj) (KeepsSnapshot obj)
      (phantomizeSection (afterPoll s c .collect obj) obj) w) :
    Accounts w.heap obj ∧ Accounts (phantomizeComplete obj w) obj ∧
    (∀ l ∈ w.phantoms, (w.heap.links l).phantomized = false →
      l ∈ (w.heap.objects obj).links.values) ∧
    (w.phantomize = true → w.phantoms = [] → ∀ l ∈ (w.heap.objects obj).links.values,
      (w.heap.links l).phantomized = true) := by
  have hw : w.Intact obj c := by
    apply run.invariant (fun w => w.Intact obj c)
    · exact intact_section (h.poll hd)
    · intro u u' hu hleft _
      cases hl : u.phantoms with
      | nil =>
        simp [phantomizing, hl] at hleft
      | cons l ls =>
        simp only [phantomizing, hl, Option.some.injEq] at hleft
        rw [← hleft]
        exact hu.link hl
    · intro u e hu he hk
      exact hu.edit he hk
  refine ⟨hw.sound.accounts, hw.complete, hw.stored, fun hp hnil l hl => ?_⟩
  rcases hw.snapped hp l hl with hph | hm
  · exact hph
  · rw [hnil] at hm
    cases hm

/-- Objects `2`, `0` and `1` in a chain; the first collector is about to phantomize `0`. -/
def chain : State := replay initial [.initStrong false, .initStrong false, .initStrong false,
  .set 0 0 (some 1), .set 2 0 (some 0), .decStrong 0, .enter 0 0, .iterate 0 0 .merged]

theorem run_chain : Run anyStep initial chain :=
  Run.replay (fun _ _ _ => trivial) .start
    (show replayable (fun _ _ => true) initial [.initStrong false, .initStrong false,
      .initStrong false, .set 0 0 (some 1), .set 2 0 (some 0), .decStrong 0, .enter 0 0,
      .iterate 0 0 .merged] = true by decide +kernel)

def chainSection : PhantomizeWindow := phantomizeSection (afterPoll chain 0 .collect 0) 0

/-- A new field is set in the window. -/
theorem phantomizeNode_window_chain : Accounts (phantomizeComplete 0
    ((phantomizing 0).rest 1 ((phantomizing 0).call chainSection (5, some 2)))) 0 := by
  have hdata : (chain.safelist (0, .collect)).data = 0 :: [] := by decide +kernel
  apply (phantomizeNode_window run_chain.accounted hdata ?_).2.1
  · apply Interleaving.rest (fun _ => trivial)
    apply Interleaving.call .start
    · rintro x ⟨⟩
      exact .inl ⟨false, by decide +kernel⟩
    · intro l _ hget
      have hnone : (chainSection.heap.objects 0).links.get 5 = none := by decide +kernel
      rw [show (phantomizeSection (afterPoll chain 0 .collect 0) 0) = chainSection from rfl,
        hnone] at hget
      cases hget

/-- The only field is cleared in the window, before the section of its link. -/
theorem phantomizeNode_window_released : ¬ ∀ (s : State) (c obj : ℕ) (rest : List ℕ)
    (w : PhantomizeWindow), Accounted s → (s.safelist (c, .collect)).data = obj :: rest →
    Interleaving (phantomizing obj) (fun _ _ => True)
      (phantomizeSection (afterPoll s c .collect obj) obj) w →
    w.phantoms = [] → Accounts (phantomizeComplete obj w) obj := by
  intro hall
  have hrun : Interleaving (phantomizing 0) (fun _ _ => True) chainSection
      ((phantomizing 0).rest 1 ((phantomizing 0).call chainSection (0, none))) := by
    apply Interleaving.rest (fun _ => trivial)
    apply Interleaving.call .start
    · intro x hx
      cases hx
    · trivial
  have h := (hall chain 0 0 [] _ run_chain.accounted (by decide +kernel) hrun (by decide +kernel)).count
    1 false
  revert h
  decide +kernel

end Acid

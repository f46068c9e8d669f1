import Acid.SoundRemoval
import Acid.Fields

set_option autoImplicit false

/-!
# Mutator calls keep a state sound
-/
namespace Acid
open PointerForest Tally

instance (s : State) (l : ℕ) : Decidable (InTable s l) :=
  inferInstanceAs (Decidable (∃ o < s.objectCount, l ∈ (s.objects o).links.values))

/-- The links that hold references between two steps. -/
def tableLinks (s : State) : Finset ℕ := (Finset.range s.linkCount).filter (InTable s)

/-- Some count of the object is not zero. -/
def InUse (s : State) (x : ℕ) : Prop :=
  (∃ b, (s.objects x).count b ≠ 0) ∨ (s.objects x).count2 ≠ 0

namespace Sound
variable {s : State} {L : Ledger}

theorem live_of_entry (h : Sound s L) {o l : ℕ} (hl : l ∈ (s.objects o).links.values) :
    Live s o := by
  by_contra hn
  have he := (h.deletes.dead hn).2.2.2
  rw [HashTable.values, he] at hl
  cases hl

theorem mem_tableLinks (h : Sound s L) {l : ℕ} :
    l ∈ tableLinks s ↔ ∃ o, l ∈ (s.objects o).links.values := by
  rw [tableLinks, Finset.mem_filter, Finset.mem_range]
  constructor
  · rintro ⟨_, o, _, hl⟩
    exact ⟨o, hl⟩
  · rintro ⟨o, hl⟩
    exact ⟨(h.tables.owned hl).1, o, (h.live_of_entry hl).1, hl⟩

theorem live_of_inUse (h : Sound s L) {x : ℕ} (hx : InUse s x) : Live s x := by
  rcases hx with ⟨b, hb⟩ | hx
  · exact h.live_of_count hb
  · exact h.live_of_count2 hx

theorem not_pending_of_inUse (h : Sound s L) {x : ℕ} (hx : InUse s x) :
    ¬ Doomed s L.deleting x := by
  rcases hx with ⟨b, hb⟩ | hx
  · exact h.not_pending_of_count hb
  · exact h.not_pending_of_count2 hx

/-- What a claim reaches is in use. -/
theorem inUse_of_reachable (h : Sound s L) (hL : L.refs = tableLinks s) {x : ℕ}
    (hx : Reachable s x) : InUse s x := by
  obtain ⟨r, hr, hpath⟩ := hx
  induction hpath with
  | refl => exact .inl ⟨_, (h.balance.count_pos_of_claim hr).ne'⟩
  | tail _ hab _ =>
    obtain ⟨l, hl, rfl⟩ := hab
    have hr : l ∈ L.refs := by
      rw [hL]
      exact h.mem_tableLinks.mpr ⟨_, hl⟩
    cases hp : (s.links l).phantomized with
    | false => exact .inl ⟨_, (h.balance.count_pos_of_link hr hp).ne'⟩
    | true => exact .inr (h.balance.count2_pos_of_link hr hp).ne'

/-- A reference in hand becomes an external claim. -/
theorem claim {x : ℕ} (h : Sound s { L with strong := (x, (s.objects x).which) :: L.strong }) :
    Sound (s.addClaim x) L where
  tables := ⟨h.tables.owned, h.tables.nodup⟩
  refs := h.refs
  collectors := h.collectors.congr rfl rfl rfl (fun _ => rfl) (fun _ _ hx => hx) fun _ hm => hm
  balance := by
    refine h.balance.transfer rfl (fun _ _ => ⟨rfl, rfl, rfl⟩) (fun y b => ?_) fun _ => rfl
    have hobj : (s.addClaim x).objects = s.objects := rfl
    have hocc : occurrences (s.addClaim x) .collect y = occurrences s .collect y := rfl
    have hclaims : (s.addClaim x).claims y = if y = x then s.claims x + 1 else s.claims y := by
      simp [State.addClaim, Function.update_apply]
    simp only [sideRefs, hobj, hocc, hclaims]
    by_cases hy : y = x
    · subst y
      by_cases hb : b = (s.objects x).which
      · simp [hb]
        ring
      · simp [hb, Ne.symm hb]
    · simp [hy, Ne.symm hy]
  classes := ⟨h.classes.listed, h.classes.held, h.classes.kept, h.classes.linked⟩
  tasks := h.tasks.congr (fun _ => rfl) rfl fun _ => Iff.rfl
  deletes := by
    have hlive := h.live_of_count h.balance.count_pos_of_hand.ne'
    refine h.deletes.congr rfl (fun _ => rfl) (fun y hy hc ht => ⟨?_, ht⟩) (fun _ => rfl)
      (fun _ _ => ⟨rfl, rfl⟩) (fun _ _ => rfl) (fun _ => rfl) (le_refl _) rfl rfl
    have hne : y ≠ x := by
      rintro rfl
      exact hy hlive
    simpa [State.addClaim, hne] using hc
  settled := h.settled
  moved := h.moved

theorem unclaim {x : ℕ} (h : Sound s L) (hx : 0 < s.claims x) :
    Sound (s.dropClaim x) { L with strong := (x, (s.objects x).which) :: L.strong } where
  tables := ⟨h.tables.owned, h.tables.nodup⟩
  refs := h.refs
  collectors := h.collectors.congr rfl rfl rfl (fun _ => rfl) (fun _ _ hx => hx) fun _ hm => hm
  balance := by
    refine h.balance.transfer rfl (fun _ _ => ⟨rfl, rfl, rfl⟩) (fun y b => ?_) fun _ => rfl
    have hobj : (s.dropClaim x).objects = s.objects := rfl
    have hocc : occurrences (s.dropClaim x) .collect y = occurrences s .collect y := rfl
    have hclaims : (s.dropClaim x).claims y = if y = x then s.claims x - 1 else s.claims y := by
      simp [State.dropClaim, Function.update_apply]
    simp only [sideRefs, hobj, hocc, hclaims]
    by_cases hy : y = x
    · subst y
      by_cases hb : b = (s.objects x).which
      · simp [hb, Nat.cast_sub (Nat.succ_le_of_lt hx)]
        ring
      · simp [hb, Ne.symm hb]
    · simp [hy, Ne.symm hy]
  classes := ⟨h.classes.listed, h.classes.held, h.classes.kept, h.classes.linked⟩
  tasks := h.tasks.congr (fun _ => rfl) rfl fun _ => Iff.rfl
  deletes := by
    refine h.deletes.congr rfl (fun _ => rfl) (fun y hy hc ht => ⟨?_, ht⟩) (fun _ => rfl)
      (fun _ _ => ⟨rfl, rfl⟩) (fun _ _ => rfl) (fun _ => rfl) (le_refl _) rfl rfl
    have hne : y ≠ x := by
      rintro rfl
      omega
    simpa [State.dropClaim, hne] using hc
  settled := h.settled
  moved := h.moved

theorem incStrong {x : ℕ} (h : Sound s L) (hx : InUse s x) :
    Sound ((objectIncStrong s x).addClaim x) L := by
  have h1 : Sound (objectIncStrong s x)
      { L with strong := (x, (s.objects x).which) :: L.strong } :=
    h.giveStrong (h.live_of_inUse hx) (h.not_pending_of_inUse hx) fun _ _ => .inl rfl
  have hw : ((objectIncStrong s x).objects x).which = (s.objects x).which := by
    simp [objectIncStrong]
  rw [← hw] at h1
  exact h1.claim

theorem decStrong {x : ℕ} (h : Sound s L) (hx : 0 < s.claims x) :
    Sound (objectDecStrong (s.dropClaim x) x) L :=
  Sound.dec (h.unclaim hx)

/-- A new object has no references yet. -/
theorem init (h : Sound s L) :
    Sound (objectInit s).1 { L with settled := L.settled \ {s.objectCount} } := by
  have hnot : ¬ Live s s.objectCount := fun hl => Nat.lt_irrefl _ hl.1
  obtain ⟨hc, hc2, hcl, ht⟩ := h.deletes.dead hnot
  have hobj : ∀ y, (objectInit s).1.objects y =
      if y = s.objectCount then {} else s.objects y := by
    intro y
    simp [objectInit, Function.update_apply]
  have hall : ∀ {α : Type} (p : Object → α), p {} = p (s.objects s.objectCount) →
      ∀ y, p ((objectInit s).1.objects y) = p (s.objects y) := by
    intro α p hp y
    rw [hobj]
    split_ifs with hy
    · rw [hp, hy]
    · rfl
  have hcount := hall Object.count (funext fun b => (hc b).symm)
  have hcount2 := hall Object.count2 hc2.symm
  have hentries := hall (fun o => o.links.entries) (HashTable.entries_new.trans ht.symm)
  have hvalues : ∀ y, ((objectInit s).1.objects y).links.values = (s.objects y).links.values := by
    intro y
    rw [HashTable.values, HashTable.values, hentries y]
  have hcol : ∀ y, ((objectInit s).1.objects y).collector = (s.objects y).collector := by
    apply hall Object.collector
    cases hx : (s.objects s.objectCount).collector with
    | none => rfl
    | some c => exact absurd (h.collectors.object_alive hx).1 hnot
  have hfreed : ∀ y, ((objectInit s).1.objects y).freed = (s.objects y).freed := by
    apply hall Object.freed
    cases hx : (s.objects s.objectCount).freed with
    | false => rfl
    | true => exact absurd (h.deletes.freed_lt hx) (Nat.lt_irrefl _)
  have hlive : ∀ y, Live (objectInit s).1 y ↔ Live s y ∨ y = s.objectCount := by
    intro y
    rw [Live, Live, hfreed]
    have hn : (objectInit s).1.objectCount = s.objectCount + 1 := rfl
    rw [hn, Nat.lt_succ_iff_lt_or_eq]
    have hf := hfreed s.objectCount
    rw [hobj, if_pos rfl] at hf
    constructor
    · rintro ⟨h1 | h1, h2⟩
      · exact .inl ⟨h1, h2⟩
      · exact .inr h1
    · rintro (⟨h1, h2⟩ | rfl)
      · exact ⟨.inl h1, h2⟩
      · exact ⟨.inr rfl, hf.symm⟩
  constructor
  · constructor
    · intro o l hl
      rw [hvalues] at hl
      exact h.tables.owned hl
    · intro o
      rw [hvalues]
      exact h.tables.nodup o
  · exact h.refs
  · refine ⟨h.collectors.ranked, h.collectors.forward_alive, ?_, h.collectors.lists,
      h.collectors.empty, ?_, h.collectors.store, h.collectors.counted⟩
    · intro x c hx
      rw [hcol] at hx
      obtain ⟨h1, h2⟩ := h.collectors.object_alive hx
      exact ⟨(hlive x).mpr (.inl h1), h2⟩
    · intro c
      have hnone : ((objectInit s).1.objects s.objectCount).collector = none := by
        rw [hobj, if_pos rfl]
      have hhold : holders (objectInit s).1 c = holders s c := by
        have hsum := tally_range_succ s.objectCount
          fun x => ((objectInit s).1.objects x).collector = some c
        rw [hnone, if_neg (by simp), add_zero] at hsum
        refine hsum.trans (tally_congr fun x _ => ?_)
        rw [hcol]
      rw [hhold]
      exact h.collectors.ref c
  · refine h.balance.transfer rfl (fun _ _ => ⟨rfl, rfl, rfl⟩) (fun y b => ?_) (fun y => ?_)
    · have hside : sideRefs (objectInit s).1 y b = sideRefs s y b := by
        by_cases hy : y = s.objectCount
        · subst y
          have h1 := h.balance.count s.objectCount (s.objects s.objectCount).which
          have h2 : 0 ≤ strongRefs s L.refs s.objectCount (s.objects s.objectCount).which :=
            tally_nonneg _ _
          have h3 := occurrences_nonneg s .collect s.objectCount
          have hz : (s.claims s.objectCount : ℤ) + occurrences s .collect s.objectCount = 0 := by
            rw [sideRefs, if_pos rfl, hc] at h1
            omega
          have hz' : ((objectInit s).1.claims s.objectCount : ℤ) +
              occurrences (objectInit s).1 .collect s.objectCount = 0 := hz
          unfold sideRefs
          rw [hz, hz']
          split_ifs <;> rfl
        · unfold sideRefs
          rw [hobj, if_neg hy]
          rfl
      rw [hcount, hside]
    · rw [hcount2]
      rfl
  · have hcl : Classes (objectInit s).1 L := h.classes.congr rfl rfl hcol fun _ _ => rfl
    exact ⟨hcl.listed, hcl.held, hcl.kept, hcl.linked⟩
  · exact h.tasks.congr (fun _ => rfl) rfl fun _ => Iff.rfl
  · refine ⟨?_, h.deletes.once, ?_, ?_, ?_, ?_, h.deletes.destroyed, h.deletes.destroyed_lt, ?_, ?_,
      h.deletes.faults⟩
    · intro x hx
      obtain ⟨h1, h2, h3⟩ := h.deletes.pending (x := x) hx
      rw [hcount, hcount2]
      exact ⟨(hlive x).mpr (.inl h1), h2, h3⟩
    · intro x hx
      rw [hlive, not_or] at hx
      rw [hcount, hcount2, hentries]
      exact h.deletes.dead hx.1
    · intro x hx
      rw [hfreed] at hx
      exact Nat.lt_succ_of_lt (h.deletes.freed_lt hx)
    · intro x
      rw [hfreed]
      exact h.deletes.requested x
    · intro x
      rw [hfreed]
      exact h.deletes.dtors x
    · exact congrArg (· + 1) h.deletes.world
    · have hsum := tally_range_succ s.objectCount
        fun x => ((objectInit s).1.objects x).freed = true
      have hlast : ¬ ((objectInit s).1.objects s.objectCount).freed = true := by
        rw [hobj, if_pos rfl]
        simp
      rw [if_neg hlast, add_zero] at hsum
      refine h.deletes.collected.trans (Eq.trans ?_ hsum.symm)
      exact (tally_congr fun x _ => by rw [hfreed]).symm
  · intro x hx
    have hne : x ≠ s.objectCount := hx.2
    refine (h.settled x hx.1).congr ?_ (hcount x) (hcount2 x) ?_ ?_ ?_ id
    · intro hl
      exact ((hlive x).mp hl).resolve_right hne
    · rw [hobj, if_neg hne]
    · rw [hobj, if_neg hne]
    · intro _ hn
      rw [hcol]
      exact .inl hn
  · exact h.moved

theorem initStrong (h : Sound s L) (d : Bool) :
    Sound ((((objectInitStrong s).1.modifyObject s.objectCount fun o =>
      { o with dtor := d }).addClaim s.objectCount)) L := by
  have h1 := h.init
  have hlive : Live (objectInit s).1 s.objectCount := by
    refine ⟨Nat.lt_succ_self _, ?_⟩
    simp [objectInit]
  have hnd : ¬ Doomed (objectInit s).1 L.deleting s.objectCount := by
    intro hd
    exact Nat.lt_irrefl _ (h.deletes.pending (x := s.objectCount) hd).1.1
  have h2 := h1.giveStrong (b := ((objectInit s).1.objects s.objectCount).which) hlive hnd
    fun _ hx => absurd rfl hx.2
  have hone : ((objectInitStrong s).1.objects s.objectCount).count
      ((objectInitStrong s).1.objects s.objectCount).which ≠ 0 := by
    simp [objectInitStrong, objectIncStrong, objectInit]
  have h3 : Sound (objectInitStrong s).1
      { L with strong := (s.objectCount, false) :: L.strong } := by
    refine Sound.settle (L := { L with
      strong := (s.objectCount, false) :: L.strong
      settled := L.settled \ {s.objectCount} }) (S := L.settled) ?_ fun y hy => ?_
    · have hw : ((objectInit s).1.objects s.objectCount).which = false := by simp [objectInit]
      have hinc : (objectInitStrong s).1 = (objectInit s).1.modifyObject s.objectCount fun o =>
          { o with count := Function.update o.count false (o.count false + 1) } := by
        simp [objectInitStrong, objectIncStrong, objectInit, State.modifyObject]
      rw [hw] at h2
      rw [hinc]
      exact h2
    · by_cases hyx : y = s.objectCount
      · subst y
        exact .inr fun _ hz => absurd hz hone
      · exact .inl ⟨hy, hyx⟩
  have h4 := h3.reflag (x := s.objectCount) (f := fun o => { o with dtor := d }) rfl rfl rfl rfl
    rfl (fun b => by simp [sideRefs, State.modifyObject, occurrences]) fun _ _ hz => by
      simp [objectInitStrong, objectIncStrong, objectInit] at hz
  apply Sound.claim
  have hw : (((objectInitStrong s).1.modifyObject s.objectCount fun o =>
      { o with dtor := d }).objects s.objectCount).which = false := by
    simp [objectInitStrong, objectIncStrong, objectInit]
  rw [hw]
  exact h4

end Sound

/-- The label that `object_set` gives to a link of an object that is not phantomized. -/
def setWhich (s : State) (obj referent : ℕ) : Bool :=
  if referent = obj then !(s.objects referent).which
  else if (s.objects referent).links.size = 0 then (s.objects referent).which
  else !(s.objects referent).which

theorem objectSetLabel_eq (s : State) (obj referent l : ℕ) :
    objectSetLabel s obj referent l =
      if (s.objects obj).phantomized then
        let s := (objectMergeCollectors s obj referent).1
        let s := s.check ((s.objects obj).collector ≠ none) (.assertFailed .setCollector)
        let s := s.modifyObject referent fun o => { o with count2 := o.count2 + 1 }
        s.modifyLink l fun lk => { lk with phantomized := true }
      else
        let w := setWhich s obj referent
        let s := s.modifyLink l fun lk => { lk with which := w }
        s.modifyObject referent fun o =>
          { o with count := Function.update o.count w (o.count w + 1) } := rfl

namespace Sound
variable {s : State} {L : Ledger}

theorem linkCreate (h : Sound s L) (src target : ℕ) :
    Sound (Acid.linkCreate s src target).1 L := by
  have hsame : ∀ l, l < s.linkCount → (Acid.linkCreate s src target).1.links l = s.links l := by
    intro l hl
    simp [Acid.linkCreate, Nat.ne_of_lt hl]
  constructor
  · constructor
    · intro o l hl
      obtain ⟨h1, h2⟩ := h.tables.owned hl
      rw [hsame l h1]
      exact ⟨Nat.lt_succ_of_lt h1, h2⟩
    · exact h.tables.nodup
  · exact fun l hl => Nat.lt_succ_of_lt (h.refs l hl)
  · exact h.collectors.congr rfl rfl rfl (fun _ => rfl) (fun _ _ hx => hx) fun _ hm => hm
  · refine h.balance.transfer rfl (fun l hl => ?_) (fun _ _ => rfl) fun _ => rfl
    rw [hsame l (h.refs l hl)]
    exact ⟨rfl, rfl, rfl⟩
  · exact h.classes.congr rfl rfl (fun _ => rfl) fun l hl => hsame l (h.refs l hl)
  · exact h.tasks.congr (fun _ => rfl) rfl fun _ => Iff.rfl
  · exact h.deletes.congr rfl (fun _ => rfl) (fun _ _ hc ht => ⟨hc, ht⟩) (fun _ => rfl)
      (fun _ _ => ⟨rfl, rfl⟩) (fun _ _ => rfl) (fun _ => rfl) (le_refl _) rfl rfl
  · exact h.settled
  · exact h.moved

/-- A new link is labelled and counted. On a strict ledger it may be weak only where the
referent has a strong reference already. -/
theorem setLabel {obj x l : ℕ} (h : Sound s L) (hl : l ∉ L.refs) (hlt : l < s.linkCount)
    (hlink : s.links l = { src := obj, target := x }) (ho : Live s obj) (hx : InUse s x)
    (hweak : L.strict → (s.objects obj).phantomized = false →
      setWhich s obj x = (s.objects x).which ∨ (s.objects x).count (s.objects x).which ≠ 0) :
    Sound (objectSetLabel s obj x l) { L with refs := insert l L.refs } := by
  have hlive := h.live_of_inUse hx
  rw [objectSetLabel_eq]
  by_cases hp : (s.objects obj).phantomized = true
  · rw [if_pos hp]
    dsimp only
    have h1 := h.mergeCollectors ho hlive
    have hf1 := objectMergeCollectors_frame s obj x
    have hcount1 := objectMergeCollectors_count s obj x x
    have hclass : obj ∈ L.kept → ∃ c, InClass (objectMergeCollectors s obj x).1 obj c ∧
        InClass (objectMergeCollectors s obj x).1 x c :=
      fun hk => h.merged_class (.inl (h.classes.kept hk))
    generalize (objectMergeCollectors s obj x).1 = s1 at *
    have h2 := h1.check ((s1.objects obj).collector ≠ none) (e := .assertFailed .setCollector) rfl
    have hf2 := hf1.trans (check_frame s1 ((s1.objects obj).collector ≠ none)
      (.assertFailed .setCollector))
    have hobj2 := s1.check_objects ((s1.objects obj).collector ≠ none) (.assertFailed .setCollector)
    have hcs2 := s1.check_collectors ((s1.objects obj).collector ≠ none)
      (.assertFailed .setCollector)
    have hn2 := s1.check_numCollector ((s1.objects obj).collector ≠ none)
      (.assertFailed .setCollector)
    generalize s1.check ((s1.objects obj).collector ≠ none) (.assertFailed .setCollector) = s2 at *
    have hx2 : InUse s2 x := by
      rw [InUse, hobj2, hcount1.1, hcount1.2]
      exact hx
    have h3 := h2.givePhantom (h2.live_of_inUse hx2) (h2.not_pending_of_inUse hx2)
    have hf3 := hf2.trans (modifyObject_frame s2 x (f := fun o =>
      { o with count2 := o.count2 + 1 }) rfl)
    have hin : ∀ {y c}, InClass s1 y c → InClass (s2.modifyObject x fun o =>
        { o with count2 := o.count2 + 1 }) y c := by
      intro y c hi
      refine hi.congr hn2 (forward_eq_of_collectors hcs2) ?_
      rw [State.modifyObject_objects, hobj2]
      split_ifs with hy
      · rw [hy]
      · rfl
    generalize s2.modifyObject x (fun o => { o with count2 := o.count2 + 1 }) = s3 at *
    have h4 := h3.modifyLink (f := fun lk => { lk with phantomized := true }) hl rfl
    have hl4 : (s3.modifyLink l fun lk => { lk with phantomized := true }).links l =
        { src := obj, target := x, phantomized := true } := by
      rw [State.modifyLink_links, if_pos rfl, hf3.links, hlink]
    refine Sound.hold ?_ hl (hlt.trans_eq hf3.linkCount.symm) ?_
    · rw [hl4]
      exact h4
    · intro _ hk
      rw [hl4] at hk ⊢
      obtain ⟨c, hc1, hc2⟩ := hclass hk
      exact ⟨c, (hin hc1).congr rfl rfl rfl, (hin hc2).congr rfl rfl rfl⟩
  · rw [if_neg hp]
    dsimp only
    have hp' : (s.objects obj).phantomized = false := by simpa using hp
    generalize hw : setWhich s obj x = w at *
    have h1 := h.modifyLink (f := fun lk => { lk with which := w }) hl rfl
    have hl1 : (s.modifyLink l fun lk => { lk with which := w }).links l =
        { src := obj, target := x, which := w } := by
      rw [State.modifyLink_links, if_pos rfl, hlink]
    have h2 := h1.giveStrong (x := x) (b := w) hlive (h.not_pending_of_inUse hx)
      fun hk _ => (hweak hk hp').imp id id
    refine Sound.hold ?_ hl hlt ?_
    · change Sound _ (L.inHand ((s.modifyLink l fun lk => { lk with which := w }).links l))
      rw [hl1]
      exact h2
    · intro hph
      change ((s.modifyLink l fun lk => { lk with which := w }).links l).phantomized = true at hph
      rw [hl1] at hph
      cases hph

theorem linkAdded {obj x : ℕ} (h : Sound s L) (f : ℕ) (ho : Live s obj) :
    Sound (Acid.linkAdded s obj f x) L := by
  have h1 := h.linkCreate obj x
  have hfresh : s.linkCount ∉ (s.objects obj).links.values :=
    fun hm => Nat.lt_irrefl _ (h.tables.owned hm).1
  refine h1.retable (f := fun t => t.add f s.linkCount) ?_ ?_ fun hn => absurd ho hn
  · intro l hl
    rcases (HashTable.mem_values_add (h.tables.nodup obj) f s.linkCount l).mp hl with rfl | ⟨hl, _⟩
    · refine ⟨Nat.lt_succ_self _, ?_⟩
      simp [Acid.linkCreate]
    · exact h1.tables.owned hl
  · exact HashTable.values_add_nodup (h.tables.nodup obj) f hfresh

end Sound

theorem linkAdded_objects (s : State) (obj f x y : ℕ) :
    (linkAdded s obj f x).objects y =
      if y = obj then { s.objects obj with links := (s.objects obj).links.add f s.linkCount }
      else s.objects y := by
  rw [linkAdded, State.modifyObject_objects]
  rfl

theorem linkAdded_links (s : State) (obj f x l : ℕ) : (linkAdded s obj f x).links l =
    if l = s.linkCount then { src := obj, target := x } else s.links l := by
  simp [linkAdded, linkCreate, State.modifyObject, Function.update_apply]

theorem setWhich_linkAdded (s : State) (obj f x : ℕ) :
    setWhich (linkAdded s obj f x) obj x = setWhich s obj x := by
  unfold setWhich
  rw [linkAdded_objects]
  split_ifs <;> simp_all

theorem objectSetReferent_eq (s : State) (obj f x : ℕ) :
    objectSetReferent s obj f x = objectSetLabel (linkAdded s obj f x) obj x s.linkCount := rfl

/-- The label moves no phantom reference away. -/
theorem objectSetReferent_count2 (s : State) (obj f x y : ℕ) :
    (s.objects y).count2 ≤ ((objectSetReferent s obj f x).objects y).count2 := by
  have hadd : ((linkAdded s obj f x).objects y).count2 = (s.objects y).count2 := by
    rw [linkAdded_objects]
    split_ifs with hy
    · rw [hy]
    · rfl
  rw [objectSetReferent_eq, objectSetLabel_eq, ← hadd]
  split_ifs
  · have hm := (objectMergeCollectors_count (linkAdded s obj f x) obj x y).2
    have hlink : ∀ (u : State) (l : ℕ) (g : Link → Link), (u.modifyLink l g).objects = u.objects :=
      fun _ _ _ => rfl
    dsimp only
    rw [hlink, State.modifyObject_objects, State.check_objects, ← hm]
    split_ifs with hy
    · rw [hy]
      dsimp only
      omega
    · exact le_refl _
  · dsimp only
    rw [State.modifyObject_objects]
    split_ifs with hy
    · rw [hy]
      rfl
    · exact le_refl _

/-- Only the new link changes. -/
theorem objectSetReferent_links (s : State) (obj f x : ℕ) {l : ℕ} (hl : l ≠ s.linkCount) :
    (objectSetReferent s obj f x).links l = s.links l := by
  have hadd := linkAdded_links s obj f x l
  rw [if_neg hl] at hadd
  have hmod : ∀ (u : State) (y : ℕ) (g : Object → Object), (u.modifyObject y g).links = u.links :=
    fun _ _ _ => rfl
  rw [objectSetReferent_eq, objectSetLabel_eq, ← hadd]
  split_ifs
  · dsimp only
    rw [State.modifyLink_links, if_neg hl, hmod, State.check_links,
      (objectMergeCollectors_frame _ obj x).links]
  · dsimp only
    rw [hmod, State.modifyLink_links, if_neg hl]

theorem tableLinks_congr {s s' : State} (h : SameGraph s s') : tableLinks s' = tableLinks s := by
  ext l
  simp only [tableLinks, Finset.mem_filter, Finset.mem_range, InTable, h.linkCount,
    h.objectCount, h.table]

namespace Sound
variable {s : State} {L : Ledger}

theorem setReferent {obj x : ℕ} (h : Sound s L) (f : ℕ) (ho : Live s obj) (hx : InUse s x)
    (hweak : L.strict → (s.objects obj).phantomized = false →
      setWhich s obj x = (s.objects x).which ∨ (s.objects x).count (s.objects x).which ≠ 0) :
    Sound (objectSetReferent s obj f x) { L with refs := insert s.linkCount L.refs } := by
  have hobj := linkAdded_objects s obj f x
  have hall : ∀ {α : Type} (p : Object → α),
      (∀ t, p { s.objects obj with links := t } = p (s.objects obj)) →
      ∀ y, p ((Acid.linkAdded s obj f x).objects y) = p (s.objects y) := by
    intro α p hp y
    rw [hobj]
    split_ifs with hy
    · rw [hp, hy]
    · rfl
  rw [objectSetReferent_eq]
  refine (h.linkAdded f ho).setLabel ?_ (Nat.lt_succ_self _) ?_ ?_ ?_ ?_
  · exact fun hm => Nat.lt_irrefl _ (h.refs _ hm)
  · rw [linkAdded_links, if_pos rfl]
  · refine ⟨ho.1, ?_⟩
    rw [hall Object.freed fun _ => rfl]
    exact ho.2
  · rw [InUse, hall Object.count fun _ => rfl, hall Object.count2 fun _ => rfl]
    exact hx
  · rw [hall Object.phantomized fun _ => rfl, setWhich_linkAdded,
      hall Object.which fun _ => rfl, hall Object.count fun _ => rfl]
    exact hweak

/-- The links in tables after a field is cleared, -/
theorem tableLinks_remove (h : Sound s L) {obj f : ℕ} {s' : State}
    (hg : SameGraph (s.modifyObject obj fun o => { o with links := o.links.remove f }) s') :
    tableLinks s' = (tableLinks s).filter fun l => (s.objects obj).links.get f ≠ some l := by
  have htable : ∀ o, (s'.objects o).links =
      if o = obj then (s.objects obj).links.remove f else (s.objects o).links := by
    intro o
    rw [hg.table, State.modifyObject_objects]
    split_ifs <;> rfl
  have hn : s'.linkCount = s.linkCount := hg.linkCount
  have ho : s'.objectCount = s.objectCount := hg.objectCount
  ext l
  simp only [tableLinks, Finset.mem_filter, Finset.mem_range, InTable, hn, ho, htable]
  have hrem := HashTable.mem_values_remove (h.tables.nodup obj) f l
  constructor
  · rintro ⟨hlt, o, hlo, hl⟩
    split_ifs at hl with hoo
    · subst o
      rw [hrem] at hl
      exact ⟨⟨hlt, obj, hlo, hl.1⟩, hl.2⟩
    · refine ⟨⟨hlt, o, hlo, hl⟩, fun hget => hoo ?_⟩
      have hold := ((s.objects obj).links.mem_values l).mpr
        ⟨f, ((s.objects obj).links.get_eq_some f l).mp hget⟩
      rw [← (h.tables.owned hl).2, (h.tables.owned hold).2]
  · rintro ⟨⟨hlt, o, hlo, hl⟩, hget⟩
    refine ⟨hlt, o, hlo, ?_⟩
    split_ifs with hoo
    · subst o
      exact hrem.mpr ⟨hl, hget⟩
    · exact hl

/-- and after a new link is stored in it. -/
theorem tableLinks_add (h : Sound s L) {obj f x : ℕ} (hlive : Live s obj) {s' : State}
    (hg : SameGraph (Acid.linkAdded s obj f x) s') :
    tableLinks s' = insert s.linkCount
      ((tableLinks s).filter fun l => (s.objects obj).links.get f ≠ some l) := by
  have htable : ∀ o, (s'.objects o).links =
      if o = obj then (s.objects obj).links.add f s.linkCount else (s.objects o).links := by
    intro o
    rw [hg.table, linkAdded_objects]
    split_ifs <;> rfl
  have hn : s'.linkCount = s.linkCount + 1 := hg.linkCount
  have ho : s'.objectCount = s.objectCount := hg.objectCount
  ext l
  simp only [tableLinks, Finset.mem_insert, Finset.mem_filter, Finset.mem_range, InTable, hn, ho,
    htable]
  have hadd := HashTable.mem_values_add (h.tables.nodup obj) f s.linkCount l
  constructor
  · rintro ⟨hlt, o, hlo, hl⟩
    split_ifs at hl with hoo
    · subst o
      rcases hadd.mp hl with rfl | hl
      · exact .inl rfl
      · exact .inr ⟨⟨(h.tables.owned hl.1).1, obj, hlo, hl.1⟩, hl.2⟩
    · refine .inr ⟨⟨(h.tables.owned hl).1, o, hlo, hl⟩, fun hget => hoo ?_⟩
      have hold := ((s.objects obj).links.mem_values l).mpr
        ⟨f, ((s.objects obj).links.get_eq_some f l).mp hget⟩
      rw [← (h.tables.owned hl).2, (h.tables.owned hold).2]
  · rintro (rfl | ⟨⟨hlt, o, hlo, hl⟩, hget⟩)
    · refine ⟨Nat.lt_succ_self _, obj, hlive.1, ?_⟩
      rw [if_pos rfl]
      exact hadd.mpr (.inl rfl)
    · refine ⟨Nat.lt_succ_of_lt hlt, o, hlo, ?_⟩
      split_ifs with hoo
      · subst o
        exact hadd.mpr (.inr ⟨hl, hget⟩)
      · exact hl

/-- A whole `object_set`. The old link, if it is phantomized, must leave its target a phantom
reference where this is kept. -/
theorem set {obj f : ℕ} {r : Option ℕ} (h : Sound s L) (hL : L.refs = tableLinks s)
    (ho : Live s obj) (hr : ∀ x, r = some x → InUse s x)
    (hspare : ∀ l, (s.objects obj).links.get f = some l → (s.links l).phantomized = true →
      (s.links l).target ∈ L.kept → 2 ≤ (s.objects (s.links l).target).count2)
    (hweak : ∀ x, r = some x → L.strict → (s.objects obj).phantomized = false →
      (∀ l, (s.objects obj).links.get f = some l → (s.links l).target ≠ x) →
      setWhich s obj x = (s.objects x).which ∨ (s.objects x).count (s.objects x).which ≠ 0) :
    Sound (objectSet s obj f r) { L with refs := tableLinks (objectSet s obj f r) } := by
  have hold : ∀ l, (s.objects obj).links.get f = some l → l ∈ L.refs := by
    intro l hget
    rw [hL]
    exact h.mem_tableLinks.mpr ⟨obj, ((s.objects obj).links.mem_values l).mpr
      ⟨f, ((s.objects obj).links.get_eq_some f l).mp hget⟩⟩
  cases r with
  | none =>
    have hgraph : SameGraph (s.modifyObject obj fun o => { o with links := o.links.remove f })
        (objectSet s obj f none) := by
      rcases objectSet_graph s obj f none with ⟨_, hg⟩ | ⟨l, _, hn, _⟩ | ⟨x, hn, _⟩
      · exact hg
      · cases hn
      · cases hn
    rw [h.tableLinks_remove hgraph, ← hL]
    have h1 : Sound (s.modifyObject obj fun o => { o with links := o.links.remove f }) L := by
      refine h.retable (f := fun t => t.remove f) ?_ ?_ fun hn => absurd ho hn
      · intro l hl
        exact h.tables.owned ((HashTable.mem_values_remove (h.tables.nodup obj) f l).mp hl).1
      · exact HashTable.values_remove_nodup (h.tables.nodup obj) f
    unfold objectSet
    dsimp only
    cases hget : (s.objects obj).links.get f with
    | none =>
      simpa using h1
    | some l =>
      have hfilter : (L.refs.filter fun k => some l ≠ some k) = L.refs.erase l := by
        ext k
        simp [and_comm, eq_comm]
      rw [hfilter]
      apply Sound.linkDec (h1.release (hold l hget))
      intro hp hone _ hk
      have := hspare l hget hp hk
      have hsame : ∀ y, ((s.modifyObject obj fun o =>
          { o with links := o.links.remove f }).objects y).count2 = (s.objects y).count2 := by
        intro y
        rw [State.modifyObject_objects]
        split_ifs with hy
        · rw [hy]
        · rfl
      rw [hsame] at hone
      change (s.objects (s.links l).target).count2 = 1 at hone
      omega
  | some x =>
    have hfresh : s.linkCount ∉ L.refs := fun hm => Nat.lt_irrefl _ (h.refs _ hm)
    unfold objectSet
    dsimp only
    cases hget : (s.objects obj).links.get f with
    | none =>
      dsimp only
      have hg : SameGraph (Acid.linkAdded s obj f x) (objectSetReferent s obj f x) :=
        objectSetLabel_graph _ obj x s.linkCount
      rw [h.tableLinks_add ho hg, hget, ← hL]
      simp only [reduceCtorEq, ne_eq, not_false_eq_true, Finset.filter_true]
      exact h.setReferent f ho (hr x rfl) fun hk hp => hweak x rfl hk hp (by simp [hget])
    | some l =>
      dsimp only
      split_ifs with ht
      · rw [← hL]
        exact h
      · have hg : SameGraph (Acid.linkAdded s obj f x)
            (Acid.linkDec (objectSetReferent s obj f x) l) :=
          (objectSetLabel_graph (Acid.linkAdded s obj f x) obj x s.linkCount).trans
            (linkDec_frame _ l).graph
        have hl := hold l hget
        have hne : l ≠ s.linkCount := fun he => hfresh (he ▸ hl)
        have hfilter : insert s.linkCount (L.refs.filter fun k => some l ≠ some k) =
            (insert s.linkCount L.refs).erase l := by
          rw [Finset.erase_insert_of_ne (Ne.symm hne)]
          congr 1
          ext k
          simp [and_comm, eq_comm]
        rw [h.tableLinks_add ho hg, hget, ← hL, hfilter]
        have h1 := h.setReferent f ho (hr x rfl) fun hk hp => hweak x rfl hk hp fun k hk => by
          rw [hget] at hk
          cases hk
          exact ht
        have hlinks := objectSetReferent_links s obj f x hne
        apply Sound.linkDec (h1.release (Finset.mem_insert_of_mem hl))
        rw [hlinks]
        intro hp hone _ hk
        have h2 := hspare l hget hp hk
        have h3 := objectSetReferent_count2 s obj f x (s.links l).target
        omega

end Sound
end Acid

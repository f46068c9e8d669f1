import Acid.SoundCounting
import Acid.LinkFrame

set_option autoImplicit false

/-!
# Releasing, phantomizing and rebuilding links keep a state sound
-/
namespace Acid
open PointerForest Tally

/-- The reference of a link that does not count, taken in hand. -/
def Ledger.inHand (L : Ledger) (lk : Link) : Ledger :=
  { L with
    strong := if lk.phantomized then L.strong else (lk.target, lk.which) :: L.strong
    phantom := if lk.phantomized then lk.target :: L.phantom else L.phantom }

/-- No object that must keep its collector loses it with the next phantom reference. -/
def Spare (s : State) (L : Ledger) (x : ℕ) : Prop :=
  (s.objects x).count2 = 1 → (∃ b, (s.objects x).count b ≠ 0) → x ∉ L.kept

namespace Sound
variable {s : State} {L : Ledger}

/-- References move between the links and the hand. -/
theorem rebalance {L' : Ledger} (h : Sound s L) (hrefs : ∀ l ∈ L'.refs, l < s.linkCount)
    (hbal : Balance s L') (hcur : L'.curated = L.curated) (hkept : L'.kept = L.kept)
    (hdel : L'.deleting = L.deleting) (hset : L'.settled = L.settled)
    (hstrict : L'.strict = L.strict) (hbefore : L'.before = L.before)
    (hlinked : ∀ l ∈ L'.refs, l ∉ L.refs → (s.links l).phantomized = true →
      (s.links l).src ∈ L.kept →
      ∃ c, InClass s (s.links l).src c ∧ InClass s (s.links l).target c) : Sound s L' where
  tables := h.tables
  refs := hrefs
  collectors := h.collectors
  balance := hbal
  classes := by
    refine ⟨h.classes.listed, fun hx => h.classes.held (hcur ▸ hx),
      fun hx => h.classes.kept (hkept ▸ hx), ?_⟩
    intro l hl hp hs
    rw [hkept] at hs
    by_cases hr : l ∈ L.refs
    · exact h.classes.linked hr hp hs
    · exact hlinked l hl hr hp hs
  tasks := h.tasks
  deletes := hdel ▸ h.deletes
  settled := by
    rw [hset, hstrict]
    exact h.settled
  moved := by
    rw [hbefore]
    exact h.moved

theorem release (h : Sound s L) {l : ℕ} (hl : l ∈ L.refs) :
    Sound s ({ L with refs := L.refs.erase l }.inHand (s.links l)) := by
  apply h.rebalance
  · intro k hk
    exact h.refs k (Finset.mem_of_mem_erase hk)
  · exact h.balance.release hl
  · rfl
  · rfl
  · rfl
  · rfl
  · rfl
  · rfl
  · intro k hk hn
    exact absurd (Finset.mem_of_mem_erase hk) hn

theorem hold {l : ℕ} (h : Sound s (L.inHand (s.links l))) (hl : l ∉ L.refs)
    (hlt : l < s.linkCount)
    (hclass : (s.links l).phantomized = true → (s.links l).src ∈ L.kept →
      ∃ c, InClass s (s.links l).src c ∧ InClass s (s.links l).target c) :
    Sound s { L with refs := insert l L.refs } := by
  apply h.rebalance
  · intro k hk
    rcases Finset.mem_insert.mp hk with rfl | hk
    · exact hlt
    · exact h.refs k hk
  · exact h.balance.hold hl
  · rfl
  · rfl
  · rfl
  · rfl
  · rfl
  · rfl
  · intro k hk hn
    rcases Finset.mem_insert.mp hk with rfl | hk
    · exact hclass
    · exact absurd hk hn

/-- A link that does not count may change, but for its source. -/
theorem modifyLink (h : Sound s L) {l : ℕ} {f : Link → Link} (hl : l ∉ L.refs)
    (hs : (f (s.links l)).src = (s.links l).src) : Sound (s.modifyLink l f) L := by
  have hlinks : ∀ k, k ≠ l → (s.modifyLink l f).links k = s.links k := by
    intro k hk
    rw [State.modifyLink_links, if_neg hk]
  have hsame : ∀ k ∈ L.refs, (s.modifyLink l f).links k = s.links k :=
    fun k hk => hlinks k fun e => hl (e ▸ hk)
  constructor
  · constructor
    · intro o k hk
      obtain ⟨h1, h2⟩ := h.tables.owned hk
      refine ⟨h1, ?_⟩
      by_cases hkl : k = l
      · subst k
        rw [State.modifyLink_links, if_pos rfl, hs, h2]
      · rw [hlinks k hkl, h2]
    · exact h.tables.nodup
  · exact h.refs
  · exact h.collectors.congr rfl rfl rfl (fun _ => rfl) (fun _ _ hx => hx) fun _ hm => hm
  · apply h.balance.congr
    · exact fun _ => rfl
    · exact fun _ => rfl
    · exact fun _ => rfl
    · intro k hk
      rw [hsame k hk]
      exact ⟨rfl, rfl, rfl⟩
    · rfl
    · exact fun _ => rfl
    · exact fun _ => rfl
  · exact h.classes.congr rfl rfl (fun _ => rfl) hsame
  · exact h.tasks.congr (fun _ => rfl) rfl fun _ => Iff.rfl
  · exact ⟨h.deletes.pending, h.deletes.once, h.deletes.dead, h.deletes.freed_lt,
      h.deletes.requested, h.deletes.dtors, h.deletes.destroyed, h.deletes.destroyed_lt,
      h.deletes.world, h.deletes.collected, h.deletes.faults⟩
  · exact h.settled
  · exact h.moved

theorem linkDec {l : ℕ} (h : Sound s (L.inHand (s.links l)))
    (hspare : (s.links l).phantomized = true → Spare s L (s.links l).target) :
    Sound (Acid.linkDec s l) L := by
  unfold Acid.linkDec
  unfold Ledger.inHand at h
  dsimp only
  cases hp : (s.links l).phantomized with
  | true =>
    rw [hp] at h
    exact Sound.decPhantom h (hspare hp)
  | false =>
    rw [hp] at h
    exact Sound.dec h

theorem linkDestroy {l : ℕ} (h : Sound s L) (hl : l ∈ L.refs)
    (hspare : (s.links l).phantomized = true → Spare s L (s.links l).target) :
    Sound (Acid.linkDestroy s l) { L with refs := L.refs.erase l } := by
  have hdec := Sound.linkDec (h.release hl) hspare
  have hfree := hdec.modifyLink (f := fun lk => { lk with freed := true })
    (Finset.notMem_erase l L.refs) rfl
  exact hfree.emit rfl

/-- The strong reference of a link is given up, and a phantom one taken in hand. -/
theorem phantomizeDec {l : ℕ} (h : Sound s L) (hl : l ∈ L.refs)
    (hp : (s.links l).phantomized = false) :
    Sound (Acid.linkDec (s.modifyObject (s.links l).target fun o => { o with count2 := o.count2 + 1 })
      l) { L with refs := L.refs.erase l, phantom := (s.links l).target :: L.phantom } := by
  obtain ⟨hlive, hnd⟩ := h.live_of_link hl
  have hgive := h.givePhantom hlive hnd
  have hfg := modifyObject_frame s (s.links l).target (f := fun o =>
    { o with count2 := o.count2 + 1 }) rfl
  generalize s.modifyObject (s.links l).target (fun o =>
    { o with count2 := o.count2 + 1 }) = s1 at hgive hfg ⊢
  have hl1 : s1.links l = s.links l := by rw [hfg.links]
  apply Sound.linkDec
  · rw [hl1]
    simpa [Ledger.inHand, hp, hl1] using hgive.release (l := l) hl
  · rw [hl1, hp]
    intro hn
    cases hn

/-- A link of a live source turns its strong reference into a phantom one. -/
theorem linkPhantomize {l : ℕ} (h : Sound s L) (hl : l ∈ L.refs) (hsrc : Live s (s.links l).src) :
    Sound (Acid.linkPhantomize s l) L := by
  unfold Acid.linkPhantomize
  dsimp only
  split_ifs with hp
  · exact h
  · have hlive := (h.live_of_link hl).1
    have hdec := h.phantomizeDec hl (by simpa using hp)
    have hfd := (modifyObject_frame s (s.links l).target (f := fun o =>
      { o with count2 := o.count2 + 1 }) rfl).trans (linkDec_frame _ l)
    generalize Acid.linkDec (s.modifyObject (s.links l).target fun o =>
      { o with count2 := o.count2 + 1 }) l = s2 at hdec hfd ⊢
    have hcheck := hdec.check ((s2.objects (s.links l).target).collector ≠ none ∨
      (s2.objects (s.links l).src).collector ≠ none) (e := .assertFailed .linkCollector) rfl
    have hfc := hfd.trans (check_frame s2 ((s2.objects (s.links l).target).collector ≠ none ∨
      (s2.objects (s.links l).src).collector ≠ none) (.assertFailed .linkCollector))
    generalize s2.check ((s2.objects (s.links l).target).collector ≠ none ∨
      (s2.objects (s.links l).src).collector ≠ none) (.assertFailed .linkCollector) = s3
      at hcheck hfc ⊢
    have hmerge := hcheck.mergeCollectors ((hfc.live_iff _).mpr hsrc) ((hfc.live_iff _).mpr hlive)
    have hfm := hfc.trans (objectMergeCollectors_frame s3 (s.links l).src (s.links l).target)
    have hclass : (s.links l).src ∈ L.kept → ∃ c,
        InClass (objectMergeCollectors s3 (s.links l).src (s.links l).target).1 (s.links l).src c ∧
        InClass (objectMergeCollectors s3 (s.links l).src (s.links l).target).1
          (s.links l).target c :=
      fun hk => hcheck.merged_class (.inl (hcheck.classes.kept hk))
    generalize (objectMergeCollectors s3 (s.links l).src (s.links l).target).1 = s4
      at hmerge hfm hclass ⊢
    have hmark := hmerge.modifyLink (f := fun lk => { lk with phantomized := true })
      (Finset.notMem_erase l L.refs) rfl
    have hl4 : (s4.modifyLink l fun lk => { lk with phantomized := true }).links l =
        { s.links l with phantomized := true } := by
      rw [State.modifyLink_links, if_pos rfl, hfm.links]
    have hheld : Sound (s4.modifyLink l fun lk => { lk with phantomized := true })
        { L with refs := insert l (L.refs.erase l) } := by
      apply Sound.hold (L := { L with refs := L.refs.erase l })
      · rw [hl4]
        exact hmark
      · exact Finset.notMem_erase l L.refs
      · exact h.refs l hl |>.trans_eq hfm.linkCount.symm
      · intro _ hk
        rw [hl4] at hk ⊢
        obtain ⟨c, h1, h2⟩ := hclass hk
        exact ⟨c, h1.congr rfl rfl rfl, h2.congr rfl rfl rfl⟩
    rw [Finset.insert_erase hl] at hheld
    exact hheld.check _ rfl

end Sound
end Acid

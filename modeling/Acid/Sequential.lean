import Acid.Pointed
import Acid.WeakOnly

set_option autoImplicit false

/-!
# The class of a collector that works alone

While its last loops run, objects leave the class of a collector and none joins it. The
targets of the links that are rebuilt and stay in it are queued again.
-/
namespace Acid
open PointerForest Tally

/-- The chain from the collector of `x` ends at `c`. -/
def Led (s : State) (x c : ℕ) : Prop :=
  ∃ d, (s.objects x).collector = some d ∧ collectorUpdate s d = c

theorem Led.unique {s : State} {x c d : ℕ} (h : Led s x c) (h' : Led s x d) : c = d := by
  obtain ⟨a, ha, hc⟩ := h
  obtain ⟨b, hb, hd⟩ := h'
  rw [ha] at hb
  rw [← hc, ← hd, Option.some.inj hb]

namespace Sound
variable {s : State} {L : Ledger} (h : Sound s L)
include h

theorem led_of_mem {r : ListRef} {x : ℕ} (hr : r.2 ≠ .rebuild) (hx : x ∈ (s.safelist r).data) :
    Led s x r.1 := by
  obtain ⟨d, hd, hroot⟩ := h.classes.listed hr hx
  rw [collectorUpdate_of_root (h.collectors.root_of_mem hx).1] at hroot
  exact ⟨d, hd, hroot⟩

/-- A listed object is in a list of the collector at the end of its chain. -/
theorem mem_of_led {x c : ℕ} (hx : Listed s x) (hc : Led s x c) :
    ∃ n, n ≠ .rebuild ∧ x ∈ (s.safelist (c, n)).data := by
  obtain ⟨⟨d, n⟩, hn, hm⟩ := hx
  have heq : d = c := (h.led_of_mem hn hm).unique hc
  exact ⟨n, hn, heq ▸ hm⟩

end Sound

/-- Every collector pointer that is left leads where the pointer before it led. -/
structure Narrows (s s' : State) : Prop where
  forward : s'.forward = s.forward
  numCollector : s'.numCollector = s.numCollector
  pointer : ∀ {x d}, (s'.objects x).collector = some d →
    ∃ e, (s.objects x).collector = some e ∧ collectorUpdate s e = collectorUpdate s d

namespace Narrows
variable {s s' s'' : State}

theorem refl (s : State) : Narrows s s := ⟨rfl, rfl, fun hx => ⟨_, hx, rfl⟩⟩

theorem update (h : Narrows s s') (d : ℕ) : collectorUpdate s' d = collectorUpdate s d :=
  collectorUpdate_congr h.numCollector h.forward d

theorem trans (h : Narrows s s') (h' : Narrows s' s'') : Narrows s s'' where
  forward := h'.forward.trans h.forward
  numCollector := h'.numCollector.trans h.numCollector
  pointer hx := by
    obtain ⟨e, he, hr⟩ := h'.pointer hx
    obtain ⟨a, ha, hr'⟩ := h.pointer he
    rw [h.update, h.update] at hr
    exact ⟨a, ha, hr'.trans hr⟩

theorem led (h : Narrows s s') {x c : ℕ} (hx : Led s' x c) : Led s x c := by
  obtain ⟨d, hd, hc⟩ := hx
  obtain ⟨e, he, hr⟩ := h.pointer hd
  exact ⟨e, he, hr.trans ((h.update d).symm.trans hc)⟩

theorem ne_none (h : Narrows s s') {x : ℕ} (hx : (s'.objects x).collector ≠ none) :
    (s.objects x).collector ≠ none := by
  obtain ⟨d, hd⟩ := Option.ne_none_iff_exists'.mp hx
  obtain ⟨e, he, _⟩ := h.pointer hd
  simp [he]

theorem of_same (hf : s'.forward = s.forward) (hn : s'.numCollector = s.numCollector)
    (hx : ∀ x, (s'.objects x).collector = (s.objects x).collector) : Narrows s s' where
  forward := hf
  numCollector := hn
  pointer hd := ⟨_, (hx _).symm.trans hd, rfl⟩

theorem modifyObject (s : State) (x : ℕ) {f : Object → Object}
    (hf : ∀ o, (f o).collector = o.collector) : Narrows s (s.modifyObject x f) := by
  have hforward : (s.modifyObject x f).forward = s.forward := rfl
  apply of_same hforward rfl
  intro y
  rw [State.modifyObject_objects]
  split_ifs with hy
  · rw [hf, hy]
  · rfl

theorem check (s : State) (p : Prop) [Decidable p] (e : Event) : Narrows s (s.check p e) := by
  apply of_same
  · exact forward_eq_of_collectors (s.check_collectors p e)
  · exact s.check_numCollector p e
  · intro x
    rw [State.check_objects]

theorem setCollector (s : State) (x : ℕ) {c : Option ℕ} (hc : ∀ d, c = some d →
      ∃ e, (s.objects x).collector = some e ∧ collectorUpdate s e = collectorUpdate s d) :
    Narrows s (objectSetCollector s x c) where
  forward := objectSetCollector_forward s x c
  numCollector := (objectSetCollector_rest s x c).1
  pointer {y d} hy := by
    rw [objectSetCollector_collector] at hy
    split_ifs at hy with hyx
    · subst hyx
      exact hc d hy
    · exact ⟨d, hy, rfl⟩

theorem setNone (s : State) (x : ℕ) : Narrows s (objectSetCollector s x none) := by
  apply setCollector
  intro d hd
  cases hd

theorem add (s : State) (r : ListRef) (x : ℕ) : Narrows s (safelistAdd s r x) := by
  have hsame := safelistAdd_same s r x
  apply of_same hsame.forward hsame.numCollector
  intro y
  rw [hsame.objects]

theorem decPhantom (s : State) (x : ℕ) : Narrows s (objectDecPhantom s x) := by
  unfold objectDecPhantom
  dsimp only
  have h1 := (modifyObject s x (f := fun o => { o with count2 := o.count2 - 1 }) fun _ => rfl).trans
    (check _ (0 ≤ ((s.modifyObject x fun o => { o with count2 := o.count2 - 1 }).objects x).count2)
      (.assertFailed .decPhantomCount))
  split_ifs
  · exact h1.trans (of_same rfl rfl fun _ => rfl)
  · exact h1.trans (setNone _ x)
  · exact h1

theorem rebuildLink (c : ℕ) (s : State) (l : ℕ) : Narrows s (objectRebuildLink c s l) := by
  rw [objectRebuildLink_eq]
  dsimp only
  split_ifs
  · have h1 : Narrows s (rebuildCount s l) := by
      unfold rebuildCount
      dsimp only
      have hmark : Narrows s (s.modifyLink l fun lk => { lk with which := rebuildWhich s l }) :=
        of_same rfl rfl fun _ => rfl
      apply (hmark.trans (modifyObject _ (s.links l).target _)).trans
        (modifyObject _ (s.links l).target _)
      · exact fun _ => rfl
      · exact fun _ => rfl
    have h2 : Narrows s (rebuildCollector (rebuildCount s l) (s.links l).target) := by
      unfold rebuildCollector
      split_ifs
      · exact h1.trans (setNone _ _)
      · exact h1
    generalize rebuildCollector (rebuildCount s l) (s.links l).target = u at h2 ⊢
    have h3 : Narrows s (u.modifyLink l fun lk => { lk with phantomized := false }) :=
      h2.trans (of_same rfl rfl fun _ => rfl)
    unfold rebuildQueue
    split_ifs
    · exact (h3.trans (check _ _ _)).trans (add _ _ _)
    · exact h3.trans (check _ _ _)
  · exact refl s

theorem foldl_rebuildLink (c : ℕ) (ls : List ℕ) (s : State) :
    Narrows s (ls.foldl (objectRebuildLink c) s) := by
  induction ls generalizing s with
  | nil => exact refl s
  | cons l ls ih => exact (rebuildLink c s l).trans (ih _)

theorem recoverUpdate {L : Ledger} (h : Sound s L) (obj : ℕ) :
    Narrows s (Acid.recoverUpdate s obj) := by
  unfold Acid.recoverUpdate objectUpdateCollector
  split_ifs
  · split
    · rename_i c hc
      apply setCollector
      intro d hd
      rw [← Option.some.inj hd]
      exact ⟨c, hc, (h.collectors.update_idem c).symm⟩
    · exact of_same rfl rfl fun _ => rfl
  · exact refl s

theorem recoverStart (s : State) (obj : ℕ) : Narrows s (Acid.recoverStart s obj) := by
  unfold Acid.recoverStart
  apply ((check s _ _).trans (check _ _ _)).trans (modifyObject _ obj _)
  exact fun _ => rfl

theorem recoverNode {L : Ledger} (h : Sound s L) (obj c : ℕ) :
    Narrows s (objectRecoverNode s obj c) := by
  have h1 := recoverUpdate h obj
  rw [objectRecoverNode_eq]
  dsimp only
  generalize Acid.recoverUpdate s obj = u at h1 ⊢
  split_ifs
  · exact ((h1.trans (recoverStart u obj)).trans (foldl_rebuildLink c _ _)).trans (check _ _ _)
  · exact (h1.trans (check _ _ _)).trans (check _ _ _)

theorem foldl_linkDestroy {ls : List ℕ} (hls : ∀ l ∈ ls, (s.links l).phantomized = true) :
    Narrows s (ls.foldl linkDestroy s) := by
  induction ls generalizing s with
  | nil => exact refl s
  | cons l ls ih =>
    have hp := hls l (List.mem_cons_self ..)
    have hdec : linkDec s l = objectDecPhantom s (s.links l).target := by
      unfold linkDec
      dsimp only
      rw [if_pos hp]
    have h1 : Narrows s (linkDestroy s l) := by
      have hend : Narrows (linkDec s l) (linkDestroy s l) := of_same rfl rfl fun _ => rfl
      rw [hdec] at hend
      exact (decPhantom s _).trans hend
    apply h1.trans
    apply ih
    intro k hk
    rw [linkDestroy_links]
    split_ifs with hkl
    · subst k
      exact hp
    · exact hls k (List.mem_cons_of_mem _ hk)

theorem removeStart (s : State) (obj : ℕ) : Narrows s (Acid.removeStart s obj) := by
  have hemit : Narrows s (s.emit (.removeLinks obj)) := of_same rfl rfl fun _ => rfl
  unfold Acid.removeStart
  apply ((hemit.trans (modifyObject _ obj _)).trans (check _ _ _)).trans (check _ _ _)
  exact fun _ => rfl

theorem cleanNode {obj : ℕ} (hls : (∀ b, (s.objects obj).count b = 0) →
      ∀ l ∈ (s.objects obj).links.values, (s.links l).phantomized = true) :
    Narrows s (objectCleanNode s obj) := by
  have h1 := (check s (0 ≤ (s.objects obj).count false) (.assertFailed .cleanCount)).trans
    (check _ (0 ≤ ((s.check (0 ≤ (s.objects obj).count false) (.assertFailed .cleanCount)).objects
      obj).count true) (.assertFailed .cleanCount))
  unfold objectCleanNode
  dsimp only
  split_ifs with huse
  · exact h1.trans (decPhantom _ obj)
  · rw [objectRemoveLinks_eq]
    apply ((h1.trans (removeStart _ obj)).trans (foldl_linkDestroy _)).trans (decPhantom _ obj)
    intro l hl
    rw [removeStart_links]
    simp only [State.check_objects, State.check_links] at huse hl ⊢
    push Not at huse
    apply hls _ l hl
    intro b
    cases b
    · exact huse.1
    · exact huse.2

end Narrows

/-! ## What is queued again -/

/-- The target of a link that is rebuilt, unless it loses its pointer. -/
theorem Collectors.rebuildLink_rebuilt {s : State} (h : Collectors s) {c l : ℕ}
    (hc : s.forward c = none) (hp : (s.links l).phantomized = true)
    (hcol : ((objectRebuildLink c s l).objects (s.links l).target).collector ≠ none) :
    (s.links l).target ∈ ((objectRebuildLink c s l).safelist (c, .rebuild)).data := by
  have hforward : (rebuildCollector (rebuildCount s l) (s.links l).target).listForward
      (c, .rebuild) = none := by
    rw [State.listForward, rebuildCollector_safelist]
    exact h.root_lists hc .rebuild
  rw [objectRebuildLink_eq, if_pos hp] at hcol ⊢
  dsimp only at hcol ⊢
  generalize rebuildCollector (rebuildCount s l) (s.links l).target = u at hforward hcol ⊢
  have hv : ((u.modifyLink l fun lk => { lk with phantomized := false }).check
      (0 ≤ ((u.modifyLink l fun lk => { lk with phantomized := false }).objects
        (s.links l).target).count2) (.assertFailed .rebuildCount)).listForward
        (c, .rebuild) = none := by
    rw [State.listForward, State.safelist, State.check_collectors]
    exact hforward
  generalize (u.modifyLink l fun lk => { lk with phantomized := false }).check
    (0 ≤ ((u.modifyLink l fun lk => { lk with phantomized := false }).objects
      (s.links l).target).count2) (.assertFailed .rebuildCount) = v at hv hcol ⊢
  unfold rebuildQueue at hcol ⊢
  split_ifs at hcol ⊢ with hne
  · have hdata := congrFun (congrArg Layout.data (layout_add_unforwarded hv (s.links l).target))
      (c, .rebuild)
    change _ ∈ (layout _).data (c, .rebuild)
    rw [hdata]
    exact Layout.mem_push_self _ _
  · exact absurd hcol hne

namespace Sound
variable {s : State} {L : Ledger}

theorem foldl_rebuildLink_rebuilt {c : ℕ} (ls : List ℕ) (h : Sound s L) (hk : L.kept = ∅)
    (hstrict : ¬ L.strict) (hb : L.before = none) (hls : ∀ l ∈ ls, l ∈ L.refs)
    (hruns : 0 < runTasks s c) (hc : s.forward c = none) {l : ℕ} (hl : l ∈ ls)
    (hp : (s.links l).phantomized = true)
    (hcol : ((ls.foldl (objectRebuildLink c) s).objects (s.links l).target).collector ≠ none) :
    (s.links l).target ∈ ((ls.foldl (objectRebuildLink c) s).safelist (c, .rebuild)).data := by
  have hgrow : ∀ (ks : List ℕ) (u : State) {x : ℕ}, x ∈ (u.safelist (c, .rebuild)).data →
      x ∈ ((ks.foldl (objectRebuildLink c) u).safelist (c, .rebuild)).data := by
    intro ks
    induction ks with
    | nil => exact fun _ _ hx => hx
    | cons k ks ih => exact fun u _ hx => ih _ (objectRebuildLink_mem c u k hx)
  induction ls generalizing s with
  | nil => cases hl
  | cons k ks ih =>
    have hk' := hls k (List.mem_cons_self ..)
    have hf := objectRebuildLink_frame c s k
    have hn := Narrows.rebuildLink c s k
    have hstep : Sound (objectRebuildLink c s k) L := by
      apply h.rebuildLink hk' hruns
      · intro _ hm
        rw [hk] at hm
        cases hm
      · exact fun hx => absurd hx hstrict
      · exact hb
    rw [List.foldl_cons] at hcol ⊢
    by_cases hkl : l = k
    · subst hkl
      apply hgrow
      exact h.collectors.rebuildLink_rebuilt hc hp
        ((Narrows.foldl_rebuildLink c ks _).ne_none hcol)
    · have hmem : l ∈ ks := (List.mem_cons.mp hl).resolve_left hkl
      rw [← hf.target l] at hcol ⊢
      apply ih hstep (fun j hj => hls j (List.mem_cons_of_mem _ hj))
        (hruns.trans_le (hf.runTasks_le c)) _ hmem _ hcol
      · rw [hn.forward]
        exact hc
      · rw [objectRebuildLink_links, if_neg fun hm => hkl hm.1]
        exact hp

/-- A recovered object leaves its targets in the rebuild list, or without a pointer. -/
theorem recoverNode_rebuilt (obj : ℕ) {c : ℕ} (h : Sound s L) (hk : L.kept = ∅)
    (hstrict : ¬ L.strict) (hb : L.before = none)
    (hrefs : ∀ l ∈ (s.objects obj).links.values, l ∈ L.refs) (hruns : 0 < runTasks s c)
    (hc : s.forward c = none) (hpos : 0 < (s.objects obj).count (s.objects obj).which) {l : ℕ}
    (hl : l ∈ (s.objects obj).links.values) (hp : (s.links l).phantomized = true)
    (hcol : ((objectRecoverNode s obj c).objects (s.links l).target).collector ≠ none) :
    (s.links l).target ∈ ((objectRecoverNode s obj c).safelist (c, .rebuild)).data := by
  have hf1 := recoverUpdate_frame s obj
  have hn1 := Narrows.recoverUpdate h obj
  have hcount1 := recoverUpdate_count s obj obj
  have h1 : Sound (recoverUpdate s obj) L := by
    unfold recoverUpdate
    split_ifs
    · exact h.updateCollector
    · exact h
  rw [objectRecoverNode_eq] at hcol ⊢
  dsimp only at hcol ⊢
  generalize recoverUpdate s obj = u at hf1 hn1 hcount1 h1 hcol ⊢
  have hposu : 0 < (u.objects obj).count (u.objects obj).which := by
    rw [hcount1, hf1.which]
    exact hpos
  rw [if_pos hposu] at hcol ⊢
  rw [State.safelist, State.check_collectors]
  rw [State.check_objects] at hcol
  have hlinks : (Acid.recoverStart u obj).links = s.links := by
    rw [← hf1.links]
    simp [Acid.recoverStart, State.modifyObject]
  have hruns2 : runTasks (Acid.recoverStart u obj) c = runTasks u c := by
    simp [Acid.recoverStart, State.modifyObject, runTasks]
  have hn2 := hn1.trans (Narrows.recoverStart u obj)
  rw [← hlinks] at hp hcol ⊢
  apply (h1.recoverStart hposu).foldl_rebuildLink_rebuilt _ _ hstrict hb _ _ _ _ hp hcol
  · rw [hk, Set.empty_sdiff]
  · rw [hf1.table]
    exact hrefs
  · rw [hruns2]
    exact hruns.trans_le (hf1.link.runTasks_le c)
  · rw [hn2.forward]
    exact hc
  · rw [hf1.table]
    exact hl

end Sound
end Acid

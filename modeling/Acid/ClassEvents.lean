import Acid.ClassClosure
import Acid.PhantomizeWindow

set_option autoImplicit false

/-!
# The assertions about collectors, and the loops that end

While a phantomized object is curated, phantomizing its links finds a collector
on both ends, and merging the collectors of two objects returns.
-/
namespace Acid
open PointerForest Tally

section
variable {P : Event → Prop} (hP : ∀ e : Event, e.basic = true → P e) {s : State}
include hP

theorem Forest.merge_emits (h : Forest s) (obj x : ℕ) :
    Emits P s (objectMergeCollectors s obj x).1 := by
  have hall : Emits (fun e => P e ∨ e = .noReturn) s (objectMergeCollectors s obj x).1 :=
    objectMergeCollectors_emits (fun e he => .inl (hP e he)) (.inr rfl) s obj x
  intro e he
  by_cases hr : e = .noReturn
  · rw [hr]
    exact (h.unites obj x).returns
  · exact hall e fun hor => hor.elim he hr

namespace Sound
variable {L : Ledger} {obj c l : ℕ}

/-- The source is curated, so that it has a collector throughout. -/
theorem linkPhantomize_emits (h : Sound s L) (hl : l ∈ L.refs)
    (hcur : ((s.links l).src, c) ∈ L.curated) : Emits P s (Acid.linkPhantomize s l) := by
  unfold Acid.linkPhantomize
  dsimp only
  split_ifs with hp
  · exact .refl s
  · have hdec := h.phantomizeDec hl (by simpa using hp)
    have h0 : Emits P s (s.modifyObject (s.links l).target fun o =>
        { o with count2 := o.count2 + 1 }) := .of_trace rfl
    have h1 := h0.trans (Acid.linkDec_emits hP (s.modifyObject (s.links l).target fun o =>
      { o with count2 := o.count2 + 1 }) l)
    generalize Acid.linkDec (s.modifyObject (s.links l).target fun o =>
      { o with count2 := o.count2 + 1 }) l = s2 at hdec h1 ⊢
    have hcol : (s2.objects (s.links l).src).collector ≠ none :=
      (hdec.classes.held hcur).1.ne_none
    rw [s2.check_pos (p := (s2.objects (s.links l).target).collector ≠ none ∨
      (s2.objects (s.links l).src).collector ≠ none) (Or.inr hcol)]
    have h2 := h1.trans (hdec.collectors.forest.merge_emits hP (s.links l).src (s.links l).target)
    have hsame := ((hdec.collectors.forest.unites (s.links l).src (s.links l).target).assigned
      (.inl hcol)).2
    generalize (objectMergeCollectors s2 (s.links l).src (s.links l).target).1 = s3 at h2 hsame ⊢
    rw [State.check_pos]
    · exact h2.trans (.of_trace rfl)
    · change collectorEquals _ (s3.objects _).collector (s3.objects _).collector = true
      rw [hsame]
      exact collectorEquals_self _ _

theorem phantomizeSnapshot_emits (h : Sound s L) (hl : l ∈ L.refs) (hsrc : (s.links l).src = obj)
    (hph : (s.objects obj).phantomized = true) (hcur : (obj, c) ∈ L.curated) :
    Emits P s (Acid.phantomizeSnapshot obj s l) := by
  unfold Acid.phantomizeSnapshot
  dsimp only
  rw [s.check_pos hph, hsrc]
  split_ifs
  · exact .refl s
  · rw [s.check_pos hph, s.check_pos (h.classes.held hcur).1.ne_none]
    exact h.linkPhantomize_emits hP hl (by rwa [hsrc])

theorem foldl_phantomizeSnapshot_emits (h : Sound s L) (hlive : Live s obj)
    (hcur : (obj, c) ∈ L.curated) (ls : List ℕ) (hls : ∀ l ∈ ls, l ∈ L.refs ∧
      (s.links l).src = obj ∧ (s.objects obj).phantomized = true) :
    Emits P s (ls.foldl (Acid.phantomizeSnapshot obj) s) := by
  induction ls generalizing s with
  | nil => exact .refl s
  | cons l ls ih =>
    obtain ⟨hl, hsrc, hph⟩ := hls l (List.mem_cons_self ..)
    have hf := phantomizeSnapshot_frame obj s l
    apply (h.phantomizeSnapshot_emits hP hl hsrc hph hcur).trans
    apply ih (h.phantomizeSnapshot hl (by rwa [hsrc])) ((hf.live_iff obj).mpr hlive)
    intro k hk
    obtain ⟨h1, h2, h3⟩ := hls k (List.mem_cons_of_mem _ hk)
    exact ⟨h1, (hf.src k).trans h2, (hf.phantomized obj).trans h3⟩

end Sound

/-- Phantomizing an object that the call curates. -/
theorem Sound.objectPhantomizeNode_emits {obj c : ℕ} (h : Sound s {
      refs := tableLinks s
      strong := [(obj, (s.objects obj).which)]
      curated := [(obj, c)] }) : Emits P s (objectPhantomizeNode s obj) := by
  have hcur : (obj, c) ∈ [(obj, c)] := List.mem_singleton_self _
  have hsec := h.phantomizeSection
  have hlive := hsec.live_of_curated hcur
  have hstart : Emits P s (Acid.phantomizeSection s obj).heap := by
    have h1 := h.updateCollector (x := obj)
    have hf1 := objectUpdateCollector_frame s obj
    have he1 := objectUpdateCollector_emits hP s obj
    unfold Acid.phantomizeSection
    generalize objectUpdateCollector s obj = s1 at h1 hf1 he1 ⊢
    have hcol : (s1.objects obj).collector ≠ none := (h1.classes.held hcur).1.ne_none
    dsimp only
    have he2 : Emits P s (s1.modifyObject obj fun o =>
        { o with count := Function.update o.count o.which (o.count o.which - 1) }) :=
      he1.trans (.of_trace rfl)
    have hcol2 : ((s1.modifyObject obj fun o =>
        { o with count := Function.update o.count o.which (o.count o.which - 1) }).objects
          obj).collector ≠ none := by
      rw [State.modifyObject_objects_self]
      exact hcol
    generalize s1.modifyObject obj (fun o =>
      { o with count := Function.update o.count o.which (o.count o.which - 1) }) = s2 at he2 hcol2 ⊢
    have he3 := he2.trans (Emits.check (p := 0 ≤ (s2.objects obj).count (s2.objects obj).which)
      (e := .assertFailed .phantomizeCount) fun _ => hP (.assertFailed .phantomizeCount) rfl)
    have hcol3 : ((s2.check (0 ≤ (s2.objects obj).count (s2.objects obj).which)
        (.assertFailed .phantomizeCount)).objects obj).collector ≠ none := by
      rwa [State.check_objects]
    generalize s2.check (0 ≤ (s2.objects obj).count (s2.objects obj).which)
      (.assertFailed .phantomizeCount) = s3 at he3 hcol3 ⊢
    have hflip : (Acid.phantomizeFlip s3 obj).trace = s3.trace ∧
        ((Acid.phantomizeFlip s3 obj).objects obj).collector = (s3.objects obj).collector := by
      unfold Acid.phantomizeFlip
      split_ifs
      · exact ⟨rfl, by rw [State.modifyObject_objects_self]⟩
      · exact ⟨rfl, rfl⟩
    split_ifs
    · exact he3
    · exact he3.trans (.of_trace hflip.1)
    · refine (he3.trans (.of_trace hflip.1)).trans ?_
      have hcol4 : (((Acid.phantomizeFlip s3 obj).modifyObject obj fun o =>
          { o with phantomized := true }).objects obj).collector ≠ none := by
        rw [State.modifyObject_objects_self]
        dsimp only
        rwa [hflip.2]
      unfold phantomizeStart
      rw [State.check_pos _ hcol4]
      exact .of_trace rfl
  have hphantoms : ∀ l ∈ (Acid.phantomizeSection s obj).phantoms,
      l ∈ ((Acid.phantomizeSection s obj).heap.objects obj).links.values ∧
        ((Acid.phantomizeSection s obj).heap.objects obj).phantomized = true := by
    unfold Acid.phantomizeSection
    dsimp only
    split_ifs
    · intro l hl
      cases hl
    · intro l hl
      cases hl
    · refine fun l hl => ⟨hl, ?_⟩
      rw [phantomizeStart, State.modifyObject_objects_self, State.check_objects,
        State.modifyObject_objects_self]
  rw [objectPhantomizeNode_sections, phantomizing_rest]
  generalize Acid.phantomizeSection s obj = w at *
  have hrun : Emits P s (w.phantoms.foldl (Acid.phantomizeSnapshot obj) w.heap) := by
    apply hstart.trans
    apply hsec.foldl_phantomizeSnapshot_emits hP hlive hcur
    intro l hl
    obtain ⟨hv, hph⟩ := hphantoms l hl
    exact ⟨hsec.mem_tableLinks.mpr ⟨obj, hv⟩, (hsec.tables.owned hv).2, hph⟩
  unfold phantomizeComplete
  dsimp only
  split_ifs
  · exact hrun.trans (.of_trace rfl)
  · exact hrun

/-- A call of `object_set` on a live object. -/
theorem Sound.objectSet_emits {L : Ledger} (h : Sound s L) {obj f : ℕ} {r : Option ℕ}
    (hlive : Live s obj)
    (hcol : P (.assertFailed .setCollector) ∨
      ((s.objects obj).phantomized = true → (s.objects obj).collector ≠ none)) :
    Emits P s (objectSet s obj f r) := by
  have hset : ∀ x, Emits P s (objectSetReferent s obj f x) := by
    intro x
    have h1 : Emits P s (Acid.linkAdded s obj f x) := .of_trace rfl
    have hadd := Sound.linkAdded (x := x) h f hlive
    have hobj := linkAdded_objects s obj f x obj
    rw [if_pos rfl] at hobj
    rw [objectSetReferent_eq, objectSetLabel_eq]
    generalize Acid.linkAdded s obj f x = s1 at h1 hadd hobj ⊢
    rw [hobj]
    split_ifs with hp
    · have h2 := h1.trans (hadd.collectors.forest.merge_emits hP obj x)
      have hassigned := (hadd.collectors.forest.unites obj x).assigned
      generalize (objectMergeCollectors s1 obj x).1 = s2 at h2 hassigned ⊢
      dsimp only
      have h3 : Emits P s2 (s2.check ((s2.objects obj).collector ≠ none)
          (.assertFailed .setCollector)) := by
        apply Emits.check
        intro hn
        rcases hcol with hc | hc
        · exact hc
        · have hne : (s1.objects obj).collector ≠ none := by
            rw [hobj]
            exact hc hp
          exact absurd (hassigned (.inl hne)).1 hn
      exact (h2.trans h3).trans (.of_trace rfl)
    · exact h1.trans (.of_trace rfl)
  have hrem : Emits P s
      (s.modifyObject obj fun o => { o with links := o.links.remove f }) := .of_trace rfl
  unfold objectSet
  dsimp only
  cases r with
  | none =>
    cases (s.objects obj).links.get f with
    | none => exact hrem
    | some l => exact hrem.trans (Acid.linkDec_emits hP _ l)
  | some x =>
    cases (s.objects obj).links.get f with
    | none => exact hset x
    | some l =>
      dsimp only
      split_ifs
      · exact .refl s
      · exact (hset x).trans (Acid.linkDec_emits hP _ l)

end

theorem Ends.no_fault {s : State} {a : Action} {e : Event} (h : Ends s a e) :
    e ≠ .noReturn ∧ ∀ b, e ≠ .assertFailed b := by
  have hrem : ∀ {obj}, Removes s obj e → e ≠ .noReturn ∧ ∀ b, e ≠ .assertFailed b := by
    rintro obj (rfl | ⟨l, _, rfl⟩)
    · exact ⟨by simp, by simp⟩
    · exact ⟨by simp, by simp⟩
  cases a with
  | iterate i c loop =>
    cases loop with
    | exit =>
      rw [h.2]
      exact ⟨by simp, by simp⟩
    | clean =>
      obtain ⟨obj, rest, _, _, hr⟩ := h
      exact hrem hr
    | merged => exact h.elim
    | collect => exact h.elim
    | recovery => exact h.elim
    | rebuild => exact h.elim
  | delete i o =>
    rcases h with hr | rfl | rfl
    · exact hrem hr
    · exact ⟨by simp, by simp⟩
    · exact ⟨by simp, by simp⟩
  | initStrong d => exact h.elim
  | incStrong o => exact h.elim
  | decStrong o => exact h.elim
  | set o f r => exact h.elim
  | enter i c => exact h.elim

section
variable {s : State} (run : Run anyStep initial s)
include run

/-- What a step of a run may log: no loop fails to end, and where an assertion fails it is one that
a count is not negative, that of `object_set`, or one of two in `object_recover_node`. -/
theorem Run.exec_emits {P : Event → Prop} (hP : ∀ e : Event, e.basic = true → P e) {a : Action}
    (he : Enabled s a)
    (hset : ∀ o f r, a = .set o f r → P (.assertFailed .setCollector) ∨
      ((s.objects o).phantomized = true → (s.objects o).collector ≠ none))
    (hw : RecoversWeak s a → P (.assertFailed .recoverWeak))
    (hcol : P (.assertFailed .recoverCollector) ∨ ∀ i c loop obj rest, a = .iterate i c loop →
      loop = .recovery ∨ loop = .rebuild → (s.safelist (c, loop.list)).data = obj :: rest →
      ((exec s a).objects obj).count2 = 0 → ((exec s a).objects obj).collector = none)
    (hE : ∀ e, Ends s a e → P e) : Emits P s (exec s a) := by
  have h := run.accounted
  apply exec_emits_of hP s a (.inr run.flags.complete)
  · rintro o f r rfl
    have hr : Reachable s o := by
      cases r with
      | none => exact he
      | some x => exact he.1
    exact Sound.objectSet_emits hP h (h.live_of_inUse (h.inUse_of_reachable rfl hr))
      (hset o f r rfl)
  · rintro i c obj rest rfl hd
    exact (h.poll hd).objectPhantomizeNode_emits hP
  · exact hw
  · exact hcol
  · right
    rintro i o rfl b
    exact (h.deletes.pending (.inl (List.mem_of_getElem? he))).2.1 b
  · exact hE

/-- Every call to `object_merge_collectors` has returned, and no recovery has waited. -/
theorem Run.returns : .noReturn ∉ s.trace ∧ .assertFailed .recoverWait ∉ s.trace := by
  induction run with
  | start => exact ⟨by simp [initial], by simp [initial]⟩
  | step run he _ ih =>
    have hem := run.exec_emits (P := fun e => e ≠ .noReturn ∧ e ≠ .assertFailed .recoverWait)
      (fun e hb => ⟨(by rintro rfl; cases hb), (by rintro rfl; cases hb)⟩) he
      (fun _ _ _ _ => .inl ⟨by simp, by simp⟩) (fun _ => ⟨by simp, by simp⟩)
      (.inl ⟨by simp, by simp⟩) (fun e he => ⟨he.no_fault.1, he.no_fault.2 _⟩)
    exact ⟨hem.absent (fun hp => hp.1 rfl) ih.1, hem.absent (fun hp => hp.2 rfl) ih.2⟩

end

end Acid

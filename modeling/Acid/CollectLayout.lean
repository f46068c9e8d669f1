import Acid.Termination

set_option autoImplicit false

/-!
# Where mutators and the collect loop put objects

Dropped references put objects in collect lists only, and a link that is set in a
phantomized object merges collectors. The links that the collect loop of a collector
phantomizes forward nothing but the root of its own class.
-/
namespace Acid
open PointerForest Tally

/-- Objects are added to the collect lists of roots, and collectors are merged. -/
inductive Collects (d : Layout) : Layout → Prop where
  | refl : Collects d d
  | push {e : Layout} (collects : Collects d e) {t : ℕ} (x : ℕ) (ht : e.root t = t) :
      Collects d (e.push (t, .collect) x)
  | merge {e : Layout} (collects : Collects d e) {t c : ℕ} (hne : c ≠ t) : Collects d (e.merge t c)

/-- The class of `c` gets objects to collect, or joins that of a root `t`, whose collect list may
have got an object just before. -/
inductive Joins (c : ℕ) (d : Layout) : Layout → Prop where
  | refl : Joins c d d
  | push {e : Layout} (joins : Joins c d e) (x : ℕ) : Joins c d (e.push (e.root c, .collect) x)
  | merge {e f : Layout} (joins : Joins c d e) {t : ℕ} (collects : f = e ∨ ∃ x, f = e.push (t, .collect) x)
      (ht : e.root t = t) (hne : e.root c ≠ t) : Joins c d (f.merge t (e.root c))

theorem Collects.trans {d e f : Layout} (h : Collects d e) (h' : Collects e f) : Collects d f := by
  induction h' with
  | refl => exact h
  | push _ x ht ih => exact ih.push x ht
  | merge _ hne ih => exact ih.merge hne

theorem Joins.trans {c : ℕ} {d e f : Layout} (h : Joins c d e) (h' : Joins c e f) : Joins c d f := by
  induction h' with
  | refl => exact h
  | push _ x ih => exact ih.push x
  | merge _ hf ht hne ih => exact ih.merge hf ht hne

/-! ## Dropped references -/

namespace Collectors
variable {s : State} (h : Collectors s)
include h

theorem modifyObject (x : ℕ) {f : Object → Object} (hf : ∀ o, (f o).collector = o.collector)
    (hfreed : ∀ o, (f o).freed = o.freed) : Collectors (s.modifyObject x f) := by
  refine h.congr rfl rfl rfl (fun y => ?_) (fun y _ hy => ⟨hy.1, ?_⟩) fun _ hm => hm
  · rw [State.modifyObject_objects]
    split_ifs with hy
    · rw [hf, hy]
    · rfl
  · rw [State.modifyObject_objects]
    split_ifs with hyx
    · rw [hfreed, ← hyx]
      exact hy.2
    · exact hy.2

theorem layout_addObject (c x : ℕ) :
    layout (collectorAddObject s c x) = (layout s).push (collectorUpdate s c, .collect) x ∧
      ((collectorAddObject s c x).objects x).collector = some (collectorUpdate s c) := by
  have hidem := h.update_idem c
  unfold collectorAddObject
  dsimp only
  have h1 := (h.modifyObject x (f := fun o =>
    { o with count := Function.update o.count o.which (o.count o.which + 1) })
    (fun _ => rfl) fun _ => rfl).modifyObject x (f := fun o => { o with count2 := o.count2 + 1 })
    (fun _ => rfl) fun _ => rfl
  generalize hu : (s.modifyObject x fun o =>
    { o with count := Function.update o.count o.which (o.count o.which + 1) }).modifyObject x
      (fun o => { o with count2 := o.count2 + 1 }) = u at h1 ⊢
  have hlay : layout u = layout s := by
    rw [← hu]
    exact layout_congr rfl rfl
  have hupdate : ∀ a, collectorUpdate u a = collectorUpdate s a :=
    fun a => congrArg (fun d : Layout => d.root a) hlay
  constructor
  · rw [layout_setCollector, h1.layout_add, hupdate, hidem, hlay]
    split_ifs <;> rfl
  · rw [objectSetCollector_collector, if_pos rfl]

/-- A collector that is made for an object has empty lists and no forward pointer. -/
theorem ensureCollector {x : ℕ} (hx : Live s x) : Collectors (objectEnsureCollector s x) ∧
    layout (objectEnsureCollector s x) = layout s ∧
    ((objectEnsureCollector s x).objects x).collector =
      some ((s.objects x).collector.getD s.numCollector) := by
  unfold objectEnsureCollector
  cases hc : (s.objects x).collector with
  | some c => exact ⟨h, rfl, hc⟩
  | none =>
    have hset : Collectors (objectSetCollector (collectorCreate s).1 x (some (collectorCreate s).2)) := by
      refine h.create.setCollector (fun _ => hx) fun d hd => ?_
      rw [← Option.some.inj hd]
      exact ⟨Nat.lt_succ_self _, by simp [collectorCreate]⟩
    refine ⟨hset.congr rfl rfl rfl (fun _ => rfl) (fun _ _ hl => hl) fun _ hm => hm, ?_, ?_⟩
    · dsimp only
      rw [← h.layout_create, ← layout_setCollector (collectorCreate s).1 x]
      exact layout_congr rfl rfl
    · change ((objectSetCollector _ x _).objects x).collector = _
      rw [objectSetCollector_collector, if_pos rfl]
      rfl

/-- A reference that is dropped may put its object in the collect list of its class. -/
theorem layout_dec {x : ℕ} (hx : Live s x) (w : Bool) :
    layout (objectDec s x w) = layout s ∨ ∃ t, collectorUpdate s t = t ∧
      ((objectDec s x w).objects x).collector = some t ∧
      layout (objectDec s x w) = (layout s).push (t, .collect) x := by
  unfold objectDec
  dsimp only
  have h1 := (h.modifyObject x (f := fun o =>
    { o with count := Function.update o.count w (o.count w - 1) }) (fun _ => rfl) fun _ => rfl)
  have hlay1 : layout (s.modifyObject x fun o =>
      { o with count := Function.update o.count w (o.count w - 1) }) = layout s := layout_congr rfl rfl
  have hlive1 : Live (s.modifyObject x fun o =>
      { o with count := Function.update o.count w (o.count w - 1) }) x :=
    ((modifyObject_frame s x rfl).live_iff x).mpr hx
  generalize s.modifyObject x (fun o =>
    { o with count := Function.update o.count w (o.count w - 1) }) = s1 at h1 hlay1 hlive1 ⊢
  have h2 := h1.check (0 ≤ (s1.objects x).count w) (e := .assertFailed .decCount) (by simp)
  have hlay2 := (layout_check s1 (0 ≤ (s1.objects x).count w) (.assertFailed .decCount)).trans hlay1
  have hlive2 := ((check_frame s1 (0 ≤ (s1.objects x).count w)
    (.assertFailed .decCount)).live_iff x).mpr hlive1
  generalize s1.check (0 ≤ (s1.objects x).count w) (.assertFailed .decCount) = s2 at h2 hlay2 hlive2 ⊢
  split_ifs
  · exact .inl (hlay2 ▸ layout_congr rfl rfl)
  · obtain ⟨h3, hlay3, hcol⟩ := h2.ensureCollector hlive2
    rw [hcol]
    generalize objectEnsureCollector s2 x = s3 at h3 hlay3
    obtain ⟨hlay, hself⟩ := h3.layout_addObject ((s2.objects x).collector.getD s2.numCollector) x
    have hupdate : collectorUpdate s3 = collectorUpdate s := congrArg Layout.root (hlay3.trans hlay2)
    refine .inr ⟨_, ?_, hself, ?_⟩
    · rw [← hupdate]
      exact h3.update_idem _
    · rw [← hlay2, ← hlay3]
      exact hlay
  · exact .inl hlay2

end Collectors

theorem layout_decPhantom (s : State) (x : ℕ) : layout (objectDecPhantom s x) = layout s := by
  have h1 : ∀ (p : Prop) [Decidable p] (e : Event),
      layout ((s.modifyObject x fun o => { o with count2 := o.count2 - 1 }).check p e) = layout s := by
    intro p _ e
    rw [layout_check]
    exact layout_congr rfl rfl
  unfold objectDecPhantom
  dsimp only
  split_ifs
  · exact (layout_congr rfl rfl).trans (h1 _ _)
  · rw [layout_setCollector]
    exact h1 _ _
  · exact h1 _ _

theorem Collectors.layout_linkDec {s : State} (h : Collectors s) {l : ℕ}
    (hx : Live s (s.links l).target) :
    layout (linkDec s l) = layout s ∨ ((s.links l).phantomized = false ∧
      ∃ t, collectorUpdate s t = t ∧
        ((linkDec s l).objects (s.links l).target).collector = some t ∧
        layout (linkDec s l) = (layout s).push (t, .collect) (s.links l).target) := by
  unfold linkDec
  dsimp only
  by_cases hp : (s.links l).phantomized = true
  · rw [if_pos hp]
    exact .inl (layout_decPhantom s _)
  · rw [if_neg hp]
    exact (h.layout_dec hx _).imp id fun hpush => ⟨by simpa using hp, hpush⟩

/-! ## The collect loop -/

/-- The class of `obj` joins that of the target, which may have been added to the collect list of
its class just before. -/
theorem Collectors.layout_mergeCollectors {s : State} (h : Collectors s) {obj target c e : ℕ}
    {d : Layout} (hsrc : (s.objects obj).collector = some e)
    (hclass : collectorUpdate s e = collectorUpdate s c)
    (hadded : layout s = d ∨ ∃ t, collectorUpdate s t = t ∧
      (s.objects target).collector = some t ∧ layout s = d.push (t, .collect) target) :
    Joins c d (layout (objectMergeCollectors s obj target).1) := by
  have hroot : collectorUpdate s = d.root := by
    rcases hadded with he | ⟨t, _, _, he⟩ <;> exact congrArg Layout.root he
  have hout := h.forest.outcome obj target
  generalize objectMergeCollectors s obj target = p at hout ⊢
  have hsame : (∀ t, (s.objects target).collector = some t →
      collectorUpdate s t = collectorUpdate s c) → Joins c d (layout s) := by
    intro htarget
    rcases hadded with he | ⟨t, ht, hcol, he⟩
    · rw [he]
      exact .refl
    · have hteq := htarget t hcol
      rw [ht, hroot] at hteq
      rw [he, hteq]
      exact Joins.push .refl _
  cases hout with
  | neither ho =>
    rw [ho] at hsrc
    cases hsrc
  | taken ho =>
    rw [ho] at hsrc
    cases hsrc
  | given ho ht =>
    rw [layout_setCollector]
    apply hsame
    intro t hcol
    rw [ht] at hcol
    cases hcol
  | equal ho ht =>
    apply hsame
    intro t hcol
    rw [ht, ← ho, hsrc] at hcol
    rw [← Option.some.inj hcol, hclass]
  | found ho ht _ hd he =>
    rw [layout_setCollector, layout_setCollector]
    apply hsame
    intro t hcol
    rw [ht] at hcol
    rw [← Option.some.inj hcol, hd, ← he]
    rw [hsrc] at ho
    rw [← Option.some.inj ho, hclass]
  | @merged c' t' d' e' ho ht _ hd he hne =>
    rw [hsrc] at ho
    rw [← Option.some.inj ho, hclass] at he
    have hdr : s.forward d' = none := hd ▸ h.update_isRoot t'
    have her : s.forward e' = none := he ▸ h.update_isRoot c
    have had : Alive s d' := hd ▸ h.update_alive (h.object_alive ht).2
    rw [layout_setCollector, layout_setCollector, h.layout_merge hdr her hne had, ← he, hroot]
    apply Joins.merge .refl
    · rcases hadded with hl | ⟨t, htt, hcol, hl⟩
      · exact .inl hl
      · rw [ht] at hcol
        rw [← Option.some.inj hcol, hd] at htt
        refine .inr ⟨target, ?_⟩
        rw [hl, htt, Option.some.inj hcol]
    · rw [← hroot]
      exact collectorUpdate_of_root hdr
    · rw [← hroot, he]
      exact hne

namespace Sound
variable {s : State} {L : Ledger}

theorem layout_linkPhantomize (h : Sound s L) {l c : ℕ} (hl : l ∈ L.refs)
    (hcur : ((s.links l).src, c) ∈ L.curated) :
    Joins c (layout s) (layout (Acid.linkPhantomize s l)) := by
  unfold Acid.linkPhantomize
  dsimp only
  split_ifs with hp
  · exact .refl
  · have hlive := (h.live_of_link hl).1
    have hdec := h.phantomizeDec hl (by simpa using hp)
    have hcs := h.collectors.modifyObject (s.links l).target
      (f := fun o => { o with count2 := o.count2 + 1 }) (fun _ => rfl) fun _ => rfl
    have hlay0 : layout (s.modifyObject (s.links l).target fun o =>
        { o with count2 := o.count2 + 1 }) = layout s := layout_congr rfl rfl
    have hcase := hcs.layout_linkDec (l := l)
      (((modifyObject_frame s (s.links l).target rfl).live_iff _).mpr hlive)
    have hlinks0 : (s.modifyObject (s.links l).target fun o =>
        { o with count2 := o.count2 + 1 }).links = s.links := rfl
    rw [hlay0, hlinks0] at hcase
    have hroot0 : collectorUpdate (s.modifyObject (s.links l).target fun o =>
        { o with count2 := o.count2 + 1 }) = collectorUpdate s := congrArg Layout.root hlay0
    rw [hroot0] at hcase
    generalize Acid.linkDec (s.modifyObject (s.links l).target fun o =>
      { o with count2 := o.count2 + 1 }) l = s2 at hdec hcase ⊢
    have hcheck := hdec.check ((s2.objects (s.links l).target).collector ≠ none ∨
      (s2.objects (s.links l).src).collector ≠ none) (e := .assertFailed .linkCollector) rfl
    have hobj3 := s2.check_objects ((s2.objects (s.links l).target).collector ≠ none ∨
      (s2.objects (s.links l).src).collector ≠ none) (.assertFailed .linkCollector)
    have hlay3 := layout_check s2 ((s2.objects (s.links l).target).collector ≠ none ∨
      (s2.objects (s.links l).src).collector ≠ none) (.assertFailed .linkCollector)
    generalize s2.check ((s2.objects (s.links l).target).collector ≠ none ∨
      (s2.objects (s.links l).src).collector ≠ none) (.assertFailed .linkCollector) = s3
      at hcheck hobj3 hlay3 ⊢
    obtain ⟨e, hsrc, hclass⟩ := (hcheck.classes.held hcur).1
    have hjoins : Joins c (layout s)
        (layout (objectMergeCollectors s3 (s.links l).src (s.links l).target).1) := by
      apply hcheck.collectors.layout_mergeCollectors hsrc hclass
      rw [hlay3]
      refine hcase.imp id ?_
      rintro ⟨_, t, ht, hcol, he⟩
      have hroot3 : collectorUpdate s3 = collectorUpdate s := congrArg Layout.root (hlay3.trans he)
      rw [hroot3, hobj3]
      exact ⟨t, ht, hcol, he⟩
    generalize (objectMergeCollectors s3 (s.links l).src (s.links l).target).1 = s4 at hjoins ⊢
    rw [layout_check]
    exact hjoins

theorem layout_phantomizeSnapshot (h : Sound s L) {obj l c : ℕ} (hl : l ∈ L.refs)
    (hsrc : (s.links l).src = obj) (hcur : (obj, c) ∈ L.curated) :
    Joins c (layout s) (layout (Acid.phantomizeSnapshot obj s l)) := by
  unfold Acid.phantomizeSnapshot
  dsimp only
  have h1 := h.check ((s.objects obj).phantomized = true) (e := .assertFailed .phantomizeObject) rfl
  have hf1 := check_frame s ((s.objects obj).phantomized = true) (.assertFailed .phantomizeObject)
  rw [← layout_check s ((s.objects obj).phantomized = true) (.assertFailed .phantomizeObject)]
  generalize s.check ((s.objects obj).phantomized = true) (.assertFailed .phantomizeObject) = s1
    at h1 hf1 ⊢
  split_ifs
  · exact .refl
  · have h2 := h1.check ((s1.objects (s1.links l).src).phantomized = true)
      (e := .assertFailed .phantomizeSource) rfl
    have hf2 := hf1.trans (check_frame s1 ((s1.objects (s1.links l).src).phantomized = true)
      (.assertFailed .phantomizeSource))
    rw [← layout_check s1 ((s1.objects (s1.links l).src).phantomized = true)
      (.assertFailed .phantomizeSource)]
    generalize s1.check ((s1.objects (s1.links l).src).phantomized = true)
      (.assertFailed .phantomizeSource) = s2 at h2 hf2 ⊢
    have h3 := h2.check ((s2.objects (s1.links l).src).collector ≠ none)
      (e := .assertFailed .phantomizeSourceCollector) rfl
    have hf3 := hf2.trans (check_frame s2 ((s2.objects (s1.links l).src).collector ≠ none)
      (.assertFailed .phantomizeSourceCollector))
    rw [← layout_check s2 ((s2.objects (s1.links l).src).collector ≠ none)
      (.assertFailed .phantomizeSourceCollector)]
    apply h3.layout_linkPhantomize hl
    rw [hf3.links, hsrc]
    exact hcur

theorem layout_foldl_phantomizeSnapshot (h : Sound s L) {obj c : ℕ} (hlive : Live s obj)
    (hcur : (obj, c) ∈ L.curated) (ls : List ℕ) (hls : ∀ l ∈ ls, l ∈ L.refs ∧ (s.links l).src = obj) :
    Joins c (layout s) (layout (ls.foldl (Acid.phantomizeSnapshot obj) s)) := by
  induction ls generalizing s with
  | nil => exact .refl
  | cons l ls ih =>
    obtain ⟨hl, hsrc⟩ := hls l (List.mem_cons_self ..)
    have hf := phantomizeSnapshot_frame obj s l
    apply (h.layout_phantomizeSnapshot hl hsrc hcur).trans
    apply ih (h.phantomizeSnapshot hl (by rwa [hsrc])) ((hf.live_iff obj).mpr hlive)
    intro k hk
    obtain ⟨h1, h2⟩ := hls k (List.mem_cons_of_mem _ hk)
    exact ⟨h1, (hf.src k).trans h2⟩

end Sound

/-- Only an object that is not phantomized yet has its links taken down. -/
theorem layout_phantomizeSection (s : State) (obj : ℕ) :
    layout (phantomizeSection s obj).heap = layout s ∧
    ((phantomizeSection s obj).phantoms = [] ∨
      ((s.objects obj).phantomized = false ∧
        ((phantomizeSection s obj).heap.objects obj).phantomized = true ∧
        (phantomizeSection s obj).phantoms =
          ((phantomizeSection s obj).heap.objects obj).links.values)) := by
  have hf1 := objectUpdateCollector_frame s obj
  have hlay1 : layout (objectUpdateCollector s obj) = layout s := by
    unfold objectUpdateCollector
    split
    · exact layout_setCollector s obj _
    · exact layout_congr rfl rfl
  unfold phantomizeSection
  generalize objectUpdateCollector s obj = s1 at hf1 hlay1 ⊢
  dsimp only
  have hf2 := hf1.trans (modifyObject_frame s1 obj (f := fun o =>
    { o with count := Function.update o.count o.which (o.count o.which - 1) }) rfl)
  have hlay2 : layout (s1.modifyObject obj fun o =>
      { o with count := Function.update o.count o.which (o.count o.which - 1) }) = layout s :=
    (layout_congr rfl rfl).trans hlay1
  generalize s1.modifyObject obj (fun o =>
    { o with count := Function.update o.count o.which (o.count o.which - 1) }) = s2 at hf2 hlay2 ⊢
  have hf3 := hf2.trans (check_frame s2 (0 ≤ (s2.objects obj).count (s2.objects obj).which)
    (.assertFailed .phantomizeCount))
  have hlay3 := (layout_check s2 (0 ≤ (s2.objects obj).count (s2.objects obj).which)
    (.assertFailed .phantomizeCount)).trans hlay2
  generalize s2.check (0 ≤ (s2.objects obj).count (s2.objects obj).which)
    (.assertFailed .phantomizeCount) = s3 at hf3 hlay3 ⊢
  have hflip : layout (phantomizeFlip s3 obj) = layout s := by
    rw [← hlay3]
    unfold phantomizeFlip
    split_ifs
    · exact layout_congr rfl rfl
    · rfl
  have hph : ((phantomizeFlip s3 obj).objects obj).phantomized = (s.objects obj).phantomized := by
    obtain ⟨b, hrec⟩ := (phantomizeFlip_spec s3 obj).2.1
    rw [hrec, ← hf3.phantomized]
  split_ifs with hpos hp
  · exact ⟨hlay3, .inl rfl⟩
  · exact ⟨hflip, .inl rfl⟩
  · refine ⟨?_, .inr ⟨?_, ?_, rfl⟩⟩
    · rw [← hflip]
      exact (layout_congr rfl rfl).trans ((layout_check _ _ _).trans (layout_congr rfl rfl))
    · rw [← hph]
      simpa using hp
    · rw [phantomizeStart_objects, if_pos rfl]

/-- The class of `c` may join others only while it phantomizes an object. -/
theorem Sound.layout_phantomizeNode {s : State} {obj c : ℕ} (h : Sound s {
      refs := tableLinks s
      strong := [(obj, (s.objects obj).which)]
      curated := [(obj, c)] }) :
    layout (objectPhantomizeNode s obj) = layout s ∨
    ((s.objects obj).phantomized = false ∧
      ((objectPhantomizeNode s obj).objects obj).phantomized = true ∧
      Joins c (layout s) (layout (objectPhantomizeNode s obj))) := by
  have hcur : (obj, c) ∈ [(obj, c)] := List.mem_singleton_self _
  have hsec := h.phantomizeSection
  have hlive := hsec.live_of_curated hcur
  obtain ⟨hlay, hphantoms⟩ := layout_phantomizeSection s obj
  have hcomplete : ∀ w : PhantomizeWindow, layout (phantomizeComplete obj w) = layout w.heap ∧
      ((phantomizeComplete obj w).objects obj).phantomized = (w.heap.objects obj).phantomized := by
    intro w
    unfold phantomizeComplete
    split_ifs
    · rw [State.modifyObject_objects_self]
      exact ⟨layout_congr rfl rfl, rfl⟩
    · exact ⟨rfl, rfl⟩
  rw [objectPhantomizeNode_sections, phantomizing_rest, (hcomplete _).1, (hcomplete _).2]
  dsimp only
  rcases hphantoms with hnil | ⟨hp, hheap, hls⟩
  · left
    rw [hnil]
    exact hlay
  · right
    refine ⟨hp, ?_, ?_⟩
    · rw [(foldl_linkFrame (phantomizeSnapshot_frame obj) _ _).phantomized]
      exact hheap
    · rw [← hlay]
      apply hsec.layout_foldl_phantomizeSnapshot hlive hcur
      intro l hl
      rw [hls] at hl
      exact ⟨hsec.mem_tableLinks.mpr ⟨obj, hl⟩, (hsec.tables.owned hl).2⟩

/-- What the collect loop does to the lists: the polled object goes to the recovery list, or to the
merged list of the collector that has been joined. -/
theorem Sound.layout_collected {s : State} (h : Sound s (restLedger False False s)) (i : ℕ)
    {c obj : ℕ} {rest : List ℕ} (hd : (s.safelist (c, .collect)).data = obj :: rest) :
    ∃ e, (e = (layout s).poll (c, .collect) ∨ ((s.objects obj).phantomized = false ∧
        ((Acid.exec s (.iterate i c .collect)).objects obj).phantomized = true ∧
        Joins c ((layout s).poll (c, .collect)) e)) ∧
      layout (Acid.exec s (.iterate i c .collect)) =
        e.push (e.root c, if e.root c = c then .recovery else .merged) obj := by
  have hpoll : Sound (afterPoll s c .collect obj) {
      refs := tableLinks (afterPoll s c .collect obj)
      strong := [(obj, ((afterPoll s c .collect obj).objects obj).which)]
      curated := [(obj, c)] } := by
    rw [afterPoll_objects, tableLinks_congr (afterPoll_frame s c .collect obj).graph]
    exact ((h.poll hd rfl).check _ rfl).weaken (Set.empty_subset _) (Set.empty_subset _)
  have hlay : layout (afterPoll s c .collect obj) = (layout s).poll (c, .collect) :=
    layout_afterPoll .collect hd
  have hbody := layout_iterate s i c .collect (by simp) hd
  have hobj : ((Acid.exec s (.iterate i c .collect)).objects obj).phantomized =
      ((objectPhantomizeNode (afterPoll s c .collect obj) obj).objects obj).phantomized := by
    rw [(Sound.iterate_objects .collect (by simp) hd).1]
    exact congrArg Object.phantomized (congrFun (safelistAdd_same _ _ _).objects obj)
  rw [hbody, hobj, ← afterPoll_objects s c .collect obj, ← hlay]
  generalize afterPoll s c .collect obj = u at hpoll
  have hnode : Sound (objectPhantomizeNode u obj)
      { refs := tableLinks u, curated := [(obj, c)], kept := ∅ } := by
    apply Sound.phantomizeNode (L := { refs := tableLinks u }) hpoll
    · intro l hl
      exact hpoll.mem_tableLinks.mpr ⟨obj, hl⟩
    · exact fun hx => absurd hx id
    · exact fun x hx => absurd hx id
  refine ⟨_, hpoll.layout_phantomizeNode, ?_⟩
  refine (hnode.collectors.layout_add c .recovery obj).trans ?_
  have hroot : (objectPhantomizeNode u obj).forward c = none ↔
      (layout (objectPhantomizeNode u obj)).root c = c := by
    constructor
    · exact collectorUpdate_of_root
    · intro he
      have hend := hnode.collectors.update_isRoot c
      rwa [show collectorUpdate (objectPhantomizeNode u obj) c = c from he] at hend
  by_cases hc : (objectPhantomizeNode u obj).forward c = none
  · rw [if_pos hc, if_pos (hroot.mp hc)]
    rfl
  · rw [if_neg hc, if_neg fun he => hc (hroot.mpr he)]
    rfl

/-! ## Links that are destroyed -/

theorem Sound.layout_linkDestroy {s : State} {L : Ledger} (h : Sound s L) {l : ℕ} (hl : l ∈ L.refs) :
    Collects (layout s) (layout (Acid.linkDestroy s l)) := by
  have hend : layout (Acid.linkDestroy s l) = layout (Acid.linkDec s l) := layout_congr rfl rfl
  rw [hend]
  rcases h.collectors.layout_linkDec (h.live_of_link hl).1 with he | ⟨_, t, ht, _, he⟩
  · rw [he]
    exact .refl
  · rw [he]
    exact .push .refl _ ht

theorem layout_linkDestroy_phantomized {s : State} {l : ℕ} (hp : (s.links l).phantomized = true) :
    layout (linkDestroy s l) = layout s := by
  have hend : layout (linkDestroy s l) = layout (linkDec s l) := layout_congr rfl rfl
  have hdec : linkDec s l = objectDecPhantom s (s.links l).target := by
    unfold linkDec
    dsimp only
    rw [if_pos hp]
  rw [hend, hdec, layout_decPhantom]

theorem layout_foldl_linkDestroy {ls : List ℕ} {s : State}
    (hls : ∀ l ∈ ls, (s.links l).phantomized = true) :
    layout (ls.foldl linkDestroy s) = layout s := by
  induction ls generalizing s with
  | nil => rfl
  | cons l ls ih =>
    rw [List.foldl_cons, ih, layout_linkDestroy_phantomized (hls l (List.mem_cons_self ..))]
    intro k hk
    rw [linkDestroy_links]
    split_ifs with hkl
    · subst k
      exact hls l (List.mem_cons_self ..)
    · exact hls k (List.mem_cons_of_mem _ hk)

theorem layout_removeStart (s : State) (obj : ℕ) : layout (removeStart s obj) = layout s := by
  unfold removeStart
  dsimp only
  rw [layout_check, layout_check]
  exact layout_congr rfl rfl

/-- The links of a phantomized object give back phantom references only. -/
theorem layout_cleanNode {s : State} {obj : ℕ} (hls : (∀ b, (s.objects obj).count b = 0) →
      ∀ l ∈ (s.objects obj).links.values, (s.links l).phantomized = true) :
    layout (objectCleanNode s obj) = layout s := by
  unfold objectCleanNode
  dsimp only
  rw [layout_decPhantom]
  split_ifs with huse
  · rw [layout_check, layout_check]
  · rw [objectRemoveLinks_eq, layout_foldl_linkDestroy, layout_removeStart, layout_check, layout_check]
    simp only [removeStart_links, State.check_objects, State.check_links] at huse ⊢
    apply hls
    intro b
    push Not at huse
    cases b
    · exact huse.1
    · exact huse.2

theorem layout_del (s : State) (obj : ℕ) : layout (objectDel s obj) = layout s := by
  obtain ⟨_, _, _, hcs, hnc, _⟩ := objectFree_rest (delStart s obj) obj
  have hstart : layout (delStart s obj) = layout s := by
    unfold delStart
    dsimp only
    have hmod : ∀ u : State, layout (u.modifyObject obj disownRecord) = layout u :=
      fun u => layout_congr rfl rfl
    rw [hmod, layout_check, layout_setCollector]
    exact layout_congr rfl rfl
  rw [objectDel_eq, layout_congr hnc hcs, hstart]

namespace Sound
variable {s : State} {L : Ledger}

theorem layout_foldl_linkDestroy {ls : List ℕ} (h : Sound s L) (hk : L.kept = ∅) (hnd : ls.Nodup)
    (hls : ∀ l ∈ ls, l ∈ L.refs) : Collects (layout s) (layout (ls.foldl Acid.linkDestroy s)) := by
  induction ls generalizing s L with
  | nil => exact .refl
  | cons l ls ih =>
    obtain ⟨hnot, hnd'⟩ := List.nodup_cons.mp hnd
    have hl := hls l (List.mem_cons_self ..)
    have hstep : Sound (Acid.linkDestroy s l) { L with refs := L.refs.erase l } := by
      apply h.linkDestroy hl
      rintro - - -
      rw [hk]
      exact Set.notMem_empty _
    apply (h.layout_linkDestroy hl).trans
    apply ih hstep hk hnd'
    intro k hm
    refine Finset.mem_erase.mpr ⟨?_, hls k (List.mem_cons_of_mem _ hm)⟩
    rintro rfl
    exact hnot hm

theorem layout_delete (h : Sound s L) (hk : L.kept = ∅) {obj : ℕ}
    (hrefs : ∀ l ∈ (s.objects obj).links.values, l ∈ L.refs) :
    Collects (layout s) (layout (objectRequestDeleteTaskRun s obj)) := by
  rw [objectRequestDeleteTaskRun, layout_del, objectRemoveLinks_eq, ← layout_removeStart s obj]
  exact (h.removeStart obj).layout_foldl_linkDestroy hk (h.tables.nodup obj) hrefs

end Sound

/-! ## Mutators -/

theorem Collectors.layout_dec_collects {s : State} (h : Collectors s) {x : ℕ} (hx : Live s x)
    (w : Bool) : Collects (layout s) (layout (objectDec s x w)) := by
  rcases h.layout_dec hx w with he | ⟨t, ht, _, he⟩
  · rw [he]
    exact .refl
  · rw [he]
    exact .push .refl _ ht

theorem Collectors.layout_linkDec_collects {s : State} (h : Collectors s) {l : ℕ}
    (hx : Live s (s.links l).target) : Collects (layout s) (layout (linkDec s l)) := by
  rcases h.layout_linkDec hx with he | ⟨_, t, ht, _, he⟩
  · rw [he]
    exact .refl
  · rw [he]
    exact .push .refl _ ht

theorem Collectors.layout_mergeCollectors_collects {s : State} (h : Collectors s) (obj target : ℕ) :
    Collects (layout s) (layout (objectMergeCollectors s obj target).1) := by
  have hout := h.forest.outcome obj target
  generalize objectMergeCollectors s obj target = p at hout ⊢
  cases hout with
  | neither => exact .refl
  | taken =>
    rw [layout_setCollector]
    exact .refl
  | given =>
    rw [layout_setCollector]
    exact .refl
  | equal => exact .refl
  | found =>
    rw [layout_setCollector, layout_setCollector]
    exact .refl
  | @merged c t d e _ ht _ hd he hne =>
    have hdr : s.forward d = none := hd ▸ h.update_isRoot t
    have her : s.forward e = none := he ▸ h.update_isRoot c
    have had : Alive s d := hd ▸ h.update_alive (h.object_alive ht).2
    rw [layout_setCollector, layout_setCollector, h.layout_merge hdr her hne had]
    exact .merge .refl hne

namespace Sound
variable {s : State}

/-- A new link merges collectors where its source is phantomized. -/
theorem layout_setReferent {L : Ledger} (h : Sound s L) {o : ℕ} (f x : ℕ) (ho : Live s o) :
    Collects (layout s) (layout (objectSetReferent s o f x)) := by
  have hadded : layout (Acid.linkAdded s o f x) = layout s := layout_congr rfl rfl
  have hobject : ∀ (u : State) (y : ℕ) (g : Object → Object), layout (u.modifyObject y g) = layout u :=
    fun _ _ _ => layout_congr rfl rfl
  have hlink : ∀ (u : State) (l : ℕ) (g : Link → Link), layout (u.modifyLink l g) = layout u :=
    fun _ _ _ => layout_congr rfl rfl
  rw [objectSetReferent_eq, objectSetLabel_eq, ← hadded]
  split_ifs
  · rw [hlink, hobject, layout_check]
    exact (h.linkAdded (x := x) f ho).collectors.layout_mergeCollectors_collects o x
  · rw [hobject, hlink]
    exact .refl

theorem layout_set (h : Sound s (restLedger False False s)) {o f : ℕ} {r : Option ℕ}
    (he : Enabled s (.set o f r)) : Collects (layout s) (layout (objectSet s o f r)) := by
  have ho : Live s o := by
    apply h.live_of_inUse
    cases r with
    | none => exact h.inUse_of_reachable rfl he
    | some x => exact h.inUse_of_reachable rfl he.1
  have hold : ∀ l, (s.objects o).links.get f = some l →
      l ∈ tableLinks s ∧ l ≠ s.linkCount ∧ Live s (s.links l).target := by
    intro l hget
    have hl : l ∈ (s.objects o).links.values := ((s.objects o).links.mem_values l).mpr
      ⟨f, ((s.objects o).links.get_eq_some f l).mp hget⟩
    have href := h.mem_tableLinks.mpr ⟨o, hl⟩
    exact ⟨href, Nat.ne_of_lt (h.tables.owned hl).1, (h.live_of_link href).1⟩
  unfold objectSet
  dsimp only
  cases r with
  | none =>
    have hcs := h.collectors.modifyObject o (f := fun a => { a with links := a.links.remove f })
      (fun _ => rfl) fun _ => rfl
    have hlay : layout (s.modifyObject o fun a => { a with links := a.links.remove f }) = layout s :=
      layout_congr rfl rfl
    have hmod : ∀ y, Live (s.modifyObject o fun a => { a with links := a.links.remove f }) y ↔
        Live s y := by
      intro y
      rw [Live, Live, State.modifyObject_objects]
      split_ifs with hy
      · rw [hy]
        rfl
      · rfl
    cases hget : (s.objects o).links.get f with
    | none =>
      dsimp only
      rw [hlay]
      exact .refl
    | some l =>
      dsimp only
      rw [← hlay]
      exact hcs.layout_linkDec_collects ((hmod _).mpr (hold l hget).2.2)
  | some x =>
    have hset := h.layout_setReferent f x ho
    cases hget : (s.objects o).links.get f with
    | none => exact hset
    | some l =>
      dsimp only
      split_ifs
      · exact .refl
      · obtain ⟨href, hne, _⟩ := hold l hget
        have hafter : Sound (objectSetReferent s o f x) _ :=
          h.setReferent f ho (h.inUse_of_reachable rfl he.2) fun hf => hf.elim
        apply hset.trans
        apply hafter.collectors.layout_linkDec_collects
        exact (hafter.live_of_link (Finset.mem_insert_of_mem href)).1

/-- What mutators and delete tasks do to the lists. -/
theorem exec_collects (h : Sound s (restLedger False False s)) {a : Action} (he : Enabled s a)
    (ha : a.whole = true) : Collects (layout s) (layout (Acid.exec s a)) := by
  have hsame : ∀ {u : State}, layout u = layout s → Collects (layout s) (layout u) := by
    intro u hu
    rw [hu]
    exact .refl
  cases a with
  | initStrong d => exact hsame (layout_congr rfl rfl)
  | incStrong o => exact hsame (layout_congr rfl rfl)
  | decStrong o =>
    have hpos := h.balance.count_pos_of_claim he
    have hcs : Collectors (s.dropClaim o) :=
      h.collectors.congr rfl rfl rfl (fun _ => rfl) (fun _ _ hl => hl) fun _ hm => hm
    have hlay : layout (s.dropClaim o) = layout s := layout_congr rfl rfl
    rw [← hlay]
    exact hcs.layout_dec_collects (x := o) (h.live_of_count hpos.ne') _
  | set o f r => exact h.layout_set he
  | enter i c => cases ha
  | iterate i c loop => cases ha
  | delete i o =>
    have h1 := (h.takeDelete he).weaken (K := ∅) (S := Set.univ \ {o}) (Set.empty_subset _) le_rfl
    have hlay : layout { s with work := s.work.eraseIdx i } = layout s := layout_congr rfl rfl
    rw [← hlay]
    apply h1.layout_delete rfl
    intro l hl
    exact h.mem_tableLinks.mpr ⟨o, hl⟩

end Sound
end Acid

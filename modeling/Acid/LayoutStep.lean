import Acid.SoundRun

set_option autoImplicit false

/-!
# What a step does to the lists

A step that polls nothing adds objects to lists and merges collectors. Only the
rebuilding of links adds to a rebuild list.
-/
namespace Acid
open PointerForest Tally

theorem layout_setCollector (s : State) (x : ℕ) (c : Option ℕ) :
    layout (objectSetCollector s x c) = layout s := by
  apply layout_eq (objectSetCollector_rest s x c).1 (objectSetCollector_forward s x c)
  intro r
  rw [objectSetCollector_safelist]

theorem layout_check (s : State) (p : Prop) [Decidable p] (e : Event) :
    layout (s.check p e) = layout s :=
  layout_congr (s.check_numCollector p e) (s.check_collectors p e)

theorem layout_add_unforwarded {s : State} {r : ListRef} (h : s.listForward r = none) (o : ℕ) :
    layout (safelistAdd s r o) = (layout s).push r o := by
  unfold safelistAdd
  rw [h]
  exact layout_push s r o

theorem layout_poll {s : State} {r : ListRef} {o : ℕ} {rest : List ℕ}
    (hd : (s.safelist r).data = o :: rest) : layout (safelistPoll s r).1 = (layout s).poll r := by
  have hsame := safelistPoll_same s r
  have hroot : collectorUpdate (safelistPoll s r).1 = collectorUpdate s :=
    funext (collectorUpdate_congr hsame.numCollector hsame.forward)
  have hdata : (fun q => ((safelistPoll s r).1.safelist q).data) =
      Function.update (fun q => (s.safelist q).data) r (s.safelist r).data.tail := by
    funext q
    have hdec : (counterDecStore s r.1).safelist q = s.safelist q := by
      rw [State.safelist, counterDecStore, State.modifyCollector_collectors, State.check_collectors]
      split_ifs with hq
      · rw [State.safelist, hq]
      · rfl
    rw [safelistPoll_cons hd, State.modifySafelist_safelist, Function.update_apply, hd, hdec]
    split_ifs <;> rfl
  rw [layout, hdata, hroot]
  rfl

theorem layout_afterPoll {s : State} {c : ℕ} (loop : Loop) {o : ℕ} {rest : List ℕ}
    (hd : (s.safelist (c, loop.list)).data = o :: rest) :
    layout (afterPoll s c loop o) = (layout s).poll (c, loop.list) := by
  rw [afterPoll, layout_check, layout_poll hd]

theorem afterPoll_forward (s : State) (c : ℕ) (loop : Loop) (o : ℕ) :
    (afterPoll s c loop o).forward = s.forward :=
  (forward_eq_of_collectors (State.check_collectors _ _ _)).trans (safelistPoll_same s _).forward

theorem runTasks_afterPoll {s : State} {i c : ℕ} {loop : Loop} (obj : ℕ)
    (hi : s.running[i]? = some (c, loop)) : 0 < runTasks (afterPoll s c loop obj) c := by
  refine lt_of_lt_of_le ?_ ((afterPoll_frame s c loop obj).link.runTasks_le c)
  have hp : 0 < s.running.countP fun p => p.1 = c :=
    List.countP_pos_iff.mpr ⟨(c, loop), List.mem_of_getElem? hi, by simp⟩
  exact Nat.add_pos_right _ hp

theorem layout_rebuildCount (s : State) (l : ℕ) : layout (rebuildCount s l) = layout s :=
  layout_congr rfl rfl

theorem layout_rebuildCollector (s : State) (x : ℕ) : layout (rebuildCollector s x) = layout s := by
  unfold rebuildCollector
  split_ifs
  · exact layout_setCollector s x none
  · rfl

/-- Rebuilding a phantomized link takes one phantom reference. -/
theorem objectRebuildLink_count2_eq (c : ℕ) (s : State) (l x : ℕ) :
    ((objectRebuildLink c s l).objects x).count2 = (s.objects x).count2 -
      if (s.links l).phantomized = true ∧ x = (s.links l).target then 1 else 0 := by
  have hqueue : ∀ (u : State) (p : Prop) [Decidable p] (e : Event) (y : ℕ),
      ((rebuildQueue c (u.check p e) y).objects x).count2 = (u.objects x).count2 := by
    intro u p _ e y
    unfold rebuildQueue
    split_ifs
    · rw [(safelistAdd_same _ _ _).objects, State.check_objects]
    · rw [State.check_objects]
  have hcol : ∀ (u : State) (y : ℕ),
      ((rebuildCollector u y).objects x).count2 = (u.objects x).count2 := by
    intro u y
    unfold rebuildCollector
    split_ifs
    · exact (objectSetCollector_count u y none x).2
    · rfl
  rw [objectRebuildLink_eq]
  dsimp only
  by_cases hp : (s.links l).phantomized = true
  · rw [if_pos hp, hqueue]
    change ((rebuildCollector (rebuildCount s l) (s.links l).target).objects x).count2 = _
    rw [hcol]
    by_cases hx : x = (s.links l).target
    · rw [if_pos ⟨hp, hx⟩, hx, rebuildCount_target]
    · rw [if_neg fun hn => hx hn.2, sub_zero, rebuildCount, State.modifyObject_objects_ne _ _ hx,
        State.modifyObject_objects_ne _ _ hx]
      rfl
  · rw [if_neg hp, if_neg fun hn => hp hn.1, sub_zero]

theorem objectRebuildLink_count2 (c : ℕ) (s : State) (l x : ℕ) :
    ((objectRebuildLink c s l).objects x).count2 ≤ (s.objects x).count2 := by
  rw [objectRebuildLink_count2_eq]
  split_ifs <;> omega

/-- All phantom references. -/
def totalCount2 (s : State) : ℤ := ∑ x ∈ Finset.range s.objectCount, (s.objects x).count2

theorem totalCount2_rebuildLink (c : ℕ) (s : State) (l : ℕ)
    (ht : (s.links l).target < s.objectCount) : totalCount2 (objectRebuildLink c s l) =
      totalCount2 s - if (s.links l).phantomized = true then 1 else 0 := by
  unfold totalCount2
  rw [(objectRebuildLink_frame c s l).objectCount]
  simp only [objectRebuildLink_count2_eq, Finset.sum_sub_distrib, sub_right_inj]
  by_cases hp : (s.links l).phantomized = true
  · simp [hp, ht]
  · simp [hp]

/-- The collector pointer of the target goes with its last phantom reference. -/
theorem rebuildCollector_one {s : State} {l : ℕ} (h : (s.objects (s.links l).target).count2 = 1) :
    ((rebuildCollector (rebuildCount s l) (s.links l).target).objects
      (s.links l).target).collector = none := by
  have hx := rebuildCount_target s l
  have hz : ((rebuildCount s l).objects (s.links l).target).count2 = 0 := by
    rw [hx]
    dsimp only
    omega
  rw [rebuildCollector, if_pos hz, objectSetCollector_collector, if_pos rfl]

namespace Sound
variable {s : State} {L : Ledger}

/-- A link that is rebuilt may leave its target in the rebuild list. -/
theorem layout_rebuildLink (h : Sound s L) {c l : ℕ} (hl : l ∈ L.refs) (hc : s.forward c = none) :
    layout (objectRebuildLink c s l) = layout s ∨
    ((s.links l).phantomized = true ∧ 2 ≤ (s.objects (s.links l).target).count2 ∧
      layout (objectRebuildLink c s l) = (layout s).push (c, .rebuild) (s.links l).target) := by
  rw [objectRebuildLink_eq]
  dsimp only
  split_ifs with hp
  · have hpos := h.balance.count2_pos_of_link hl hp
    have hone : (s.objects (s.links l).target).count2 = 1 → _ := rebuildCollector_one (s := s) (l := l)
    have hforward : (rebuildCollector (Acid.rebuildCount s l) (s.links l).target).listForward
        (c, .rebuild) = none := by
      rw [State.listForward, rebuildCollector_safelist]
      exact h.collectors.root_lists hc .rebuild
    have hlay : layout (rebuildCollector (Acid.rebuildCount s l) (s.links l).target) = layout s := by
      rw [layout_rebuildCollector, layout_rebuildCount]
    generalize rebuildCollector (Acid.rebuildCount s l) (s.links l).target = u at *
    have hmark : layout (u.modifyLink l fun lk => { lk with phantomized := false }) = layout s :=
      (layout_congr rfl rfl).trans hlay
    rw [Acid.rebuildQueue, State.check_objects]
    split_ifs with hcol
    · right
      rw [layout_add_unforwarded, layout_check, hmark]
      · refine ⟨hp, ?_, rfl⟩
        by_contra hlt
        exact hcol (hone (by omega))
      · rw [State.listForward, State.safelist, State.check_collectors]
        exact hforward
    · left
      rw [layout_check, hmark]
  · exact .inl rfl

/-- What the rebuild list of `c` gets are targets of the phantomized links that are rebuilt,
each with another phantom reference. -/
theorem foldl_rebuildLink_layout {c : ℕ} (ls : List ℕ) (h : Sound s L) (hk : L.kept = ∅)
    (hs : ¬ L.strict) (hb : L.before = none) (hls : ∀ l ∈ ls, l ∈ L.refs)
    (hruns : 0 < runTasks s c) (hc : s.forward c = none) :
    ∃ xs, layout (ls.foldl (objectRebuildLink c) s) = (layout s).rebuild c xs ∧
      xs.length + totalCount2 (ls.foldl (objectRebuildLink c) s) ≤ totalCount2 s ∧
      ∀ x ∈ xs, 2 ≤ (s.objects x).count2 ∧
        ∃ l ∈ ls, (s.links l).phantomized = true ∧ (s.links l).target = x := by
  induction ls generalizing s with
  | nil =>
    refine ⟨[], ?_, by simp, fun x hx => by cases hx⟩
    simp [Layout.rebuild]
  | cons l ls ih =>
    have hl := hls l (List.mem_cons_self ..)
    have hf := objectRebuildLink_frame c s l
    have hstep : Sound (objectRebuildLink c s l) L := by
      apply h.rebuildLink hl hruns
      · intro _ hm
        rw [hk] at hm
        cases hm
      · exact fun hx => absurd hx hs
      · exact hb
    have hlay := h.layout_rebuildLink hl hc
    have hroot : (objectRebuildLink c s l).forward c = none := by
      have hupdate : collectorUpdate (objectRebuildLink c s l) c = c := by
        rcases hlay with he | ⟨_, _, he⟩
        · have hr := congrArg (fun d : Layout => d.root c) he
          exact hr.trans (collectorUpdate_of_root hc)
        · have hr := congrArg (fun d : Layout => d.root c) he
          exact hr.trans (collectorUpdate_of_root hc)
      have hend := hstep.collectors.update_isRoot c
      rwa [hupdate] at hend
    have htotal := totalCount2_rebuildLink c s l (h.live_of_link hl).1.1
    obtain ⟨xs, hxs, hlen, hmem⟩ := ih hstep (fun k hk => hls k (List.mem_cons_of_mem _ hk))
      (hruns.trans_le (hf.runTasks_le c)) hroot
    have hold : ∀ x ∈ xs, 2 ≤ (s.objects x).count2 ∧
        ∃ k ∈ l :: ls, (s.links k).phantomized = true ∧ (s.links k).target = x := by
      intro x hx
      obtain ⟨h2, k, hk, hp, ht⟩ := hmem x hx
      refine ⟨h2.trans (objectRebuildLink_count2 c s l x), k, List.mem_cons_of_mem _ hk, ?_, ?_⟩
      · rw [objectRebuildLink_links] at hp
        split_ifs at hp with hkl
        exact hp
      · rw [← hf.target]
        exact ht
    rw [List.foldl_cons, hxs]
    rcases hlay with he | ⟨hp, h2, he⟩
    · refine ⟨xs, by rw [he], ?_, hold⟩
      split_ifs at htotal <;> omega
    · refine ⟨(s.links l).target :: xs, ?_, ?_, fun x hx => ?_⟩
      · rw [he]
        simp [Layout.rebuild, Layout.push]
      · rw [if_pos hp] at htotal
        rw [List.length_cons]
        push_cast
        omega
      · rcases List.mem_cons.mp hx with rfl | hx
        · exact ⟨h2, l, List.mem_cons_self .., hp, rfl⟩
        · exact hold x hx

theorem layout_recoverNode (obj : ℕ) {c : ℕ} (h : Sound s L) (hk : L.kept = ∅) (hs : ¬ L.strict)
    (hb : L.before = none) (hrefs : ∀ l ∈ (s.objects obj).links.values, l ∈ L.refs)
    (hruns : 0 < runTasks s c) (hc : s.forward c = none) :
    ∃ xs, layout (objectRecoverNode s obj c) = (layout s).rebuild c xs ∧
      xs.length + totalCount2 (objectRecoverNode s obj c) ≤ totalCount2 s ∧
      ∀ x ∈ xs, 0 < (s.objects obj).count (s.objects obj).which ∧ 2 ≤ (s.objects x).count2 ∧
        ∃ l ∈ (s.objects obj).links.values, (s.links l).phantomized = true ∧
          (s.links l).target = x := by
  have hf1 := recoverUpdate_frame s obj
  have hcount1 := recoverUpdate_count s obj obj
  have hsame1 : layout (recoverUpdate s obj) = layout s ∧
      (recoverUpdate s obj).forward = s.forward ∧
      ∀ x, ((recoverUpdate s obj).objects x).count2 = (s.objects x).count2 := by
    unfold recoverUpdate objectUpdateCollector
    split_ifs
    · split
      · exact ⟨layout_setCollector s obj _, objectSetCollector_forward s obj _,
          fun x => (objectSetCollector_count s obj _ x).2⟩
      · exact ⟨layout_congr rfl rfl, rfl, fun _ => rfl⟩
    · exact ⟨rfl, rfl, fun _ => rfl⟩
  have h1 : Sound (recoverUpdate s obj) L := by
    unfold recoverUpdate
    split_ifs
    · exact h.updateCollector
    · exact h
  rw [objectRecoverNode_eq]
  dsimp only
  generalize recoverUpdate s obj = s1 at *
  obtain ⟨hlay1, hforward1, hcount21⟩ := hsame1
  have htotal1 : totalCount2 s1 = totalCount2 s := by
    unfold totalCount2
    rw [hf1.objectCount]
    exact Finset.sum_congr rfl fun x _ => hcount21 x
  have htotal : ∀ (u : State) (p : Prop) [Decidable p] (e : Event),
      totalCount2 (u.check p e) = totalCount2 u := by
    intro u p _ e
    rw [totalCount2, totalCount2, State.check_objects, State.check_objectCount]
  rw [layout_check, htotal]
  by_cases hpos : 0 < (s1.objects obj).count (s1.objects obj).which
  · rw [if_pos hpos]
    have h2 := h1.recoverStart hpos
    have hobj2 := recoverStart_objects s1 obj
    have hlinks2 : (Acid.recoverStart s1 obj).links = s1.links := by
      simp [Acid.recoverStart, State.modifyObject]
    have hruns2 : runTasks (Acid.recoverStart s1 obj) c = runTasks s1 c := by
      simp [Acid.recoverStart, State.modifyObject, runTasks]
    have hcols2 : (Acid.recoverStart s1 obj).collectors = s1.collectors := by
      simp [Acid.recoverStart, State.modifyObject]
    have hcountObjects2 : (Acid.recoverStart s1 obj).objectCount = s1.objectCount := by
      simp [Acid.recoverStart, State.modifyObject]
    have hlay2 : layout (Acid.recoverStart s1 obj) = layout s := by
      rw [← hlay1]
      exact layout_congr (by simp [Acid.recoverStart, State.modifyObject]) hcols2
    generalize Acid.recoverStart s1 obj = s2 at *
    obtain ⟨xs, hxs, hlen, hmem⟩ := h2.foldl_rebuildLink_layout (c := c)
      (s1.objects obj).links.values (by rw [hk, Set.empty_sdiff]) hs hb
      (by
        rw [hf1.table]
        exact hrefs)
      (by
        rw [hruns2]
        exact hruns.trans_le (hf1.link.runTasks_le c))
      (by
        rw [State.forward, hcols2]
        exact (congrFun hforward1 c).trans hc)
    have hcount2 : ∀ x, (s2.objects x).count2 = (s1.objects x).count2 := by
      intro x
      rw [hobj2]
      split_ifs with hxo
      · rw [hxo]
      · rfl
    have htotal2 : totalCount2 s2 = totalCount2 s1 := by
      rw [totalCount2, totalCount2, hcountObjects2]
      exact Finset.sum_congr rfl fun x _ => hcount2 x
    refine ⟨xs, by rw [hxs, hlay2], by omega, fun x hx => ?_⟩
    obtain ⟨htwo, l, hl, hp, ht⟩ := hmem x hx
    rw [hlinks2, hf1.links] at hp ht
    rw [hf1.table] at hl
    rw [hcount1, hf1.which] at hpos
    rw [hcount2, hcount21] at htwo
    exact ⟨hpos, htwo, l, hl, hp, ht⟩
  · rw [if_neg hpos]
    refine ⟨[], ?_, ?_, fun x hx => by cases hx⟩
    · rw [layout_check, hlay1]
      simp [Layout.rebuild]
    · rw [htotal, htotal1]
      simp

end Sound

theorem Collectors.layout_add {s : State} (h : Collectors s) (c : ℕ) (n : ListName) (o : ℕ) :
    layout (safelistAdd s (c, n) o) =
      (layout s).push (collectorUpdate s c, if s.forward c = none then n else route n) o := by
  rw [h.safelistAdd_eq, layout_push]

theorem layout_iterate (s : State) (i c : ℕ) (loop : Loop) (hloop : loop ≠ .exit) {obj : ℕ}
    {rest : List ℕ} (hd : (s.safelist (c, loop.list)).data = obj :: rest) :
    layout (exec s (.iterate i c loop)) =
      layout (loopBody (afterPoll s c loop obj) c loop obj) := by
  change layout (runIteration s i c loop) = _
  rcases runIteration_cases s i c loop with ⟨hexit, _⟩ | ⟨hexit, _⟩ | ⟨_, hnil, _⟩ |
    ⟨_, obj', rest', hcons, heq⟩
  · exact absurd hexit hloop
  · exact absurd hexit hloop
  · rw [hd] at hnil
    cases hnil
  · rw [hd] at hcons
    cases hcons
    rw [heq]
    exact layout_congr rfl rfl

theorem listed_of_curation {s : State} {x : ℕ} (h : 0 < curation s x) : Listed s x := by
  by_contra hnone
  have hzero : ∀ n : ListName, n ≠ .rebuild → ¬ 0 < occurrences s n x := by
    intro n hn hocc
    obtain ⟨c, _, hm⟩ := exists_mem_of_occurrences hocc
    exact hnone ⟨(c, n), hn, hm⟩
  have h1 := hzero .collect (by simp)
  have h2 := hzero .merged (by simp)
  have h3 := hzero .recovery (by simp)
  have h4 := hzero .clean (by simp)
  unfold curation at h
  omega

/-- What holds references between two steps; the layout is watched from here on. -/
def watchLedger (s : State) : Ledger where
  refs := tableLinks s
  settled := Set.univ
  before := some (layout s)

namespace Sound
variable {s : State}

theorem watch (h : Sound s (restLedger False False s)) : Sound s (watchLedger s) where
  tables := h.tables
  refs := h.refs
  collectors := h.collectors
  balance := ⟨h.balance.count, h.balance.count2⟩
  classes := ⟨h.classes.listed, h.classes.held, fun hx => absurd hx id, fun _ _ hx => absurd hx id⟩
  tasks := h.tasks
  deletes := h.deletes
  settled := h.settled
  moved := fun d hd => by
    cases hd
    exact .refl

/-- Steps that poll nothing and end no collector. -/
theorem exec_moves {a : Action} (h : Sound s (restLedger False False s)) (he : Enabled s a)
    (ha : ∀ i c loop, a ≠ .iterate i c loop) : Moves (layout s) (layout (Acid.exec s a)) := by
  have hw := h.watch
  cases a with
  | initStrong d => exact (hw.initStrong d).moved _ rfl
  | incStrong o => exact (hw.incStrong (h.inUse_of_reachable rfl he)).moved _ rfl
  | decStrong o => exact (hw.decStrong he).moved _ rfl
  | set o f r =>
    have ho : Reachable s o := by
      cases r with
      | none => exact he
      | some x => exact he.1
    refine (hw.set (f := f) (r := r) rfl (h.live_of_inUse (h.inUse_of_reachable rfl ho)) ?_ ?_
      ?_).moved _ rfl
    · rintro x rfl
      exact h.inUse_of_reachable rfl he.2
    · exact fun _ _ _ hk => absurd hk id
    · exact fun _ _ hk => hk.elim
  | enter i c => exact (hw.enter he).moved _ rfl
  | iterate i c loop => exact absurd rfl (ha i c loop)
  | delete i o =>
    have h1 := hw.takeDelete he
    refine (Sound.requestDeleteTaskRun (L := watchLedger s) h1 (fun l hl => ?_) (.inl ?_) id).moved
      _ rfl
    · exact h.mem_tableLinks.mpr ⟨o, hl⟩
    · exact fun _ _ _ hk => hk

/-- The start of an iteration that has polled `obj`. -/
theorem watchPoll (h : Sound s (restLedger False False s)) {c : ℕ} (loop : Loop) {obj : ℕ}
    {rest : List ℕ} (hd : (s.safelist (c, loop.list)).data = obj :: rest) :
    Sound (afterPoll s c loop obj)
      ((watchLedger (afterPoll s c loop obj)).polled loop.list (s.objects obj).which obj c) := by
  have hpoll : Sound (afterPoll s c loop obj)
      ((restLedger False False s).polled loop.list (s.objects obj).which obj c) :=
    (h.poll hd rfl).check _ rfl
  have hrefs : tableLinks (afterPoll s c loop obj) = tableLinks s :=
    tableLinks_congr (afterPoll_frame s c loop obj).graph
  refine ⟨hpoll.tables, ?_, hpoll.collectors, ?_, ?_, hpoll.tasks, hpoll.deletes, hpoll.settled, ?_⟩
  · intro l hl
    apply hpoll.refs
    change l ∈ tableLinks (afterPoll s c loop obj) at hl
    rwa [hrefs] at hl
  · refine ⟨fun x b => ?_, fun x => ?_⟩
    · rw [hpoll.balance.count x b, watchLedger, hrefs]
      rfl
    · rw [hpoll.balance.count2 x, watchLedger, hrefs]
      rfl
  · exact ⟨hpoll.classes.listed, hpoll.classes.held, fun hx => absurd hx id,
      fun _ _ hx => absurd hx id⟩
  · intro d hd
    cases hd
    exact .refl

section
variable {c obj : ℕ} {rest : List ℕ}

theorem layout_merged (h : Sound s (restLedger False False s))
    (hd : (s.safelist (c, .merged)).data = obj :: rest) :
    layout (Acid.loopBody (afterPoll s c .merged obj) c .merged obj) =
      (layout (afterPoll s c .merged obj)).push (c, .recovery) obj := by
  have hroot : s.forward c = none :=
    (h.collectors.root_of_mem (r := (c, .merged)) (x := obj) (by simp [hd])).1
  apply layout_add_unforwarded
  apply (h.watchPoll .merged hd).collectors.root_lists
  rw [afterPoll_forward]
  exact hroot

theorem layout_collect (h : Sound s (restLedger False False s))
    (hd : (s.safelist (c, .collect)).data = obj :: rest) :
    ∃ e n, Moves (layout (afterPoll s c .collect obj)) e ∧ (n = .recovery ∨ n = .merged) ∧
      e.root (e.root c) = e.root c ∧
      layout (Acid.loopBody (afterPoll s c .collect obj) c .collect obj) =
        e.push (e.root c, n) obj := by
  have hpoll := h.watchPoll .collect hd
  have hobj := afterPoll_objects s c .collect obj
  generalize afterPoll s c .collect obj = u at *
  have hnode : Sound (objectPhantomizeNode u obj)
      { watchLedger u with curated := (obj, c) :: (watchLedger u).curated, kept := ∅ } := by
    apply Sound.phantomizeNode (L := watchLedger u)
    · rw [hobj]
      exact hpoll
    · intro l hl
      exact hpoll.mem_tableLinks.mpr ⟨obj, hl⟩
    · exact fun hx => absurd hx id
    · exact fun x hx => absurd hx id
  refine ⟨_, _, hnode.moved _ rfl, ?_, hnode.collectors.update_idem c,
    hnode.collectors.layout_add c .recovery obj⟩
  split_ifs
  · exact .inl rfl
  · exact .inr rfl

/-- The recovery and the rebuild loop recover the object. -/
theorem layout_recover (h : Sound s (restLedger False False s)) {i : ℕ} {loop : Loop}
    (hi : s.running[i]? = some (c, loop)) (hd : (s.safelist (c, loop.list)).data = obj :: rest) :
    ∃ xs, layout (objectRecoverNode (afterPoll s c loop obj) obj c) =
        (layout (afterPoll s c loop obj)).rebuild c xs ∧
      xs.length + totalCount2 (objectRecoverNode (afterPoll s c loop obj) obj c) ≤
        totalCount2 s ∧
      ∀ x ∈ xs, 0 < (s.objects obj).count (s.objects obj).which ∧ 2 ≤ (s.objects x).count2 ∧
        ∃ l ∈ (s.objects obj).links.values, (s.links l).phantomized = true ∧
          (s.links l).target = x := by
  have hroot : s.forward c = none :=
    (h.collectors.root_of_mem (r := (c, loop.list)) (x := obj) (by simp [hd])).1
  have hpoll : Sound (afterPoll s c loop obj)
      ((restLedger False False s).polled loop.list (s.objects obj).which obj c) :=
    (h.poll hd rfl).check _ rfl
  have hobj := afterPoll_objects s c loop obj
  have hlinks := (afterPoll_frame s c loop obj).links
  have hforward := afterPoll_forward s c loop obj
  have hruns := runTasks_afterPoll obj hi
  have htotal : totalCount2 (afterPoll s c loop obj) = totalCount2 s := by
    rw [totalCount2, totalCount2, hobj, (afterPoll_frame s c loop obj).objectCount]
  generalize afterPoll s c loop obj = u at *
  obtain ⟨xs, hxs, hlen, hmem⟩ := hpoll.layout_recoverNode obj (c := c)
    (by simp [Ledger.polled, restLedger]) id rfl
    (fun l hl => h.mem_tableLinks.mpr ⟨obj, by rwa [hobj] at hl⟩) hruns
    (by rw [hforward, hroot])
  rw [hobj, hlinks] at hmem
  exact ⟨xs, hxs, htotal ▸ hlen, hmem⟩

theorem layout_recovery (h : Sound s (restLedger False False s)) {i : ℕ}
    (hi : s.running[i]? = some (c, .recovery)) (hd : (s.safelist (c, .recovery)).data = obj :: rest)
    {xs : List ℕ} (hxs : layout (objectRecoverNode (afterPoll s c .recovery obj) obj c) =
      (layout (afterPoll s c .recovery obj)).rebuild c xs) :
    layout (Acid.loopBody (afterPoll s c .recovery obj) c .recovery obj) =
      ((layout (afterPoll s c .recovery obj)).rebuild c xs).push (c, .clean) obj := by
  have hroot : s.forward c = none :=
    (h.collectors.root_of_mem (r := (c, .recovery)) (x := obj) (by simp [hd])).1
  have hpoll : Sound (afterPoll s c .recovery obj)
      ((restLedger False False s).polled .recovery (s.objects obj).which obj c) :=
    (h.poll (r := (c, .recovery)) hd rfl).check _ rfl
  have hobj := afterPoll_objects s c .recovery obj
  have hrefs : ∀ l ∈ ((afterPoll s c .recovery obj).objects obj).links.values,
      l ∈ ((restLedger False False s).polled .recovery (s.objects obj).which obj c).refs :=
    fun l hl => h.mem_tableLinks.mpr ⟨obj, by rwa [hobj] at hl⟩
  have hrec := hpoll.recoverNode (c := c) (K := ∅) hrefs (runTasks_afterPoll obj hi)
    (fun _ _ _ hk => absurd hk.1 id) (fun _ hx => absurd hx id) rfl
  have hupdate : collectorUpdate (objectRecoverNode (afterPoll s c .recovery obj) obj c) c = c := by
    have hr := congrArg (fun d : Layout => d.root c) hxs
    refine hr.trans (collectorUpdate_of_root ?_)
    rw [afterPoll_forward]
    exact hroot
  have hend := hrec.collectors.update_isRoot c
  rw [hupdate] at hend
  have hadd := hrec.collectors.layout_add c .clean obj
  rw [hupdate, if_pos hend, hxs] at hadd
  exact hadd

theorem layout_clean (h : Sound s (restLedger False False s))
    (hd : (s.safelist (c, .clean)).data = obj :: rest) :
    Moves (layout (afterPoll s c .clean obj))
      (layout (Acid.loopBody (afterPoll s c .clean obj) c .clean obj)) := by
  have hpoll := h.watchPoll .clean hd
  generalize afterPoll s c .clean obj = u at *
  refine (Sound.cleanNode (L := watchLedger u) hpoll (fun l hl => ?_) (fun _ => .inl ?_) fun hx =>
    absurd hx id).moved _ rfl
  · exact hpoll.mem_tableLinks.mpr ⟨obj, hl⟩
  · exact fun _ _ _ hk => hk

end

/-- An iteration that polls nothing and an exit check leave the lists alone. -/
theorem data_iterate (h : Sound s (restLedger False False s)) (i c : ℕ) {loop : Loop}
    (hd : loop = .exit ∨ (s.safelist (c, loop.list)).data = []) (r : ListRef) :
    ((Acid.exec s (.iterate i c loop)).safelist r).data = (s.safelist r).data := by
  change ((Acid.runIteration s i c loop).safelist r).data = _
  rcases runIteration_cases s i c loop with ⟨_, hdone, heq⟩ | ⟨_, _, heq⟩ | ⟨_, _, heq⟩ |
    ⟨hloop, obj, rest, hcons, _⟩
  · rw [heq]
    exact h.collectors.retire_safelist hdone r
  · rw [heq]
    rfl
  · rw [heq]
    rfl
  · rcases hd with hd | hd
    · exact absurd hd hloop
    · rw [hd] at hcons
      cases hcons

/-- An object with a phantom count for its place in a list leaves the lists only when the
clean loop polls it. -/
theorem listed_step {a : Action} (h : Sound s (restLedger False False s)) (he : Enabled s a)
    {x : ℕ} (hx : Listed s x) : Listed (Acid.exec s a) x ∨
      ∃ i c rest, a = .iterate i c .clean ∧ (s.safelist (c, .clean)).data = x :: rest := by
  have hx' : (layout s).Lists x := hx
  by_cases hit : ∃ i c loop, a = .iterate i c loop
  · obtain ⟨i, c, loop, rfl⟩ := hit
    by_cases hnone : loop = .exit ∨ (s.safelist (c, loop.list)).data = []
    · obtain ⟨r, hr, hm⟩ := hx
      refine .inl ⟨r, hr, ?_⟩
      rw [h.data_iterate i c hnone]
      exact hm
    · push Not at hnone
      obtain ⟨hloop, hne⟩ := hnone
      obtain ⟨obj, rest, hd⟩ := List.exists_cons_of_ne_nil hne
      have hpolled : x ≠ obj → (layout (afterPoll s c loop obj)).Lists x := by
        intro hxo
        rw [layout_afterPoll loop hd]
        exact hx'.poll hd hxo
      by_cases hclean : loop = .clean ∧ x = obj
      · obtain ⟨rfl, rfl⟩ := hclean
        exact .inr ⟨i, c, rest, rfl, hd⟩
      · left
        change (layout (Acid.exec s (.iterate i c loop))).Lists x
        rw [layout_iterate s i c loop hloop hd]
        -- the polled object goes to another list
        cases loop with
        | merged =>
          rw [h.layout_merged hd]
          by_cases hxo : x = obj
          · exact ⟨(c, .recovery), by simp, hxo ▸ Layout.mem_push_self _ _⟩
          · exact (hpolled hxo).push _ _
        | collect =>
          obtain ⟨e, n, hmoves, hn, _, heq⟩ := h.layout_collect hd
          rw [heq]
          by_cases hxo : x = obj
          · refine ⟨(e.root c, n), ?_, hxo ▸ Layout.mem_push_self _ _⟩
            rcases hn with rfl | rfl <;> simp
          · exact (hmoves.lists (hpolled hxo)).push _ _
        | recovery =>
          obtain ⟨xs, hxs, _, _⟩ := h.layout_recover he hd
          rw [h.layout_recovery he hd hxs]
          by_cases hxo : x = obj
          · exact ⟨(c, .clean), by simp, hxo ▸ Layout.mem_push_self _ _⟩
          · exact ((hpolled hxo).rebuild _ _).push _ _
        | rebuild =>
          obtain ⟨xs, hxs, _, _⟩ := h.layout_recover he hd
          change (layout (objectRecoverNode (afterPoll s c .rebuild obj) obj c)).Lists x
          rw [hxs, layout_afterPoll .rebuild hd]
          obtain ⟨q, hq, hm⟩ := hx'
          refine Layout.Lists.rebuild ⟨q, hq, Layout.mem_poll hd hm fun hqr => ?_⟩ c xs
          rw [hqr] at hq
          exact absurd rfl hq
        | clean => exact (h.layout_clean hd).lists (hpolled fun hxo => hclean ⟨rfl, hxo⟩)
        | exit => exact absurd rfl hloop
  · exact .inl ((h.exec_moves he fun i c loop ha => hit ⟨i, c, loop, ha⟩).lists hx')

/-- The clean loop leaves an object that is in the lists twice in one of them. -/
theorem listed_clean (h : Sound s (restLedger False False s)) (i : ℕ) {c obj : ℕ} {rest : List ℕ}
    (hd : (s.safelist (c, .clean)).data = obj :: rest) (htwo : 2 ≤ curation s obj) :
    Listed (Acid.exec s (.iterate i c .clean)) obj := by
  have hpoll : Sound (afterPoll s c .clean obj)
      ((restLedger False False s).polled .clean (s.objects obj).which obj c) :=
    (h.poll (r := (c, .clean)) hd rfl).check _ rfl
  have hlinks := (afterPoll_frame s c .clean obj).links
  have hcuration : 0 < curation (afterPoll s c .clean obj) obj := by
    have h1 := h.balance.count2 obj
    have h2 := hpoll.balance.count2 obj
    rw [afterPoll_objects, h1] at h2
    simp [Ledger.polled, restLedger, phantomRefs, hlinks] at h2
    omega
  have hlists : (layout (afterPoll s c .clean obj)).Lists obj := listed_of_curation hcuration
  change (layout (Acid.exec s (.iterate i c .clean))).Lists obj
  rw [layout_iterate s i c .clean (by simp) hd]
  exact (h.layout_clean hd).lists hlists

end Sound
end Acid

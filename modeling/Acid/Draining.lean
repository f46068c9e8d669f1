import Acid.WholeCalls

set_option autoImplicit false

/-!
# What holds while one worker runs the tasks

A phantomized object waits in a list, or has lost its links and waits for its delete task.
After the rebuild loop no phantomized object in the class of the collector is in use. No
assertion fails.
-/
namespace Acid
open PointerForest Tally

/-- The loops in which phantomized objects recover, or have recovered. -/
def Loop.recovering : Loop → Bool
  | .merged => false
  | .collect => false
  | _ => true

structure Sequential (s : State) : Prop where
  run : Run StrongEnough initial s
  sound : Sound s (restLedger True True s)
  pointed : Pointed s []
  asserts : AssertionsHold s

/-- No delete task waits for an object that the rebuild loop has polled. -/
def RebuildsUsed (s : State) (a : Action) : Prop :=
  ∀ i c obj rest, a = .iterate i c .rebuild → (s.safelist (c, .rebuild)).data = obj :: rest →
    .delete obj ∉ (exec s a).work

/-- No collector runs. -/
structure Idle (s : State) : Prop extends Sequential s where
  running : s.running = []
  lists : ∀ r : ListRef, (s.safelist r).data ≠ [] → r.2.waits = true
  placed : ∀ x ∈ ghosts s, Listed s x ∨
    ((s.objects x).links.values = [] ∧ .delete x ∈ s.work)

/-- Only `c` runs. An object that its clean loop has emptied may still be linked from others that
the loop has yet to empty. -/
structure Collecting (s : State) (c : ℕ) (loop : Loop) : Prop extends Sequential s where
  running : s.running = [(c, loop)]
  rebuilds : Rebuilds s c loop
  staged : Staged c loop (layout s)
  placed : ∀ x ∈ ghosts s, Listed s x ∨ ((s.objects x).links.values = [] ∧
    (.delete x ∈ s.work ∨ (loop = .clean ∧ Led s x c)))
  recovers : loop.recovering = true → ∀ x ∈ ghosts s, Led s x c →
    0 < (s.objects x).count (s.objects x).which →
    x ∈ (s.safelist (c, .recovery)).data ∨ x ∈ (s.safelist (c, .rebuild)).data

namespace Sequential
variable {s : State} (h : Sequential s)
include h

theorem any : Run anyStep initial s := h.run.mono fun _ _ _ => trivial

theorem anySound : Sound s (restLedger False False s) := h.any.anySound

theorem ghost_of_link {o l : ℕ} (hl : l ∈ (s.objects o).links.values)
    (hp : (s.links l).phantomized = true) : o ∈ ghosts s :=
  ⟨h.sound.live_of_entry hl, (h.any.flags.agree hl).symm.trans hp⟩

theorem zero {x : ℕ} (hx : Live s x) (hz : ¬ 0 < (s.objects x).count (s.objects x).which) (b : Bool) :
    (s.objects x).count b = 0 := by
  have hnn := h.sound.balance.count_nonneg x (s.objects x).which
  have hz' : (s.objects x).count (s.objects x).which = 0 := by omega
  have hweak := ((h.sound.settled x (Set.mem_univ x) hx hz').2 trivial).1
  by_cases hb : b = (s.objects x).which
  · rw [hb]
    exact hz'
  · rw [(Bool.eq_not_iff).mpr hb]
    exact hweak

/-- A phantomized link does not leave its class. -/
theorem led_of_link {o l : ℕ} (hl : l ∈ (s.objects o).links.values)
    (hp : (s.links l).phantomized = true) : ∃ c, Led s o c ∧ Led s (s.links l).target c := by
  have hsrc := (h.sound.tables.owned hl).2
  have hkept : (s.links l).src ∈ (restLedger True True s).kept := by
    rw [hsrc]
    exact ⟨trivial, h.ghost_of_link hl hp⟩
  obtain ⟨c, h1, h2⟩ := h.sound.classes.linked (h.sound.mem_tableLinks.mpr ⟨o, hl⟩) hp hkept
  rw [hsrc] at h1
  exact ⟨_, h1, h2⟩

theorem not_pending_of_link {o l : ℕ} (hl : l ∈ (s.objects o).links.values) :
    .delete (s.links l).target ∉ s.work := by
  intro hm
  exact (h.sound.live_of_link (h.sound.mem_tableLinks.mpr ⟨o, hl⟩)).2 (.inl hm)

theorem not_pending_of_listed {x : ℕ} (hx : Listed s x) : .delete x ∉ s.work := by
  intro hm
  exact h.sound.not_pending_of_inUse (h.anySound.inUse_of_listed hx) (.inl hm)

theorem kept {x : ℕ} (hx : Live s x) (hp : (s.objects x).phantomized = true) :
    (s.objects x).collector ≠ none :=
  h.sound.classes.kept ⟨trivial, hx, hp⟩

/-- The last assertion of `object_recover_node`: an object that keeps its collector has a phantom
reference, as it is listed again or no delete task waits for it. -/
theorem recovered {i c obj : ℕ} {loop : Loop} {rest : List ℕ} (hi : s.running[i]? = some (c, loop))
    (h' : Sound (Acid.exec s (.iterate i c loop))
      (restLedger False False (Acid.exec s (.iterate i c loop))))
    (hp : Pointed (Acid.exec s (.iterate i c loop)) []) (hrebuilt : RebuildsUsed s (.iterate i c loop))
    (hloop : loop = .recovery ∨ loop = .rebuild)
    (hd : (s.safelist (c, loop.list)).data = obj :: rest)
    (hz : ((Acid.exec s (.iterate i c loop)).objects obj).count2 = 0) :
    ((Acid.exec s (.iterate i c loop)).objects obj).collector = none := by
  by_contra hne
  rcases hp obj hne with hpos | hm | hm
  · omega
  · rcases hloop with rfl | rfl
    · obtain ⟨xs, hxs, _⟩ := h.anySound.layout_recover hi hd
      have hlay := layout_iterate s i c .recovery (by simp) hd
      rw [h.anySound.layout_recovery hi hd hxs] at hlay
      have hmem : obj ∈ (layout (Acid.exec s (.iterate i c .recovery))).data (c, .clean) := by
        rw [hlay, Layout.push]
        simp
      have hlist : Listed (Acid.exec s (.iterate i c .recovery)) obj := ⟨(c, .clean), by simp, hmem⟩
      exact h'.not_pending_of_inUse (h'.inUse_of_listed hlist) (.inl hm)
    · exact hrebuilt i c obj rest rfl hd hm
  · cases hm

/-- No assertion fails in a step. -/
theorem keeps_asserts {a : Action} (he : Enabled s a) (hG : Guarded s a) (hK : StrongEnough s a)
    (hrebuilt : RebuildsUsed s a) : AssertionsHold (Acid.exec s a) := by
  have hafter : Sound (Acid.exec s a) _ := h.sound.exec he (fun _ => hG) fun _ => hK
  have hrun : Run anyStep initial (Acid.exec s a) := h.any.step he trivial
  have hpointed : Pointed (Acid.exec s a) [] := h.pointed.exec h.anySound he fun _ => h.kept
  intro b
  by_cases hneg : b.negative = true
  · exact hafter.deletes.faults b hneg
  · have hem := h.any.exec_emits (P := fun e => e ≠ .assertFailed b) ?_ he ?_ ?_ (.inr ?_)
      fun e hends => hends.no_fault.2 b
    · exact hem.absent (fun hne => hne rfl) (h.asserts b)
    · rintro e hbasic rfl
      exact hneg hbasic
    · rintro o f r rfl
      right
      apply h.kept
      apply h.sound.live_of_inUse
      cases r with
      | none => exact h.sound.inUse_of_reachable rfl he
      | some x => exact h.sound.inUse_of_reachable rfl he.1
    · rintro hrec ⟨⟩
      cases a with
      | iterate i c loop =>
        obtain ⟨_, obj, _, _, hweak⟩ := hrec
        exact h.run.not_weakOnly obj hweak
      | _ => exact hrec
    · rintro i c loop obj rest rfl hloop hd hz
      exact h.recovered he hrun.anySound hpointed hrebuilt hloop hd hz

theorem exec {a : Action} (he : Enabled s a) (hG : Guarded s a) (hK : StrongEnough s a)
    (hrebuilt : RebuildsUsed s a) : Sequential (Acid.exec s a) where
  run := h.run.step he hK
  sound := h.sound.exec he (fun _ => hG) fun _ => hK
  pointed := h.pointed.exec h.anySound he fun _ => h.kept
  asserts := h.keeps_asserts he hG hK hrebuilt

end Sequential

namespace Sequential
variable {s : State} (h : Sequential s)
include h

/-- Nothing that lacks references is listed but what has been phantomized. -/
theorem ghost_of_zero {x : ℕ} (hx : Listed s x) (hz : ∀ b, (s.objects x).count b = 0) :
    x ∈ ghosts s := by
  have hlive := h.sound.live_of_inUse (h.anySound.inUse_of_listed hx)
  refine ⟨hlive, ?_⟩
  exact (h.sound.settled x (Set.mem_univ x) hlive (hz _)).1.resolve_left (h.not_pending_of_listed hx)

/-- The links of a listed object without references are phantomized. -/
theorem links_of_zero {x : ℕ} (hx : Listed s x) (hz : ∀ b, (s.objects x).count b = 0) :
    ∀ l ∈ (s.objects x).links.values, (s.links l).phantomized = true :=
  fun _ hl => (h.any.flags.agree hl).trans (h.ghost_of_zero hx hz).2

end Sequential

/-! ## Frames of an iteration -/

theorem loopBody_work (s : State) (c : ℕ) (loop : Loop) (obj : ℕ) :
    s.work <+: (loopBody s c loop obj).work := by
  have hadd := fun (u : State) r => (safelistAdd_frame u r obj).work
  have hrec : s.work <+: (objectRecoverNode s obj c).work := by
    rcases objectRecoverNode_cases s obj c with ⟨_, hf⟩ | ⟨_, hf, _⟩
    · exact hf.work
    · exact hf.work
  cases loop with
  | merged => exact hadd s _
  | collect =>
    refine List.IsPrefix.trans ?_ (hadd _ _)
    rcases objectPhantomizeNode_cases s obj with ⟨_, hf⟩ | ⟨_, hf, _⟩
    · exact hf.work
    · exact hf.work
  | recovery => exact hrec.trans (hadd _ _)
  | rebuild => exact hrec
  | clean =>
    rcases objectCleanNode_cases s obj with ⟨_, hf⟩ | ⟨_, hf, _⟩
    · exact hf.work
    · exact hf.work
  | exit => exact List.prefix_refl _

theorem loopBody_graph (s : State) (c : ℕ) {loop : Loop} (obj : ℕ) (hloop : loop ≠ .clean) :
    SameGraph s (loopBody s c loop obj) := by
  have hadd := fun (u : State) r => (safelistAdd_frame u r obj).graph
  cases loop with
  | merged => exact hadd s _
  | collect => exact (objectPhantomizeNode_graph s obj).trans (hadd _ _)
  | recovery => exact (objectRecoverNode_graph s obj c).trans (hadd _ _)
  | rebuild => exact objectRecoverNode_graph s obj c
  | clean => exact absurd rfl hloop
  | exit => exact .refl s

theorem iterate_eq (s : State) (i c : ℕ) {loop : Loop} (hloop : loop ≠ .exit) {obj : ℕ}
    {rest : List ℕ} (hd : (s.safelist (c, loop.list)).data = obj :: rest) :
    exec s (.iterate i c loop) = { loopBody (afterPoll s c loop obj) c loop obj with
      running := (loopBody (afterPoll s c loop obj) c loop obj).running.set i (c, loop) } := by
  change runIteration s i c loop = _
  rcases runIteration_cases s i c loop with ⟨hexit, _⟩ | ⟨hexit, _⟩ | ⟨_, hnil, _⟩ |
    ⟨_, obj', rest', hcons, heq⟩
  · exact absurd hexit hloop
  · exact absurd hexit hloop
  · rw [hd] at hnil
    cases hnil
  · rw [hd] at hcons
    obtain ⟨rfl, _⟩ := List.cons.inj hcons
    exact heq

theorem iterate_work (s : State) (i c : ℕ) {loop : Loop} (hloop : loop ≠ .exit) {obj : ℕ}
    {rest : List ℕ} (hd : (s.safelist (c, loop.list)).data = obj :: rest) :
    s.work <+: (exec s (.iterate i c loop)).work := by
  rw [iterate_eq s i c hloop hd]
  exact (afterPoll_frame s c loop obj).work.trans (loopBody_work _ c loop obj)

/-- Recovery and rebuilding change what is phantomized, not what is linked. -/
theorem iterate_graph (s : State) (i c : ℕ) {loop : Loop} (hloop : loop ≠ .exit)
    (hclean : loop ≠ .clean) {obj : ℕ} {rest : List ℕ}
    (hd : (s.safelist (c, loop.list)).data = obj :: rest) :
    SameGraph s (exec s (.iterate i c loop)) := by
  have hbody := (afterPoll_frame s c loop obj).graph.trans
    (loopBody_graph (afterPoll s c loop obj) c obj hclean)
  rw [iterate_eq s i c hloop hd]
  exact ⟨hbody.table, hbody.magic, hbody.target, hbody.src, hbody.linkCount, hbody.objectCount,
    hbody.claims⟩

theorem ghosts_congr {s s' : State} (hobj : s'.objects = s.objects)
    (hn : s'.objectCount = s.objectCount) : ghosts s' = ghosts s := by
  ext x
  simp only [ghosts, Live, hobj, hn]

/-- Only the collect loop phantomizes objects. -/
theorem ghosts_iterate (s : State) (i c : ℕ) {loop : Loop} (hloop : loop ≠ .exit) {obj : ℕ}
    {rest : List ℕ} (hd : (s.safelist (c, loop.list)).data = obj :: rest) {x : ℕ}
    (hx : x ∈ ghosts (exec s (.iterate i c loop))) :
    x ∈ ghosts s ∨ (loop = .collect ∧ x = obj) := by
  have hg : ghosts (exec s (.iterate i c loop)) =
      ghosts (loopBody (afterPoll s c loop obj) c loop obj) := by
    rw [iterate_eq s i c hloop hd]
    exact ghosts_congr rfl rfl
  rw [hg] at hx
  rw [← ghosts_frame (afterPoll_frame s c loop obj)]
  have hadd : ∀ u r, ghosts (safelistAdd u r obj) = ghosts u :=
    fun u r => ghosts_frame (safelistAdd_frame u r obj)
  cases loop with
  | merged =>
    left
    rw [loopBody, hadd] at hx
    exact hx
  | collect =>
    rw [loopBody, hadd] at hx
    exact (ghosts_phantomizeNode hx).imp id fun hnew => ⟨rfl, hnew.1⟩
  | recovery =>
    rw [loopBody, hadd] at hx
    exact .inl (ghosts_recoverNode hx).1
  | rebuild => exact .inl (ghosts_recoverNode hx).1
  | clean => exact .inl (ghosts_cleanNode hx)
  | exit => exact absurd rfl hloop

/-! ## One iteration -/

namespace Collecting
variable {s : State} {c : ℕ} {loop : Loop} (h : Collecting s c loop)
include h

theorem first : s.running[0]? = some (c, loop) := by
  rw [h.running]
  rfl

theorem clean_zero (hloop : loop = .clean) {x : ℕ} (hx : x ∈ ghosts s) (hc : Led s x c) (b : Bool) :
    (s.objects x).count b = 0 := by
  subst hloop
  apply h.zero hx.1
  intro hpos
  have hrecovery : (s.safelist (c, .recovery)).data = [] := h.staged.nil rfl
  have hrebuild : (s.safelist (c, .rebuild)).data = [] := h.staged.nil rfl
  have hlist := h.recovers rfl x hx hc hpos
  rw [hrecovery, hrebuild] at hlist
  rcases hlist with hm | hm
  · cases hm
  · cases hm

/-- An object that recovers finds its phantomized targets in the lists. -/
theorem listed_of_link (hloop : loop ≠ .clean) {o l : ℕ} (hl : l ∈ (s.objects o).links.values)
    (ht : (s.links l).target ∈ ghosts s) : Listed s (s.links l).target := by
  rcases h.placed _ ht with hlist | ⟨_, hp | ⟨hclean, _⟩⟩
  · exact hlist
  · exact absurd hp (h.not_pending_of_link hl)
  · exact absurd hclean hloop

theorem guarded : Guarded s (.iterate 0 c loop) := by
  intro obj rest hd
  cases loop with
  | merged => trivial
  | collect =>
    intro hp l hl hph hsrc
    obtain ⟨o, ho⟩ := h.sound.mem_tableLinks.mp hl
    have howner := (h.sound.tables.owned ho).2
    have hflag := h.any.flags.agree ho
    rw [← howner, hsrc, hp, hph] at hflag
    cases hflag
  | recovery => exact fun _ l hl ht _ => h.listed_of_link (by simp) hl ht
  | rebuild => exact fun _ l hl ht _ => h.listed_of_link (by simp) hl ht
  | clean =>
    have hmem : obj ∈ (s.safelist (c, .clean)).data := by
      rw [show (s.safelist (c, .clean)).data = obj :: rest from hd]
      exact List.mem_cons_self ..
    have hlist : Listed s obj := ⟨(c, .clean), by simp, hmem⟩
    constructor
    · intro hz
      right
      intro l hl
      refine ⟨h.links_of_zero hlist hz l hl, fun ht => ?_⟩
      rcases h.placed _ ht with hlisted | ⟨_, hp | ⟨_, hled⟩⟩
      · exact .inr hlisted
      · exact absurd hp (h.not_pending_of_link hl)
      · exact .inl (h.clean_zero rfl ht hled)
    · intro hg
      exact .inl (h.clean_zero rfl hg (h.sound.led_of_mem (r := (c, .clean)) (by simp) hmem))
  | exit => trivial

theorem alone : Alone s c loop := ⟨h.rebuilds, h.any, h.running⟩

/-- An object that is rebuilt has a link before and after the iteration. -/
theorem rebuilt_inUse (hr : loop = .rebuild) {obj : ℕ} {rest : List ℕ}
    (hd : (s.safelist (c, .rebuild)).data = obj :: rest) :
    .delete obj ∉ (Acid.exec s (.iterate 0 c loop)).work := by
  have hmem : obj ∈ (s.safelist (c, .rebuild)).data := by
    rw [hd]
    exact List.mem_cons_self ..
  obtain ⟨l, hl, ht⟩ := h.alone.linked_iterate (.inr hr) (h.rebuilds.linked hmem)
  have hafter := h.alone.next_run.anySound
  intro hm
  exact hafter.not_pending_of_inUse (ht ▸ hafter.inUse_of_inTable hl) (.inl hm)

theorem sequential : Sequential (Acid.exec s (.iterate 0 c loop)) := by
  apply h.exec (a := .iterate 0 c loop) h.first h.guarded trivial
  rintro i d obj rest heq hd
  obtain ⟨-, rfl, rfl⟩ := Action.iterate.inj heq
  exact h.rebuilt_inUse rfl hd

section
variable {obj : ℕ} {rest : List ℕ} (hloop : loop ≠ .exit)
  (hd : (s.safelist (c, loop.list)).data = obj :: rest)
include hloop hd

omit h hloop in
theorem polled : obj ∈ (s.safelist (c, loop.list)).data := by
  rw [hd]
  exact List.mem_cons_self ..

omit hloop in
theorem unforwarded : s.forward c = none :=
  (h.sound.collectors.root_of_mem (polled hd)).1

omit hloop in
theorem soundPoll : Sound (afterPoll s c loop obj)
    ((restLedger False False s).polled loop.list (s.objects obj).which obj c) :=
  (h.anySound.poll hd rfl).check _ rfl

theorem iterates : (layout s).Iterates c obj loop (layout (Acid.exec s (.iterate 0 c loop))) := by
  have hlay := layout_iterate s 0 c loop hloop hd
  have hpoll := layout_afterPoll loop hd
  cases loop with
  | merged =>
    rw [hlay, h.anySound.layout_merged hd, hpoll]
    exact .merged
  | collect =>
    obtain ⟨e, he, heq⟩ := h.anySound.layout_collected 0 hd
    rw [heq]
    rcases he with hsame | ⟨_, _, hj⟩
    · rw [hsame]
      exact .collect .refl
    · exact .collect hj
  | recovery =>
    obtain ⟨xs, hxs, _, _⟩ := h.anySound.layout_recover h.first hd
    rw [hlay, h.anySound.layout_recovery h.first hd hxs, hpoll]
    exact .recovery xs
  | rebuild =>
    obtain ⟨xs, hxs, _, _⟩ := h.anySound.layout_recover h.first hd
    rw [hpoll] at hxs
    rw [hlay]
    change Layout.Iterates c obj (layout s) .rebuild
      (layout (objectRecoverNode (afterPoll s c .rebuild obj) obj c))
    rw [hxs]
    exact .rebuild xs
  | clean =>
    have hlist : Listed s obj := ⟨(c, .clean), by simp, polled hd⟩
    rw [hlay]
    change Layout.Iterates c obj (layout s) .clean (layout (objectCleanNode (afterPoll s c .clean obj) obj))
    rw [layout_cleanNode, hpoll]
    · exact .clean
    · rw [afterPoll_objects, (afterPoll_frame s c .clean obj).links]
      exact h.links_of_zero hlist
  | exit => exact absurd rfl hloop

/-- The last loops let objects leave the class of their collector, and none join it. -/
theorem narrows (hr : loop.recovering = true) : Narrows s (Acid.exec s (.iterate 0 c loop)) := by
  have hpolled : Narrows s (afterPoll s c loop obj) := by
    apply Narrows.of_same
    · exact afterPoll_forward s c loop obj
    · unfold afterPoll
      rw [State.check_numCollector]
      exact (safelistPoll_same s _).numCollector
    · intro x
      rw [afterPoll_objects]
  have hsound := h.soundPoll hd
  have hbody : Narrows s (loopBody (afterPoll s c loop obj) c loop obj) := by
    cases loop with
    | merged => cases hr
    | collect => cases hr
    | recovery => exact (hpolled.trans (Narrows.recoverNode hsound obj c)).trans (Narrows.add _ _ _)
    | rebuild => exact hpolled.trans (Narrows.recoverNode hsound obj c)
    | clean =>
      have hlist : Listed s obj := ⟨(c, .clean), by simp, polled hd⟩
      apply hpolled.trans
      apply Narrows.cleanNode
      rw [afterPoll_objects, (afterPoll_frame s c .clean obj).links]
      exact h.links_of_zero hlist
    | exit => exact absurd rfl hloop
  rw [iterate_eq s 0 c hloop hd]
  exact hbody.trans (Narrows.of_same rfl rfl fun _ => rfl)

/-- A phantomized object keeps its place, or its clean loop takes its links. -/
theorem placed_iterate {x : ℕ} (hx : x ∈ ghosts (Acid.exec s (.iterate 0 c loop))) :
    Listed (Acid.exec s (.iterate 0 c loop)) x ∨
      (((Acid.exec s (.iterate 0 c loop)).objects x).links.values = [] ∧
        (.delete x ∈ (Acid.exec s (.iterate 0 c loop)).work ∨
          (loop = .clean ∧ Led (Acid.exec s (.iterate 0 c loop)) x c))) := by
  have hwork := iterate_work s 0 c hloop hd
  have hafter := h.sequential
  by_cases hclean : loop = .clean
  · subst hclean
    have hn := h.narrows hloop hd rfl
    have hxs : x ∈ ghosts s := (ghosts_iterate s 0 c hloop hd hx).resolve_right fun hnew => by
      cases hnew.1
    -- the pointer stays with the phantomized object
    have hled : Led s x c → Led (Acid.exec s (.iterate 0 c .clean)) x c := by
      rintro ⟨e, he, hc⟩
      obtain ⟨d, hd'⟩ := Option.ne_none_iff_exists'.mp (hafter.sound.classes.kept ⟨trivial, hx⟩)
      obtain ⟨e', he', hr⟩ := hn.pointer hd'
      rw [he] at he'
      refine ⟨d, hd', ?_⟩
      rw [hn.update, ← hr, ← Option.some.inj he', hc]
    have hobj : ∀ y, ((Acid.exec s (.iterate 0 c .clean)).objects y).links =
        ((objectCleanNode (afterPoll s c .clean obj) obj).objects y).links := by
      intro y
      rw [iterate_eq s 0 c hloop hd]
      rfl
    have htable : ∀ y, (s.objects y).links.values = [] ∨ (y = obj ∧ ∀ b, (s.objects obj).count b = 0) →
        ((Acid.exec s (.iterate 0 c .clean)).objects y).links.values = [] := by
      intro y hy
      rw [hobj]
      rcases objectCleanNode_cases (afterPoll s c .clean obj) obj with ⟨⟨b, hb⟩, hf⟩ | ⟨_, hf, _⟩
      · rw [hf.table]
        rw [afterPoll_objects] at hb ⊢
        exact hy.resolve_right fun hz => hb (hz.2 b)
      · rw [hf.table, State.modifyObject_objects]
        split_ifs with hyo
        · exact emptyRecord_values _
        · rw [afterPoll_objects]
          exact hy.resolve_right fun hz => hyo hz.1
    rcases h.placed x hxs with hlist | ⟨hnil, hwait⟩
    · rcases h.anySound.listed_step (a := .iterate 0 c .clean) h.first hlist with
        hstay | ⟨_, _, _, heq, hdx⟩
      · exact .inl hstay
      · obtain ⟨_, rfl, _⟩ := Action.iterate.inj heq
        have hxo : obj = x := by
          rw [show (s.safelist (c, .clean)).data = obj :: rest from hd] at hdx
          exact (List.cons.inj hdx).1
        subst hxo
        have hc := h.sound.led_of_mem (r := (c, .clean)) (by simp) (polled hd)
        exact .inr ⟨htable obj (.inr ⟨rfl, h.clean_zero rfl hxs hc⟩), .inr ⟨rfl, hled hc⟩⟩
    · refine .inr ⟨htable x (.inl hnil), hwait.imp (fun hm => hwork.subset hm) ?_⟩
      exact fun hl => ⟨rfl, hled hl.2⟩
  · have hgraph := iterate_graph s 0 c hloop hclean hd
    rcases ghosts_iterate s 0 c hloop hd hx with hxs | ⟨rfl, rfl⟩
    · rcases h.placed x hxs with hlist | ⟨hnil, hwait⟩
      · left
        rcases h.anySound.listed_step (a := .iterate 0 c loop) h.first hlist with
          hstay | ⟨_, _, _, heq, _⟩
        · exact hstay
        · obtain ⟨_, _, hlc⟩ := Action.iterate.inj heq
          exact absurd hlc hclean
      · rw [hgraph.table]
        exact .inr ⟨hnil, hwait.imp (fun hm => hwork.subset hm) fun hl => absurd hl.1 hclean⟩
    · -- the object that has just been phantomized
      left
      obtain ⟨e, _, heq⟩ := h.anySound.layout_collected 0 hd
      refine ⟨(e.root c, if e.root c = c then .recovery else .merged), ?_, ?_⟩
      · dsimp only
        split_ifs
        · simp
        · simp
      · change x ∈ (layout _).data _
        rw [heq]
        exact Layout.mem_push_self _ _

/-- What is still to recover stays queued, as the targets of rebuilt links are queued again. -/
theorem recovers_recover (hr : loop = .recovery ∨ loop = .rebuild) {x : ℕ}
    (hx : x ∈ ghosts (Acid.exec s (.iterate 0 c loop)))
    (hc : Led (Acid.exec s (.iterate 0 c loop)) x c)
    (hpos : 0 < ((Acid.exec s (.iterate 0 c loop)).objects x).count
      ((Acid.exec s (.iterate 0 c loop)).objects x).which) :
    x ∈ ((Acid.exec s (.iterate 0 c loop)).safelist (c, .recovery)).data ∨
      x ∈ ((Acid.exec s (.iterate 0 c loop)).safelist (c, .rebuild)).data := by
  have hrec : loop.recovering = true := by
    rcases hr with rfl | rfl
    · rfl
    · rfl
  have hold : Led s x c := (h.narrows hloop hd hrec).led hc
  have hxs : x ∈ ghosts s := (ghosts_iterate s 0 c hloop hd hx).resolve_right fun hnew => by
    rcases hr with rfl | rfl
    · cases hnew.1
    · cases hnew.1
  have hobj : (Acid.exec s (.iterate 0 c loop)).objects =
      (objectRecoverNode (afterPoll s c loop obj) obj c).objects := by
    rw [iterate_eq s 0 c hloop hd]
    rcases hr with rfl | rfl
    · exact (safelistAdd_same _ _ _).objects
    · rfl
  have hmem : ∀ {r : ListRef}, x ∈ ((objectRecoverNode (afterPoll s c loop obj) obj c).safelist r).data →
      x ∈ ((Acid.exec s (.iterate 0 c loop)).safelist r).data := by
    intro r hm
    rw [iterate_eq s 0 c hloop hd]
    rcases hr with rfl | rfl
    · exact safelistAdd_mem _ _ _ _ hm
    · exact hm
  have hphantom : (((objectRecoverNode (afterPoll s c loop obj) obj c)).objects x).phantomized =
      true := by
    rw [← hobj]
    exact hx.2
  obtain ⟨d, hcol, _⟩ := hc
  rw [hobj] at hpos hcol
  obtain ⟨ys, hys, _, _⟩ := h.anySound.layout_recover h.first hd
  have hpoll := h.soundPoll hd
  have hruns := runTasks_afterPoll obj h.first
  have hlay := layout_afterPoll loop hd
  have hroot : (afterPoll s c loop obj).forward c = none :=
    (congrFun (afterPoll_forward s c loop obj) c).trans (h.unforwarded hd)
  have hobjects := afterPoll_objects s c loop obj
  have hlinks := (afterPoll_frame s c loop obj).links
  generalize afterPoll s c loop obj = u at *
  by_cases htarget : 0 < (u.objects obj).count (u.objects obj).which ∧
      ∃ l ∈ (u.objects obj).links.values, (u.links l).phantomized = true ∧ x = (u.links l).target
  · obtain ⟨hposObj, l, hl, hp, rfl⟩ := htarget
    refine .inr (hmem (hpoll.recoverNode_rebuilt obj ?_ id rfl ?_ hruns hroot hposObj hl hp ?_))
    · simp [Ledger.polled, restLedger]
    · intro k hk
      rw [hobjects] at hk
      exact h.sound.mem_tableLinks.mpr ⟨obj, hk⟩
    · rw [hcol]
      simp
  · have hcount : ((objectRecoverNode u obj c).objects x).count = (s.objects x).count := by
      rw [objectRecoverNode_count_of_ne, hobjects]
      intro hposObj l hl hp heq
      exact htarget ⟨hposObj, l, hl, hp, heq⟩
    have hcases := objectRecoverNode_cases u obj c
    have hwhich : ((objectRecoverNode u obj c).objects x).which = (s.objects x).which := by
      rcases hcases with ⟨_, hf⟩ | ⟨_, hf, _⟩
      · rw [hf.which, hobjects]
      · rw [hf.which, State.modifyObject_objects, hobjects]
        split_ifs with hxo
        · rw [hxo]
          rfl
        · rfl
    rw [hcount, hwhich] at hpos
    have hxo : x ≠ obj := by
      rintro rfl
      rcases hcases with ⟨hle, _⟩ | ⟨_, hf, _⟩
      · rw [hobjects] at hle
        omega
      · rw [hf.phantomized, State.modifyObject_objects_self] at hphantom
        cases hphantom
    have hstay : ∀ {r : ListRef}, x ∈ (s.safelist r).data →
        x ∈ ((objectRecoverNode u obj c).safelist r).data := by
      intro r hm
      change x ∈ (layout (objectRecoverNode u obj c)).data r
      rw [hys, hlay]
      exact Layout.mem_rebuild ys (Layout.mem_poll hd hm fun _ => hxo)
    exact (h.recovers hrec x hxs hold hpos).imp (fun hm => hmem (hstay hm)) fun hm => hmem (hstay hm)

/-- In the clean loop no count of a phantomized object changes. -/
theorem recovers_clean (hclean : loop = .clean) {x : ℕ}
    (hx : x ∈ ghosts (Acid.exec s (.iterate 0 c loop)))
    (hc : Led (Acid.exec s (.iterate 0 c loop)) x c) :
    ((Acid.exec s (.iterate 0 c loop)).objects x).count
      ((Acid.exec s (.iterate 0 c loop)).objects x).which = 0 := by
  subst hclean
  have hold : Led s x c := (h.narrows hloop hd rfl).led hc
  have hxs : x ∈ ghosts s := (ghosts_iterate s 0 c hloop hd hx).resolve_right fun hnew => by
    cases hnew.1
  have hzero := h.clean_zero rfl hxs hold
  have hcount := exec_count h.anySound hzero (a := .iterate 0 c .clean) h.first fun hr => by
    rcases hr with hr | hr
    · cases hr
    · cases hr
  rw [hcount]
  exact hzero _

theorem iterate_running : (Acid.exec s (.iterate 0 c loop)).running = [(c, loop)] := by
  rcases runIteration_running h.running with ⟨hexit, _⟩ | ⟨_, hnil, _⟩ | ⟨_, _, hrun⟩
  · exact absurd hexit hloop
  · rw [hd] at hnil
    cases hnil
  · exact hrun

theorem iterate : Collecting (Acid.exec s (.iterate 0 c loop)) c loop where
  toSequential := h.sequential
  running := h.iterate_running hloop hd
  rebuilds := (h.alone.iterated (h.iterate_running hloop hd)).toRebuilds
  staged := h.staged.iterates (h.iterates hloop hd)
  placed _ hx := h.placed_iterate hloop hd hx
  recovers hr x hx hc hpos := by
    cases loop with
    | merged => cases hr
    | collect => cases hr
    | recovery => exact h.recovers_recover hloop hd (.inl rfl) hx hc hpos
    | rebuild => exact h.recovers_recover hloop hd (.inr rfl) hx hc hpos
    | clean =>
      have hzero := h.recovers_clean hloop hd rfl hx hc
      omega
    | exit => exact absurd rfl hloop

end

/-- When the clean list is empty, no phantomized link into the class is left. -/
theorem cleaned (hclean : loop = .clean) (hd : (s.safelist (c, .clean)).data = []) {x : ℕ}
    (hx : x ∈ ghosts s) :
    Listed s x ∨ ((s.objects x).links.values = [] ∧ .delete x ∈ s.work) := by
  subst hclean
  rcases h.placed x hx with hlist | ⟨hnil, hp | ⟨_, hled⟩⟩
  · exact .inl hlist
  · exact .inr ⟨hnil, hp⟩
  · have hzero := h.clean_zero rfl hx hled
    rcases ((h.sound.settled x (Set.mem_univ x) hx.1 (hzero _)).2 trivial).2 with hp | ⟨hpos, _⟩
    · exact .inr ⟨hnil, hp⟩
    · left
      have hcount2 := h.sound.balance.count2 x
      by_cases hlinks : 0 < phantomRefs s (tableLinks s) x
      · obtain ⟨l, hl, rfl, hp⟩ := exists_of_tally_pos hlinks
        obtain ⟨o, ho⟩ := h.sound.mem_tableLinks.mp hl
        obtain ⟨d, hod, hxd⟩ := h.led_of_link ho hp
        have hoc : Led s o c := hxd.unique hled ▸ hod
        have hlist : Listed s o := by
          rcases h.placed o (h.ghost_of_link ho hp) with hlist | ⟨hempty, _⟩
          · exact hlist
          · rw [hempty] at ho
            cases ho
        obtain ⟨n, _, hm⟩ := h.sound.mem_of_led hlist hoc
        have hn := h.staged (c, n) (List.ne_nil_of_mem hm)
        rw [if_pos rfl] at hn
        simp only [Loop.holds, decide_eq_true_eq] at hn
        rw [hn, hd] at hm
        cases hm
      · apply listed_of_curation
        simp [restLedger] at hcount2
        omega

/-- A loop whose list is empty leads to the next one. -/
theorem next (hloop : loop ≠ .exit) (hd : (s.safelist (c, loop.list)).data = []) :
    Collecting (Acid.exec s (.iterate 0 c loop)) c loop.next := by
  have hseq := h.sequential
  have halone : (Acid.exec s (.iterate 0 c loop)).running = [(c, loop.next)] →
      Alone (Acid.exec s (.iterate 0 c loop)) c loop.next := h.alone.iterated
  have heq : Acid.exec s (.iterate 0 c loop) = { s with running := [(c, loop.next)] } := by
    change runIteration s 0 c loop = _
    rcases runIteration_cases s 0 c loop with ⟨hexit, _⟩ | ⟨hexit, _⟩ | ⟨_, _, heq⟩ |
      ⟨_, obj, rest, hcons, _⟩
    · exact absurd hexit hloop
    · exact absurd hexit hloop
    · rw [heq, h.running]
      rfl
    · rw [hd] at hcons
      cases hcons
  rw [heq] at hseq halone ⊢
  refine ⟨hseq, rfl, (halone rfl).toRebuilds, ?_, ?_, ?_⟩
  · exact h.staged.next hloop hd
  · intro x hx
    by_cases hclean : loop = .clean
    · subst hclean
      exact (h.cleaned rfl hd hx).imp id fun hw => ⟨hw.1, .inl hw.2⟩
    · rcases h.placed x hx with hlist | ⟨hnil, hp | ⟨hl, _⟩⟩
      · exact .inl hlist
      · exact .inr ⟨hnil, .inl hp⟩
      · exact absurd hl hclean
  · intro hr x hx hc hpos
    by_cases hcollect : loop = .collect
    · subst hcollect
      left
      rcases h.placed x hx with hlist | ⟨_, hp | ⟨hl, _⟩⟩
      · obtain ⟨n, _, hm⟩ := h.sound.mem_of_led hlist hc
        have hn := h.staged (c, n) (List.ne_nil_of_mem hm)
        rw [if_pos rfl] at hn
        simp only [Loop.holds, decide_eq_true_eq] at hn
        rcases hn with rfl | rfl
        · rw [show (s.safelist (c, .collect)).data = [] from hd] at hm
          cases hm
        · exact hm
      · have hzero := (h.sound.deletes.pending (.inl hp)).2.1 (s.objects x).which
        rw [hzero] at hpos
        exact absurd hpos (lt_irrefl 0)
      · cases hl
    · apply h.recovers _ x hx hc hpos
      cases loop with
      | merged => cases hr
      | collect => exact absurd rfl hcollect
      | _ => rfl

/-- The exit check ends the run. -/
theorem finish (hloop : loop = .exit) : Idle (Acid.exec s (.iterate 0 c loop)) := by
  subst hloop
  have hdata := h.anySound.data_iterate 0 c (.inl (rfl : Loop.exit = .exit))
  have hseq := h.sequential
  have hsame : (Acid.exec s (.iterate 0 c .exit)).objects = s.objects ∧
      (Acid.exec s (.iterate 0 c .exit)).objectCount = s.objectCount ∧
      s.work <+: (Acid.exec s (.iterate 0 c .exit)).work := by
    change (runIteration s 0 c .exit).objects = _ ∧ (runIteration s 0 c .exit).objectCount = _ ∧
      s.work <+: (runIteration s 0 c .exit).work
    rcases runIteration_cases s 0 c .exit with ⟨_, _, heq⟩ | ⟨_, _, heq⟩ | ⟨hne, _⟩ | ⟨hne, _⟩
    · have hre := h.sound.collectors.retire_eq c
      rw [heq]
      change (retire s c).objects = _ ∧ (retire s c).objectCount = _ ∧ s.work <+: (retire s c).work
      rw [hre]
      exact ⟨rfl, rfl, List.prefix_refl _⟩
    · rw [heq]
      exact ⟨rfl, rfl, List.prefix_append _ _⟩
    · exact absurd rfl hne
    · exact absurd rfl hne
  obtain ⟨hobj, hcount, hwork⟩ := hsame
  refine ⟨hseq, ?_, ?_, ?_⟩
  · rcases runIteration_running h.running with ⟨_, hrun⟩ | ⟨hne, _⟩ | ⟨hne, _⟩
    · exact hrun
    · exact absurd rfl hne
    · exact absurd rfl hne
  · intro r hr
    rw [hdata] at hr
    have hold := h.staged r hr
    split_ifs at hold
    · cases hold
    · exact hold
  · rw [ghosts_congr hobj hcount, hobj]
    intro x hx
    rcases h.placed x hx with ⟨r, hr, hm⟩ | ⟨hnil, hp | ⟨hl, _⟩⟩
    · rw [← hdata r] at hm
      exact .inl ⟨r, hr, hm⟩
    · exact .inr ⟨hnil, hwork.subset hp⟩
    · cases hl

/-- One step of the run that is under way. -/
theorem step : Idle (runIteration s 0 c loop) ∨ ∃ next, Collecting (runIteration s 0 c loop) c next := by
  by_cases hloop : loop = .exit
  · exact .inl (h.finish hloop)
  · right
    cases hd : (s.safelist (c, loop.list)).data with
    | nil => exact ⟨_, h.next hloop hd⟩
    | cons obj rest => exact ⟨_, h.iterate hloop hd⟩

end Collecting

/-! ## Between tasks -/

namespace Idle
variable {s : State} (h : Idle s)
include h

theorem guardedDelete (i o : ℕ) (he : Enabled s (.delete i o)) : Guarded s (.delete i o) := by
  left
  intro l hl hp
  have hghost := h.ghost_of_link hl hp
  rcases h.placed o hghost with hlist | ⟨hnil, _⟩
  · exact absurd (List.mem_of_getElem? he) (h.not_pending_of_listed hlist)
  · rw [hnil] at hl
    cases hl

theorem delete {i o : ℕ} (he : Enabled s (.delete i o)) : Idle (Acid.exec s (.delete i o)) := by
  have hseq : Sequential (Acid.exec s (.delete i o)) :=
    h.exec he (h.guardedDelete i o he) trivial fun _ _ _ _ heq => by cases heq
  have hcollects := h.anySound.exec_collects he rfl
  have hshape := (objectRequestDeleteTaskRun_effect { s with work := s.work.eraseIdx i } o).1
  have hwork : s.work.eraseIdx i <+: (Acid.exec s (.delete i o)).work :=
    (objectRemoveLinks_frame { s with work := s.work.eraseIdx i } o).work.trans (objectDel_work _ o)
  refine ⟨hseq, ?_, ?_, ?_⟩
  · exact (exec_running rfl).trans h.running
  · exact hcollects.waits h.lists
  · intro x hx
    obtain ⟨hold, hne⟩ := ghosts_delete s i o hx
    rcases h.placed x hold with hlist | ⟨hnil, hp⟩
    · left
      rcases h.anySound.listed_step he hlist with hstay | ⟨_, _, _, heq, _⟩
      · exact hstay
      · cases heq
    · right
      have htable := hshape x
      rw [State.modifyObject_objects, if_neg hne] at htable
      have hlinks : ((Acid.exec s (.delete i o)).objects x).shape.links = (s.objects x).shape.links :=
        congrArg Object.links htable
      change ((Acid.exec s (.delete i o)).objects x).links = (s.objects x).links at hlinks
      rw [hlinks]
      exact ⟨hnil, hwork.subset (mem_eraseIdx_of_ne he (by simpa using hne) hp)⟩

/-- A run task waits in the queue again, or starts. -/
theorem enter {i c : ℕ} (he : Enabled s (.enter i c)) :
    Idle (Acid.exec s (.enter i c)) ∨ Collecting (Acid.exec s (.enter i c)) c .merged := by
  have hseq : Sequential (Acid.exec s (.enter i c)) :=
    h.exec he trivial trivial fun _ _ _ _ heq => by cases heq
  have hnil : ∀ a, (s.safelist (a, .rebuild)).data = [] := by
    intro a
    by_contra hne
    cases h.lists (a, .rebuild) hne
  have halone : _ ∨ Alone (Acid.exec s (.enter i c)) c .merged := h.any.alone h.running he hnil
  have hpending : ∀ x, .delete x ∈ s.work → .delete x ∈ s.work.eraseIdx i :=
    fun x hm => mem_eraseIdx_of_ne he (by simp) hm
  have heq : Acid.exec s (.enter i c) = { s with work := s.work.eraseIdx i ++ [.run c] } ∨
      Acid.exec s (.enter i c) = { s with work := s.work.eraseIdx i, running := [(c, .merged)] } := by
    unfold Acid.exec collectorEnter
    dsimp only
    split_ifs
    · exact .inl rfl
    · right
      rw [h.running]
      rfl
  rcases heq with heq | heq
  · left
    rw [heq] at hseq ⊢
    refine ⟨hseq, h.running, h.lists, fun x hx => ?_⟩
    exact (h.placed x hx).imp id fun hw => ⟨hw.1, List.mem_append_left _ (hpending x hw.2)⟩
  · right
    rw [heq] at hseq halone ⊢
    have hrebuilds := (halone.resolve_left fun hidle => by
      change (Acid.exec s (.enter i c)).running = [] at hidle
      rw [heq] at hidle
      cases hidle).toRebuilds
    refine ⟨hseq, rfl, hrebuilds, fun r hr => ?_, fun x hx => ?_, fun hr => by cases hr⟩
    · have hwaits := h.lists r hr
      split_ifs
      · cases hn : r.2 with
        | collect => rfl
        | merged => rfl
        | recovery =>
          rw [hn] at hwaits
          cases hwaits
        | rebuild =>
          rw [hn] at hwaits
          cases hwaits
        | clean =>
          rw [hn] at hwaits
          cases hwaits
      · exact hwaits
    · exact (h.placed x hx).imp id fun hw => ⟨hw.1, .inl (hpending x hw.2)⟩

end Idle

/-- The calls of the program. -/
def Action.mutator : Action → Bool
  | .initStrong _ => true
  | .incStrong _ => true
  | .decStrong _ => true
  | .set _ _ _ => true
  | _ => false

theorem Action.whole_of_mutator {a : Action} (h : a.mutator = true) : a.whole = true := by
  cases a with
  | enter i c => cases h
  | iterate i c loop => cases h
  | _ => rfl

theorem ghosts_mutator {s : State} {a : Action} (h : a.mutator = true) : ghosts (exec s a) = ghosts s := by
  cases a with
  | initStrong d => exact ghosts_initStrong s d
  | incStrong o =>
    have hf : Frame s (objectIncStrong s o) := modifyObject_frame s o rfl
    rw [← ghosts_frame hf]
    exact ghosts_congr rfl rfl
  | decStrong o =>
    have hdrop : ghosts (s.dropClaim o) = ghosts s := ghosts_congr rfl rfl
    rw [← hdrop]
    exact ghosts_frame (objectDec_frame (s.dropClaim o) o _)
  | set o f r => exact ghosts_set s o f r
  | enter i c => cases h
  | iterate i c loop => cases h
  | delete i o => cases h

/-- A call takes no task away, and leaves the links of an object with a delete task alone. -/
theorem Sequential.exec_mutator {s : State} (h : Sequential s) {a : Action} (he : Enabled s a)
    (ha : a.mutator = true) : s.work <+: (Acid.exec s a).work ∧
      ∀ x, .delete x ∈ s.work → ((Acid.exec s a).objects x).links = (s.objects x).links := by
  cases a with
  | initStrong d =>
    refine ⟨List.prefix_refl _, fun x hx => ?_⟩
    have hne : x ≠ s.objectCount := Nat.ne_of_lt (h.sound.deletes.pending (.inl hx)).1.1
    simp [Acid.exec, State.addClaim, objectInitStrong, objectIncStrong, objectInit,
      State.modifyObject, Function.update_of_ne hne]
  | incStrong o =>
    have hf : Frame s (objectIncStrong s o) := modifyObject_frame s o rfl
    exact ⟨hf.work, fun x _ => hf.table x⟩
  | decStrong o =>
    have hf := objectDec_frame (s.dropClaim o) o ((s.dropClaim o).objects o).which
    exact ⟨hf.work, fun x _ => hf.table x⟩
  | set o f r =>
    have ho : Reachable s o := by
      cases r with
      | none => exact he
      | some x => exact he.1
    have hne : ∀ x, .delete x ∈ s.work → x ≠ o := by
      rintro x hx rfl
      exact h.sound.not_pending_of_inUse (h.sound.inUse_of_reachable rfl ho) (.inl hx)
    change s.work <+: (objectSet s o f r).work ∧
      ∀ x, .delete x ∈ s.work → ((objectSet s o f r).objects x).links = (s.objects x).links
    rcases objectSet_cases s o f r with ⟨_, hf, _⟩ | ⟨heq, _⟩ | ⟨y, _, hf, _⟩
    · refine ⟨hf.work, fun x hx => (hf.table x).trans ?_⟩
      rw [State.modifyObject_objects, if_neg (hne x hx)]
    · rw [heq]
      exact ⟨List.prefix_refl _, fun _ _ => rfl⟩
    · refine ⟨hf.work, fun x hx => (hf.table x).trans ?_⟩
      rw [linkAdded_objects, if_neg (hne x hx)]
  | enter i c => cases ha
  | iterate i c loop => cases ha
  | delete i o => cases ha

/-- The target of a phantomized link of the program's own waits in a list with a second phantom
reference. -/
theorem Idle.guardedCall {s : State} (h : Idle s) {a : Action} (ha : a.mutator = true) :
    Guarded s a := by
  cases a with
  | set o f r =>
    intro l hget hp ht
    have hl : l ∈ (s.objects o).links.values :=
      ((s.objects o).links.mem_values l).mpr ⟨f, ((s.objects o).links.get_eq_some f l).mp hget⟩
    have hlist : Listed s (s.links l).target := by
      rcases h.placed _ ht with hlist | ⟨_, hpending⟩
      · exact hlist
      · exact absurd hpending (h.not_pending_of_link hl)
    obtain ⟨r, hr, hm⟩ := hlist
    have hcuration := curation_pos (h.sound.collectors.root_of_mem hm).2.1 hr hm
    have href := h.sound.mem_tableLinks.mpr ⟨o, hl⟩
    have hphantom : 0 < phantomRefs s (tableLinks s) (s.links l).target :=
      tally_pos href ⟨rfl, hp⟩
    have hcount := h.sound.balance.count2 (s.links l).target
    simp [restLedger] at hcount
    omega
  | initStrong d => trivial
  | incStrong o => trivial
  | decStrong o => trivial
  | enter i c => cases ha
  | iterate i c loop => cases ha
  | delete i o => cases ha

/-- A reachable object that is not phantomized has a strong reference. -/
theorem Sequential.strongEnough {s : State} (h : Sequential s) {o f x : ℕ} (hx : Reachable s x)
    (hp : (s.objects x).phantomized = false) : StrongEnough s (.set o f (some x)) := by
  have huse := h.sound.inUse_of_reachable rfl hx
  have hlive := h.sound.live_of_inUse huse
  intro _ _
  right
  intro hz
  rcases (h.sound.settled x (Set.mem_univ x) hlive hz).1 with hdoomed | hghost
  · exact h.sound.not_pending_of_inUse huse (.inl hdoomed)
  · rw [hp] at hghost
    cases hghost

/-- A call of the program between two tasks. -/
theorem Idle.call {s : State} (h : Idle s) {a : Action} (he : Enabled s a) (ha : a.mutator = true)
    (hK : StrongEnough s a) : Idle (exec s a) := by
  obtain ⟨hwork, hlinks⟩ := h.exec_mutator he ha
  have hseq : Sequential (exec s a) := by
    apply h.exec he (h.guardedCall ha) hK
    rintro i c obj rest rfl
    cases ha
  refine ⟨hseq, ?_, ?_, ?_⟩
  · exact (exec_running (Action.whole_of_mutator ha)).trans h.running
  · exact (h.anySound.exec_collects he (Action.whole_of_mutator ha)).waits h.lists
  · intro x hx
    rw [ghosts_mutator ha] at hx
    rcases h.placed x hx with hlist | ⟨hnil, hpending⟩
    · left
      rcases h.anySound.listed_step he hlist with hstay | ⟨_, _, _, heq, _⟩
      · exact hstay
      · rw [heq] at ha
        cases ha
    · rw [hlinks x hpending]
      exact .inr ⟨hnil, hwork.subset hpending⟩

theorem idle_initial : Idle initial := by
  have hasserts : AssertionsHold initial := fun _ => List.not_mem_nil
  refine ⟨⟨.start, sound_initial True True, fun x hx => absurd rfl hx, hasserts⟩, rfl,
    fun r hr => ?_, ?_⟩
  · exact absurd rfl hr
  · rintro x ⟨⟨hlt, _⟩, _⟩
    cases hlt

end Acid

import Acid.Draining

set_option autoImplicit false

/-!
# What a run of one collector leaves of the world

It keeps what is reachable as it is and frees no object. The collector ends with empty
lists; if it was forwarded in the meantime, there are more phantomized objects than before.
-/
namespace Acid
open PointerForest Tally

/-- A graph whose edges from nodes that the roots reach are kept has the same such nodes. -/
theorem reaches_iff_of_kept {α : Type} {E E' : α → α → Prop} {root : α → Prop}
    (hsub : ∀ {a b}, E' a b → E a b)
    (hkept : ∀ {a b}, (∃ r, root r ∧ Relation.ReflTransGen E r a) → E a b → E' a b) (x : α) :
    (∃ r, root r ∧ Relation.ReflTransGen E' r x) ↔ ∃ r, root r ∧ Relation.ReflTransGen E r x := by
  constructor
  · rintro ⟨r, hr, hpath⟩
    exact ⟨r, hr, Relation.ReflTransGen.mono (fun _ _ => hsub) r x hpath⟩
  · rintro ⟨r, hr, hpath⟩
    refine ⟨r, hr, ?_⟩
    induction hpath with
    | refl => exact .refl
    | tail hpath hab ih => exact ih.tail (hkept ⟨r, hr, hpath⟩ hab)

/-- Reachable objects keep their links, and no link is new. -/
structure KeepsReachable (s s' : State) : Prop where
  claims : s'.claims = s.claims
  target : ∀ l, (s'.links l).target = (s.links l).target
  subset : ∀ {o l}, l ∈ (s'.objects o).links.values → l ∈ (s.objects o).links.values
  table : ∀ {o}, Reachable s o → (s'.objects o).links = (s.objects o).links

namespace KeepsReachable
variable {s s' s'' : State}

theorem refl (s : State) : KeepsReachable s s := ⟨rfl, fun _ => rfl, id, fun _ => rfl⟩

theorem reachable_iff (h : KeepsReachable s s') (o : ℕ) : Reachable s' o ↔ Reachable s o := by
  have hsub : ∀ {a b}, Edge s' a b → Edge s a b := by
    rintro a b ⟨l, hl, ht⟩
    exact ⟨l, h.subset hl, (h.target l).symm.trans ht⟩
  have hkept : ∀ {a b}, Reachable s a → Edge s a b → Edge s' a b := by
    rintro a b ha ⟨l, hl, ht⟩
    refine ⟨l, ?_, (h.target l).trans ht⟩
    rw [h.table ha]
    exact hl
  unfold Reachable
  rw [h.claims]
  exact reaches_iff_of_kept hsub hkept o

theorem trans (h : KeepsReachable s s') (h' : KeepsReachable s' s'') : KeepsReachable s s'' where
  claims := h'.claims.trans h.claims
  target l := (h'.target l).trans (h.target l)
  subset hl := h.subset (h'.subset hl)
  table ho := (h'.table ((h.reachable_iff _).mpr ho)).trans (h.table ho)

theorem objectGet (h : KeepsReachable s s') {o : ℕ} (ho : Reachable s o) (f : ℕ) :
    Acid.objectGet s' o f = Acid.objectGet s o f := by
  simp only [Acid.objectGet, h.table ho, h.target]

theorem of_graph (h : SameGraph s s') : KeepsReachable s s' where
  claims := h.claims
  target := h.target
  subset hl := by
    rw [h.table] at hl
    exact hl
  table _ := h.table _

/-- An object that is not reachable loses its links. -/
theorem of_emptied (obj : ℕ) (hclaims : s'.claims = s.claims)
    (htarget : ∀ l, (s'.links l).target = (s.links l).target)
    (htable : ∀ x, x ≠ obj → (s'.objects x).links = (s.objects x).links)
    (hempty : (s'.objects obj).links.values = []) (hr : ¬ Reachable s obj) :
    KeepsReachable s s' where
  claims := hclaims
  target := htarget
  subset {o l} hl := by
    by_cases ho : o = obj
    · rw [ho, hempty] at hl
      cases hl
    · rw [htable o ho] at hl
      exact hl
  table {o} ho := by
    apply htable
    rintro rfl
    exact hr ho

end KeepsReachable

/-! ## Reachable objects are spared -/

/-- What links to a phantomized object of the class is such an object itself, in the clean loop. -/
theorem Collecting.not_reachable {s : State} {c : ℕ} (h : Collecting s c .clean) {x : ℕ}
    (hx : x ∈ ghosts s) (hc : Led s x c) : ¬ Reachable s x := by
  rintro ⟨r, hr, hpath⟩
  have hback : r ∈ ghosts s ∧ Led s r c := by
    clear hr
    induction hpath using Relation.ReflTransGen.head_induction_on with
    | refl => exact ⟨hx, hc⟩
    | head hab _ ih =>
      obtain ⟨l, hl, rfl⟩ := hab
      have hp : (s.links l).phantomized = true := by
        by_contra hp
        have hpos := h.sound.balance.count_pos_of_link (h.sound.mem_tableLinks.mpr ⟨_, hl⟩)
          (by simpa using hp)
        rw [h.clean_zero rfl ih.1 ih.2] at hpos
        exact lt_irrefl 0 hpos
      obtain ⟨d, ha, hb⟩ := h.led_of_link hl hp
      exact ⟨h.ghost_of_link hl hp, hb.unique ih.2 ▸ ha⟩
  have hpos := h.sound.balance.count_pos_of_claim hr
  rw [h.clean_zero rfl hback.1 hback.2] at hpos
  exact lt_irrefl 0 hpos

theorem Idle.keeps_delete {s : State} (h : Idle s) {i o : ℕ} (he : Enabled s (.delete i o)) :
    KeepsReachable s (exec s (.delete i o)) := by
  obtain ⟨hshape, hlinks, _, _, hclaims, _⟩ :=
    objectRequestDeleteTaskRun_effect { s with work := s.work.eraseIdx i } o
  have htable : ∀ x, ((exec s (.delete i o)).objects x).links =
      (({ s with work := s.work.eraseIdx i }.modifyObject o deletedRecord).objects x).links := by
    intro x
    exact show (_ : Object).shape.links = (_ : Object).shape.links from congrArg Object.links (hshape x)
  apply KeepsReachable.of_emptied o
  · exact hclaims
  · intro l
    change (((objectRequestDeleteTaskRun _ o)).links l).target = _
    rw [hlinks]
    split_ifs
    · rfl
    · rfl
  · intro x hx
    rw [htable, State.modifyObject_objects, if_neg hx]
  · rw [htable, State.modifyObject_objects_self]
    exact deletedRecord_values _
  · intro hr
    exact h.sound.not_pending_of_inUse (h.sound.inUse_of_reachable rfl hr)
      (.inl (List.mem_of_getElem? he))

theorem iterate_same {s : State} {L : Ledger} (h : Sound s L) (i c : ℕ) {loop : Loop}
    (hd : loop = .exit ∨ (s.safelist (c, loop.list)).data = []) :
    (exec s (.iterate i c loop)).objects = s.objects ∧
    (exec s (.iterate i c loop)).objectCount = s.objectCount ∧
    (exec s (.iterate i c loop)).links = s.links ∧
    (exec s (.iterate i c loop)).linkCount = s.linkCount ∧
    (exec s (.iterate i c loop)).claims = s.claims := by
  change (runIteration s i c loop).objects = _ ∧ (runIteration s i c loop).objectCount = _ ∧
    (runIteration s i c loop).links = _ ∧ (runIteration s i c loop).linkCount = _ ∧
    (runIteration s i c loop).claims = _
  rcases runIteration_cases s i c loop with ⟨_, _, heq⟩ | ⟨_, _, heq⟩ | ⟨_, _, heq⟩ |
    ⟨hloop, obj, rest, hcons, _⟩
  · have hre := h.collectors.retire_eq c
    rw [heq]
    change (retire s c).objects = _ ∧ (retire s c).objectCount = _ ∧ (retire s c).links = _ ∧
      (retire s c).linkCount = _ ∧ (retire s c).claims = _
    rw [hre]
    exact ⟨rfl, rfl, rfl, rfl, rfl⟩
  · rw [heq]
    exact ⟨rfl, rfl, rfl, rfl, rfl⟩
  · rw [heq]
    exact ⟨rfl, rfl, rfl, rfl, rfl⟩
  · rw [hd.resolve_left hloop] at hcons
    cases hcons

theorem iterate_same_graph {s : State} {L : Ledger} (h : Sound s L) (i c : ℕ) {loop : Loop}
    (hd : loop = .exit ∨ (s.safelist (c, loop.list)).data = []) :
    SameGraph s (exec s (.iterate i c loop)) := by
  obtain ⟨hobj, hcount, hlinks, hlc, hclaims⟩ := iterate_same h i c hd
  refine ⟨fun o => ?_, fun o => ?_, fun l => ?_, fun l => ?_, hlc, hcount, hclaims⟩
  · rw [hobj]
  · rw [hobj]
  · rw [hlinks]
  · rw [hlinks]

namespace Collecting
variable {s : State} {c : ℕ} {loop : Loop} (h : Collecting s c loop)
include h

/-- No step of a run takes the links of a reachable object. -/
theorem keeps : KeepsReachable s (Acid.exec s (.iterate 0 c loop)) := by
  by_cases hnone : loop = .exit ∨ (s.safelist (c, loop.list)).data = []
  · exact .of_graph (iterate_same_graph h.sound 0 c hnone)
  · push Not at hnone
    obtain ⟨hloop, hne⟩ := hnone
    obtain ⟨obj, rest, hd⟩ := List.exists_cons_of_ne_nil hne
    by_cases hclean : loop = .clean
    · subst hclean
      have hmem := polled hd
      have hlist : Listed s obj := ⟨(c, .clean), by simp, hmem⟩
      have hframe := afterPoll_frame s c .clean obj
      have heq := iterate_eq s 0 c hloop hd
      rw [heq]
      rcases objectCleanNode_cases (afterPoll s c .clean obj) obj with ⟨_, hf⟩ | ⟨hz, hf, hlinks⟩
      · have hgraph := hframe.graph.trans hf.graph
        exact .of_graph ⟨hgraph.table, hgraph.magic, hgraph.target, hgraph.src, hgraph.linkCount,
          hgraph.objectCount, hgraph.claims⟩
      · rw [afterPoll_objects] at hz
        apply KeepsReachable.of_emptied obj
        · exact hf.claims.trans hframe.claims
        · intro l
          exact (hf.target l).trans (congrArg Link.target (congrFun hframe.links l))
        · intro x hx
          change ((objectCleanNode _ obj).objects x).links = _
          rw [hf.table, State.modifyObject_objects, if_neg hx, afterPoll_objects]
        · change ((objectCleanNode _ obj).objects obj).links.values = []
          rw [hf.table, State.modifyObject_objects_self]
          exact emptyRecord_values _
        · exact h.not_reachable (h.ghost_of_zero hlist hz)
            (h.sound.led_of_mem (r := (c, .clean)) (by simp) hmem)
    · exact .of_graph (iterate_graph s 0 c hloop hclean hd)

end Collecting

/-! ## What a run has done so far -/

theorem loopBody_live (s : State) (c : ℕ) (loop : Loop) (obj x : ℕ) :
    Live (loopBody s c loop obj) x ↔ Live s x := by
  have hadd := fun (u : State) r => (safelistAdd_frame u r obj).live_iff x
  have hmodify : ∀ {f : Object → Object} {u : State}, LinkFrame (s.modifyObject obj f) u →
      (∀ o, (f o).freed = o.freed) → (Live u x ↔ Live s x) := by
    intro f u hu hf
    rw [hu.live_iff, Live, Live, State.modifyObject_objects]
    split_ifs with hx
    · rw [hf, hx]
      rfl
    · rfl
  have hrec : Live (objectRecoverNode s obj c) x ↔ Live s x := by
    rcases objectRecoverNode_cases s obj c with ⟨_, hf⟩ | ⟨_, hf, _⟩
    · exact hf.live_iff x
    · exact hmodify hf fun _ => rfl
  cases loop with
  | merged => exact hadd s _
  | collect =>
    refine (hadd _ _).trans ?_
    rcases objectPhantomizeNode_cases s obj with ⟨_, hf⟩ | ⟨_, hf, _⟩
    · exact hf.live_iff x
    · exact hmodify hf fun _ => rfl
  | recovery => exact (hadd _ _).trans hrec
  | rebuild => exact hrec
  | clean =>
    rcases objectCleanNode_cases s obj with ⟨_, hf⟩ | ⟨_, hf, _⟩
    · exact hf.live_iff x
    · exact hmodify hf fun _ => rfl
  | exit => rfl

theorem iterate_live {s : State} {L : Ledger} (h : Sound s L) (i c : ℕ) (loop : Loop) (x : ℕ) :
    Live (exec s (.iterate i c loop)) x ↔ Live s x := by
  by_cases hnone : loop = .exit ∨ (s.safelist (c, loop.list)).data = []
  · obtain ⟨hobj, hcount, _⟩ := iterate_same h i c hnone
    rw [Live, Live, hobj, hcount]
  · push Not at hnone
    obtain ⟨hloop, hne⟩ := hnone
    obtain ⟨obj, rest, hd⟩ := List.exists_cons_of_ne_nil hne
    rw [iterate_eq s i c hloop hd, ← (afterPoll_frame s c loop obj).live_iff x]
    exact loopBody_live _ c loop obj x

/-- Before the recovery loop, phantomized objects stay so. -/
theorem ghosts_subset (s : State) (i c : ℕ) {loop : Loop} (hr : loop.recovering = false) {obj : ℕ}
    {rest : List ℕ} (hd : (s.safelist (c, loop.list)).data = obj :: rest) :
    ghosts s ⊆ ghosts (exec s (.iterate i c loop)) := by
  have hloop : loop ≠ .exit := by
    rintro rfl
    cases hr
  have hframe := afterPoll_frame s c loop obj
  rintro x ⟨hlive, hp⟩
  rw [iterate_eq s i c hloop hd]
  refine ⟨(loopBody_live _ c loop obj x).mpr ((hframe.live_iff x).mpr hlive), ?_⟩
  rw [← hframe.phantomized] at hp
  cases loop with
  | merged => exact ((safelistAdd_frame _ _ _).phantomized x).trans hp
  | collect =>
    refine ((safelistAdd_frame _ _ _).phantomized x).trans ?_
    rcases objectPhantomizeNode_cases (afterPoll s c .collect obj) obj with ⟨_, hf⟩ | ⟨_, hf, _⟩
    · exact (hf.phantomized x).trans hp
    · rw [hf.phantomized, State.modifyObject_objects]
      split_ifs
      · rfl
      · exact hp
  | _ => cases hr

/-- What a run of `c` that started in `s₀` has done when it is in the given loop. -/
structure Progress (s₀ : State) (c : ℕ) (loop : Loop) (s : State) : Prop where
  live : ∀ x, Live s x ↔ Live s₀ x
  confined : Confined (layout s₀) c (layout s)
  grown : loop.recovering = false → ghosts s₀ ⊆ ghosts s
  joined : collectorUpdate s c ≠ c → ghosts s₀ ⊆ ghosts s ∧ ∃ x ∈ ghosts s, x ∉ ghosts s₀

theorem Loop.next_recovering {loop : Loop} (h : loop.next.recovering = false) :
    loop.recovering = false := by
  cases loop with
  | merged => rfl
  | collect => cases h
  | recovery => cases h
  | rebuild => cases h
  | clean => cases h
  | exit => cases h

namespace Progress
variable {s₀ s : State} {c : ℕ} {loop : Loop} (p : Progress s₀ c loop s) (h : Collecting s c loop)
include p h

theorem iterate (hloop : loop ≠ .exit) {obj : ℕ} {rest : List ℕ}
    (hd : (s.safelist (c, loop.list)).data = obj :: rest) :
    Progress s₀ c loop (Acid.exec s (.iterate 0 c loop)) where
  live x := (iterate_live h.sound 0 c loop x).trans (p.live x)
  confined := p.confined.iterates (collectorUpdate_of_root (h.unforwarded hd)) (h.iterates hloop hd)
  grown hr := (p.grown hr).trans (ghosts_subset s 0 c hr hd)
  joined hne := by
    have hroot : collectorUpdate s c = c := collectorUpdate_of_root (h.unforwarded hd)
    have hiter := h.iterates hloop hd
    have hupdate : ∀ {e : Layout}, layout (Acid.exec s (.iterate 0 c loop)) = e → e.root c ≠ c := by
      rintro e rfl
      exact hne
    -- only the collect loop forwards its collector, with an object that it phantomizes
    by_cases hcollect : loop = .collect
    · subst hcollect
      have hgrow := ghosts_subset s 0 c (rfl : Loop.recovering .collect = false) hd
      obtain ⟨e, he, heq⟩ := h.anySound.layout_collected 0 hd
      have hec := hupdate heq
      change e.root c ≠ c at hec
      rcases he with hsame | ⟨hbefore, hafter, _⟩
      · rw [hsame] at hec
        exact absurd hroot hec
      · have hlist : Listed s obj := ⟨(c, .collect), by simp, Collecting.polled hd⟩
        have hlive := h.sound.live_of_inUse (h.anySound.inUse_of_listed hlist)
        refine ⟨(p.grown rfl).trans hgrow, obj,
          ⟨(iterate_live h.sound 0 c .collect obj).mpr hlive, hafter⟩, fun hold => ?_⟩
        have hp := (p.grown rfl hold).2
        rw [hbefore] at hp
        cases hp
    · exfalso
      generalize layout (Acid.exec s (.iterate 0 c loop)) = e at hiter hupdate
      cases hiter with
      | collect => exact hcollect rfl
      | merged => exact hupdate rfl hroot
      | recovery xs => exact hupdate rfl hroot
      | rebuild xs => exact hupdate rfl hroot
      | clean => exact hupdate rfl hroot

omit h in
theorem next (hloop : loop ≠ .exit) (hd : (s.safelist (c, loop.list)).data = []) :
    Progress s₀ c loop.next (Acid.exec s (.iterate 0 c loop)) := by
  have heq : Acid.exec s (.iterate 0 c loop) = { s with running := s.running.set 0 (c, loop.next) } := by
    change runIteration s 0 c loop = _
    rcases runIteration_cases s 0 c loop with ⟨hexit, _⟩ | ⟨hexit, _⟩ | ⟨_, _, heq⟩ |
      ⟨_, obj, rest, hcons, _⟩
    · exact absurd hexit hloop
    · exact absurd hexit hloop
    · exact heq
    · rw [hd] at hcons
      cases hcons
  rw [heq]
  exact ⟨p.live, p.confined, fun hr => p.grown (Loop.next_recovering hr), p.joined⟩

end Progress

/-- The collectors with objects after a run of `c` from `s₀`: some have none any more, or there are
no more of them than before, and more objects are phantomized. -/
structure Ran (s₀ : State) (c : ℕ) (s : State) : Prop where
  live : ∀ x, Live s x ↔ Live s₀ x
  active : (∀ a, (layout s).Active a → a ≠ c ∧ (layout s₀).Active a) ∨
    ((ghosts s₀ ⊆ ghosts s ∧ ∃ x ∈ ghosts s, x ∉ ghosts s₀) ∧
      ∃ t, ∀ a, (layout s).Active a → a ≠ c ∧ (a = t ∨ (layout s₀).Active a))

theorem Progress.finish {s₀ s : State} {c : ℕ} (p : Progress s₀ c .exit s)
    (h : Collecting s c .exit) : Ran s₀ c (exec s (.iterate 0 c .exit)) := by
  obtain ⟨hobj, hcount, _⟩ := iterate_same h.sound 0 c (.inl (rfl : Loop.exit = .exit))
  have hdata := h.anySound.data_iterate 0 c (.inl (rfl : Loop.exit = .exit))
  have hactive : ∀ {a}, (layout (exec s (.iterate 0 c .exit))).Active a → (layout s).Active a := by
    rintro a ⟨n, hn⟩
    refine ⟨n, ?_⟩
    change (s.safelist (a, n)).data ≠ []
    rw [← hdata]
    exact hn
  have hne : ∀ {a}, (layout s).Active a → a ≠ c := by
    rintro a ⟨n, hn⟩ rfl
    exact hn (h.staged.nil rfl)
  constructor
  · intro x
    rw [Live, hobj, hcount]
    exact p.live x
  · rw [ghosts_congr hobj hcount]
    by_cases hc : collectorUpdate s c = c
    · left
      intro a ha
      refine ⟨hne (hactive ha), (p.confined a (hactive ha)).resolve_left fun hac => ?_⟩
      exact hne (hactive ha) (hac.trans hc)
    · right
      exact ⟨p.joined hc, _, fun a ha => ⟨hne (hactive ha), p.confined a (hactive ha)⟩⟩

/-- A run that is under way returns to the worker between tasks. -/
theorem runSteps_idle {n : ℕ} {s s' : State} {c : ℕ} {loop : Loop} (h : Collecting s c loop)
    (hr : runSteps n s = some s') : Idle s' ∧ KeepsReachable s s' := by
  induction n generalizing s loop with
  | zero =>
    rw [runSteps, h.running] at hr
    cases hr
  | succ n ih =>
    have hkeeps : KeepsReachable s (runIteration s 0 c loop) := h.keeps
    rw [runSteps_cons n h.running] at hr
    rcases h.step with hidle | ⟨next, hnext⟩
    · rw [runSteps_nil n hidle.running] at hr
      exact Option.some.inj hr ▸ ⟨hidle, hkeeps⟩
    · obtain ⟨hidle, hrest⟩ := ih hnext hr
      exact ⟨hidle, hkeeps.trans hrest⟩

theorem runSteps_ran {n : ℕ} {s₀ s s' : State} {c : ℕ} {loop : Loop} (p : Progress s₀ c loop s)
    (h : Collecting s c loop) (hr : runSteps n s = some s') : Ran s₀ c s' := by
  induction n generalizing s loop with
  | zero =>
    rw [runSteps, h.running] at hr
    cases hr
  | succ n ih =>
    rw [runSteps_cons n h.running] at hr
    by_cases hloop : loop = .exit
    · subst hloop
      have hend : (runIteration s 0 c .exit).running = [] := (h.finish rfl).running
      rw [runSteps_nil n hend] at hr
      exact Option.some.inj hr ▸ p.finish h
    · cases hd : (s.safelist (c, loop.list)).data with
      | nil => exact ih (p.next hloop hd) (h.next hloop hd) hr
      | cons obj rest => exact ih (p.iterate h hloop hd) (h.iterate hloop hd) hr

/-- A run whose lists are empty only makes its exit check. -/
theorem runSteps_spent {n : ℕ} {s s' : State} {c : ℕ} {loop : Loop} (hrun : s.running = [(c, loop)])
    (hempty : ∀ m, (s.safelist (c, m)).data = []) (hr : runSteps n s = some s') :
    s' = runIteration { s with running := [(c, .exit)] } 0 c .exit := by
  induction n generalizing s loop with
  | zero =>
    rw [runSteps, hrun] at hr
    cases hr
  | succ n ih =>
    rw [runSteps_cons n hrun] at hr
    by_cases hloop : loop = .exit
    · subst hloop
      rw [← hrun]
      rcases runIteration_running hrun with ⟨_, hend⟩ | ⟨hne, _⟩ | ⟨hne, _⟩
      · rw [runSteps_nil n hend] at hr
        exact (Option.some.inj hr).symm
      · exact absurd rfl hne
      · exact absurd rfl hne
    · have hnext : runIteration s 0 c loop = { s with running := [(c, loop.next)] } := by
        rcases runIteration_cases s 0 c loop with ⟨hexit, _⟩ | ⟨hexit, _⟩ | ⟨_, _, heq⟩ |
          ⟨_, obj, rest, hcons, _⟩
        · exact absurd hexit hloop
        · exact absurd hexit hloop
        · rw [heq, hrun]
          rfl
        · rw [hempty] at hcons
          cases hcons
      rw [hnext] at hr
      exact ih (s := { s with running := [(c, loop.next)] }) rfl hempty hr

end Acid

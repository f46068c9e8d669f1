import Acid.LayoutStep

set_option autoImplicit false

/-!
# Whose strong and weak counts a step changes

An operation counts for the objects that it names, and for the targets of links that
change their kind. The target of a link that counts has a count, so an object without
one keeps none unless it is named.
-/
namespace Acid

theorem linkPhantomize_count (s : State) (l : ℕ) {y : ℕ}
    (hy : (s.links l).phantomized = true ∨ y ≠ (s.links l).target) :
    ((linkPhantomize s l).objects y).count = (s.objects y).count := by
  unfold linkPhantomize
  dsimp only
  split_ifs with hp
  · rfl
  · have hne := hy.resolve_left hp
    have hmark : ∀ (u : State) (g : Link → Link), (u.modifyLink l g).objects = u.objects :=
      fun _ _ => rfl
    rw [State.check_objects, hmark, (objectMergeCollectors_count _ _ _ y).1, State.check_objects,
      linkDec_count (s.modifyObject (s.links l).target _) l (.inr hne), State.modifyObject_objects_ne _ _ hne]

theorem phantomizeSnapshot_count (obj : ℕ) (s : State) (l : ℕ) {y : ℕ}
    (hy : (s.links l).phantomized = true ∨ y ≠ (s.links l).target) :
    ((phantomizeSnapshot obj s l).objects y).count = (s.objects y).count := by
  unfold phantomizeSnapshot
  dsimp only
  split_ifs
  · rw [State.check_objects]
  · rw [linkPhantomize_count]
    · simp only [State.check_objects]
    · simpa only [State.check_links] using hy

theorem foldl_phantomizeSnapshot_count (obj : ℕ) {ls : List ℕ} (s : State) {y : ℕ}
    (hls : ∀ l ∈ ls, (s.links l).phantomized = true ∨ y ≠ (s.links l).target) :
    ((ls.foldl (phantomizeSnapshot obj) s).objects y).count = (s.objects y).count := by
  induction ls generalizing s with
  | nil => rfl
  | cons l ls ih =>
    rw [List.foldl_cons, ih]
    · exact phantomizeSnapshot_count obj s l (hls l (List.mem_cons_self ..))
    · intro k hk
      rw [phantomizeSnapshot_links]
      split_ifs with hkl
      · exact .inl rfl
      · exact hls k (List.mem_cons_of_mem _ hk)

theorem objectPhantomizeNode_count (s : State) (obj : ℕ) {y : ℕ} (hne : y ≠ obj)
    (hls : ∀ l ∈ (s.objects obj).links.values,
      (s.links l).phantomized = true ∨ y ≠ (s.links l).target) :
    ((objectPhantomizeNode s obj).objects y).count = (s.objects y).count := by
  have hcount := objectUpdateCollector_count s obj y
  have hf := objectUpdateCollector_frame s obj
  have hlinks : ∀ l ∈ ((objectUpdateCollector s obj).objects obj).links.values,
      ((objectUpdateCollector s obj).links l).phantomized = true ∨
        y ≠ ((objectUpdateCollector s obj).links l).target := by
    rw [hf.table, hf.links]
    exact hls
  rw [objectPhantomizeNode_eq]
  dsimp only
  generalize objectUpdateCollector s obj = s1 at *
  have hdec : ((s1.modifyObject obj fun o =>
      { o with count := Function.update o.count o.which (o.count o.which - 1) }).objects y).count =
      (s.objects y).count := by
    rw [State.modifyObject_objects_ne _ _ hne, hcount]
  have htable : ((s1.modifyObject obj fun o =>
      { o with count := Function.update o.count o.which (o.count o.which - 1) }).objects obj).links =
      (s1.objects obj).links := by
    rw [State.modifyObject_objects_self]
  have hlk : (s1.modifyObject obj fun o =>
      { o with count := Function.update o.count o.which (o.count o.which - 1) }).links =
      s1.links := rfl
  generalize s1.modifyObject obj (fun o =>
    { o with count := Function.update o.count o.which (o.count o.which - 1) }) = s2 at *
  have hcheck := s2.check_objects (0 ≤ (s2.objects obj).count (s2.objects obj).which)
    (.assertFailed .phantomizeCount)
  have hchecklinks := s2.check_links (0 ≤ (s2.objects obj).count (s2.objects obj).which)
    (.assertFailed .phantomizeCount)
  generalize s2.check (0 ≤ (s2.objects obj).count (s2.objects obj).which)
    (.assertFailed .phantomizeCount) = s3 at *
  rw [← hcheck] at hdec htable
  rw [← hchecklinks] at hlk
  have ⟨hflip, ⟨b, hrec⟩, _⟩ := phantomizeFlip_spec s3 obj
  split_ifs
  · exact hdec
  · rw [hflip y hne]
    exact hdec
  · have hstart : (phantomizeStart (phantomizeFlip s3 obj) obj).links = s1.links := by
      rw [← hlk, ← phantomizeFlip_links s3 obj]
      simp [phantomizeStart, State.modifyObject]
    rw [objectPhantomizeLinks_eq, State.modifyObject_objects_ne _ _ hne,
      foldl_phantomizeSnapshot_count, phantomizeStart_objects, if_neg hne, hflip y hne]
    · exact hdec
    · rw [hstart, hrec, htable]
      exact hlinks

theorem objectRebuildLink_count_of_ne (c : ℕ) (s : State) (l : ℕ) {y : ℕ}
    (hy : (s.links l).phantomized = true → y ≠ (s.links l).target) :
    ((objectRebuildLink c s l).objects y).count = (s.objects y).count := by
  have hcount : ∀ (u : State) (p : Prop) [Decidable p] (e : Event) (x : ℕ),
      ((rebuildQueue c (u.check p e) x).objects y).count = (u.objects y).count := by
    intro u p _ e x
    unfold rebuildQueue
    split_ifs
    · rw [(safelistAdd_same _ _ _).objects, State.check_objects]
    · rw [State.check_objects]
  have hcol : ∀ (u : State) (x : ℕ),
      ((rebuildCollector u x).objects y).count = (u.objects y).count := by
    intro u x
    unfold rebuildCollector
    split_ifs
    · exact (objectSetCollector_count u x none y).1
    · rfl
  rw [objectRebuildLink_eq]
  dsimp only
  split_ifs with hp
  · rw [hcount]
    change ((rebuildCollector (rebuildCount s l) (s.links l).target).objects y).count = _
    rw [hcol, rebuildCount, State.modifyObject_objects_ne _ _ (hy hp),
      State.modifyObject_objects_ne _ _ (hy hp)]
    rfl
  · rfl

theorem foldl_objectRebuildLink_count_of_ne (c : ℕ) {ls : List ℕ} (s : State) {y : ℕ}
    (hls : ∀ l ∈ ls, (s.links l).phantomized = true → y ≠ (s.links l).target) :
    ((ls.foldl (objectRebuildLink c) s).objects y).count = (s.objects y).count := by
  induction ls generalizing s with
  | nil => rfl
  | cons l ls ih =>
    rw [List.foldl_cons, ih]
    · exact objectRebuildLink_count_of_ne c s l (hls l (List.mem_cons_self ..))
    · intro k hk hp
      rw [objectRebuildLink_links] at hp
      rw [(objectRebuildLink_frame c s l).target]
      split_ifs at hp
      exact hls k (List.mem_cons_of_mem _ hk) hp

theorem objectRecoverNode_count_of_ne (s : State) (obj c : ℕ) {y : ℕ}
    (hls : 0 < (s.objects obj).count (s.objects obj).which →
      ∀ l ∈ (s.objects obj).links.values, (s.links l).phantomized = true → y ≠ (s.links l).target) :
    ((objectRecoverNode s obj c).objects y).count = (s.objects y).count := by
  have hcount := recoverUpdate_count s obj
  have hf := recoverUpdate_frame s obj
  rw [← hcount obj, ← hf.which, ← hf.table, ← hf.links] at hls
  rw [← hcount y, objectRecoverNode_eq]
  dsimp only
  generalize recoverUpdate s obj = s1 at *
  rw [State.check_objects]
  split_ifs with hpos
  · rw [foldl_objectRebuildLink_count_of_ne, recoverStart_objects]
    · split_ifs with hy
      · rw [hy]
      · rfl
    · have hlinks : (recoverStart s1 obj).links = s1.links := by
        simp [recoverStart, State.modifyObject]
      rw [hlinks]
      exact hls hpos
  · rw [State.check_objects]

theorem objectCleanNode_count (s : State) (obj : ℕ) {y : ℕ}
    (hls : ∀ l ∈ (s.objects obj).links.values,
      (s.links l).phantomized = true ∨ y ≠ (s.links l).target) :
    ((objectCleanNode s obj).objects y).count = (s.objects y).count := by
  unfold objectCleanNode
  dsimp only
  rw [objectDecPhantom_count]
  split_ifs
  · rw [State.check_objects, State.check_objects]
  · rw [objectRemoveLinks_count, State.check_objects, State.check_objects]
    simp only [State.check_objects, State.check_links]
    exact hls

theorem objectDel_count (s : State) (obj y : ℕ) :
    ((objectDel s obj).objects y).count = (s.objects y).count := by
  have hcol : ∀ x, ((objectSetCollector (s.emit (.objectDel obj)) obj none).objects x).count =
      (s.objects x).count :=
    fun x => (objectSetCollector_count (s.emit (.objectDel obj)) obj none x).1
  have hstart : ∀ x, ((delStart s obj).objects x).count = (s.objects x).count := by
    intro x
    unfold delStart
    dsimp only
    rw [State.modifyObject_objects, State.check_objects]
    split_ifs with hx
    · rw [hx]
      exact hcol obj
    · exact hcol x
  rw [objectDel_eq, objectFree_objects]
  split_ifs with hy
  · rw [hy]
    exact hstart obj
  · exact hstart y

theorem objectRequestDeleteTaskRun_count (s : State) (obj : ℕ) {y : ℕ}
    (hls : ∀ l ∈ (s.objects obj).links.values,
      (s.links l).phantomized = true ∨ y ≠ (s.links l).target) :
    ((objectRequestDeleteTaskRun s obj).objects y).count = (s.objects y).count := by
  rw [objectRequestDeleteTaskRun, objectDel_count]
  exact objectRemoveLinks_count s obj hls

theorem objectSetReferent_count (s : State) (obj f x : ℕ) {y : ℕ} (hy : y ≠ x) :
    ((objectSetReferent s obj f x).objects y).count = (s.objects y).count := by
  have hadd : ((linkAdded s obj f x).objects y).count = (s.objects y).count := by
    rw [linkAdded_objects]
    split_ifs with hyo
    · rw [hyo]
    · rfl
  have hlink : ∀ (u : State) (l : ℕ) (g : Link → Link), (u.modifyLink l g).objects = u.objects :=
    fun _ _ _ => rfl
  rw [objectSetReferent_eq, objectSetLabel_eq, ← hadd]
  split_ifs
  · dsimp only
    rw [hlink, State.modifyObject_objects_ne _ _ hy, State.check_objects,
      (objectMergeCollectors_count _ obj x y).1]
  · dsimp only
    rw [State.modifyObject_objects_ne _ _ hy, hlink]

/-- The step neither names `y` as a referent nor rebuilds a link to it. -/
def Untouched (s : State) (y : ℕ) : Action → Prop
  | .initStrong _ => y ≠ s.objectCount
  | .incStrong o => y ≠ o
  | .set _ _ r => r ≠ some y
  | .iterate _ c loop => loop = .recovery ∨ loop = .rebuild →
      ∀ obj rest, (s.safelist (c, loop.list)).data = obj :: rest →
        0 < (s.objects obj).count (s.objects obj).which →
        ∀ l ∈ (s.objects obj).links.values, (s.links l).phantomized = true → y ≠ (s.links l).target
  | _ => True

section
variable {s : State} {y : ℕ} (h : Sound s (restLedger False False s))
  (hz : ∀ b, (s.objects y).count b = 0)
include h hz

/-- A link that counts leads to another object. -/
theorem Sound.spared {o l : ℕ} (hl : l ∈ (s.objects o).links.values) :
    (s.links l).phantomized = true ∨ y ≠ (s.links l).target := by
  by_contra hne
  push Not at hne
  obtain ⟨hp, ht⟩ := hne
  have hpos := h.balance.count_pos_of_link (h.mem_tableLinks.mpr ⟨o, hl⟩) (by simpa using hp)
  rw [← ht, hz] at hpos
  exact lt_irrefl _ hpos

theorem loopBody_zero {c obj : ℕ} {loop : Loop} {rest : List ℕ} (i : ℕ) (hloop : loop ≠ .exit)
    (hd : (s.safelist (c, loop.list)).data = obj :: rest)
    (hy : Untouched s y (.iterate i c loop)) :
    ((loopBody (afterPoll s c loop obj) c loop obj).objects y).count = (s.objects y).count := by
  have hadd : ∀ (u : State) r o, (safelistAdd u r o).objects = u.objects :=
    fun u r o => (safelistAdd_same u r o).objects
  have hobj := afterPoll_objects s c loop obj
  have hlinks := (afterPoll_frame s c loop obj).links
  generalize afterPoll s c loop obj = u at *
  have hspare : ∀ l ∈ (u.objects obj).links.values,
      (u.links l).phantomized = true ∨ y ≠ (u.links l).target := by
    rw [hobj, hlinks]
    exact fun l hl => h.spared hz hl
  have hrecover : loop = .recovery ∨ loop = .rebuild →
      ((objectRecoverNode u obj c).objects y).count = (s.objects y).count := by
    intro hl
    rw [objectRecoverNode_count_of_ne, hobj]
    rw [hobj, hlinks]
    exact hy hl obj rest hd
  cases loop with
  | merged =>
    unfold loopBody
    dsimp only
    rw [hadd, hobj]
  | collect =>
    unfold loopBody
    dsimp only
    have hne : y ≠ obj := by
      rintro rfl
      have hmem : y ∈ (s.safelist (c, .collect)).data := by
        rw [show (s.safelist (c, .collect)).data = y :: rest from hd]
        exact List.mem_cons_self ..
      have hocc := occurrences_pos (h.collectors.root_of_mem hmem).2.1 hmem
      have hcount := h.balance.count y (s.objects y).which
      have hrefs : 0 ≤ strongRefs s (tableLinks s) y (s.objects y).which := Tally.tally_nonneg _ _
      rw [hz] at hcount
      simp [restLedger, sideRefs] at hcount
      omega
    rw [hadd, objectPhantomizeNode_count u obj hne hspare, hobj]
  | recovery =>
    unfold loopBody
    dsimp only
    rw [hadd]
    exact hrecover (.inl rfl)
  | rebuild => exact hrecover (.inr rfl)
  | clean =>
    unfold loopBody
    dsimp only
    rw [objectCleanNode_count u obj hspare, hobj]
  | exit => exact absurd rfl hloop

/-- An object without strong and weak references gets none from a step that does not touch it. -/
theorem exec_count {a : Action} (he : Enabled s a) (hy : Untouched s y a) :
    ((exec s a).objects y).count = (s.objects y).count := by
  cases a with
  | initStrong d =>
    have hne : y ≠ s.objectCount := hy
    simp [exec, State.addClaim, objectInitStrong, objectIncStrong, objectInit,
      State.modifyObject, Function.update_of_ne hne]
  | incStrong o =>
    have hne : y ≠ o := hy
    simp [exec, State.addClaim, objectIncStrong, State.modifyObject, Function.update_of_ne hne]
  | decStrong o =>
    have hne : y ≠ o := by
      rintro rfl
      exact (h.balance.count_pos_of_claim he).ne' (hz _)
    exact objectDec_count (s.dropClaim o) o _ hne
  | set o f r =>
    have hold : ∀ l, (s.objects o).links.get f = some l →
        (s.links l).phantomized = true ∨ y ≠ (s.links l).target := fun l hget =>
      h.spared hz (((s.objects o).links.mem_values l).mpr
        ⟨f, ((s.objects o).links.get_eq_some f l).mp hget⟩)
    change ((objectSet s o f r).objects y).count = _
    unfold objectSet
    dsimp only
    cases r with
    | none =>
      have hremove : ((s.modifyObject o fun a => { a with links := a.links.remove f }).objects
          y).count = (s.objects y).count := by
        rw [State.modifyObject_objects]
        split_ifs with hyo
        · rw [hyo]
        · rfl
      cases hget : (s.objects o).links.get f with
      | none => exact hremove
      | some l =>
        exact (linkDec_count (s.modifyObject o _) l (hold l hget)).trans hremove
    | some x =>
      have hne : y ≠ x := fun e => hy (congrArg some e.symm)
      cases hget : (s.objects o).links.get f with
      | none => exact objectSetReferent_count s o f x hne
      | some l =>
        dsimp only
        split_ifs
        · rfl
        · have hlt : l ≠ s.linkCount :=
            Nat.ne_of_lt (h.tables.owned (((s.objects o).links.mem_values l).mpr
              ⟨f, ((s.objects o).links.get_eq_some f l).mp hget⟩)).1
          rw [linkDec_count, objectSetReferent_count s o f x hne]
          rw [objectSetReferent_links s o f x hlt]
          exact hold l hget
  | enter i c =>
    unfold exec collectorEnter
    dsimp only
    split_ifs <;> rfl
  | iterate i c loop =>
    change ((runIteration s i c loop).objects y).count = _
    rcases runIteration_cases s i c loop with ⟨_, _, heq⟩ | ⟨_, _, heq⟩ | ⟨_, _, heq⟩ |
      ⟨hloop, obj, rest, hd, heq⟩
    · rw [heq]
      change ((retire s c).objects y).count = _
      rw [h.collectors.retire_eq]
    · rw [heq]
    · rw [heq]
    · rw [heq]
      exact loopBody_zero h hz i hloop hd hy
  | delete i o =>
    exact objectRequestDeleteTaskRun_count { s with work := s.work.eraseIdx i } o
      fun l hl => h.spared hz hl

end
end Acid

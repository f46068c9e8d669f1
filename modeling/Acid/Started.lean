import Acid.SoundRemoval

set_option autoImplicit false

/-!
# The record of the started runs

No operation reads or changes which runs of `collector_run` have started.
-/
namespace Acid

def State.started (s : State) (r : List (ℕ × Loop)) : State := { s with running := r }

variable (s : State) (r : List (ℕ × Loop))

theorem State.started_objects : (s.started r).objects = s.objects := by
  cases s
  rfl

theorem State.started_links : (s.started r).links = s.links := by
  cases s
  rfl

theorem State.started_forward : (s.started r).forward = s.forward := by
  cases s
  rfl

theorem State.modifyObject_started (x : ℕ) (f : Object → Object) :
    (s.started r).modifyObject x f = (s.modifyObject x f).started r := by
  cases s
  rfl

theorem State.modifyLink_started (l : ℕ) (f : Link → Link) :
    (s.started r).modifyLink l f = (s.modifyLink l f).started r := by
  cases s
  rfl

theorem State.emit_started (e : Event) : (s.started r).emit e = (s.emit e).started r := by
  cases s
  rfl

theorem State.check_started (p : Prop) [Decidable p] (e : Event) :
    (s.started r).check p e = (s.check p e).started r := by
  unfold State.check
  split_ifs <;> rfl

theorem counterDecRef_started (c : ℕ) :
    counterDecRef (s.started r) c = (counterDecRef s c).started r := by
  unfold counterDecRef
  rw [State.check_started]
  rfl

theorem counterDecStore_started (c : ℕ) :
    counterDecStore (s.started r) c = (counterDecStore s c).started r := by
  unfold counterDecStore
  rw [State.check_started]
  rfl

theorem safelistAdd_started (q : ListRef) (x : ℕ) :
    safelistAdd (s.started r) q x = (safelistAdd s q x).started r := by
  have hforward : (s.started r).listForward q = s.listForward q := rfl
  unfold safelistAdd
  rw [hforward]
  cases s.listForward q <;> rfl

theorem safelistPoll_started (q : ListRef) :
    safelistPoll (s.started r) q = ((safelistPoll s q).1.started r, (safelistPoll s q).2) := by
  cases hd : (s.safelist q).data with
  | nil =>
    rw [safelistPoll_nil hd, safelistPoll_nil (show ((s.started r).safelist q).data = [] from hd)]
  | cons x xs =>
    rw [safelistPoll_cons hd,
      safelistPoll_cons (show ((s.started r).safelist q).data = x :: xs from hd),
      counterDecStore_started]
    rfl

theorem safelistDrain_started (dest q : ListRef) (n : ℕ) :
    ∀ s : State, safelistDrain dest q n (s.started r) = (safelistDrain dest q n s).started r := by
  induction n with
  | zero => exact fun _ => rfl
  | succ n ih =>
    intro s
    rw [safelistDrain, safelistDrain, safelistPoll_started]
    obtain ⟨s1, _ | o⟩ := safelistPoll s q
    · rfl
    · dsimp only
      rw [safelistAdd_started, ih]

theorem safelistForward_started (q dest : ListRef) :
    safelistForward (s.started r) q dest = (safelistForward s q dest).started r := by
  unfold safelistForward
  change (safelistDrain dest q (s.safelist q).data.length (s.started r)).modifySafelist q _ = _
  rw [safelistDrain_started]
  rfl

theorem counterRepoint_started (old new : Option ℕ) :
    counterRepoint (s.started r) old new = (counterRepoint s old new).started r := by
  cases new with
  | none =>
    cases old with
    | none => rfl
    | some d => exact counterDecRef_started s r d
  | some c =>
    cases old with
    | none => rfl
    | some d => exact counterDecRef_started (counterIncRef s c) r d

theorem objectSetCollector_started (x : ℕ) (c : Option ℕ) :
    objectSetCollector (s.started r) x c = (objectSetCollector s x c).started r := by
  unfold objectSetCollector
  change (if (s.objects x).collector = c then _ else
    (counterRepoint (s.started r) (s.objects x).collector c).modifyObject x _) = _
  rw [counterRepoint_started]
  split_ifs <;> rfl

theorem collectorSetForward_started (c : ℕ) (f : Option ℕ) :
    collectorSetForward (s.started r) c f = (collectorSetForward s c f).started r := by
  unfold collectorSetForward
  change (if f = s.forward c then _ else
    (counterRepoint (s.started r) (s.forward c) f).modifyCollector c _) = _
  rw [counterRepoint_started]
  split_ifs <;> rfl

theorem collectorTerminate_started (c : ℕ) :
    collectorTerminate (s.started r) c = (collectorTerminate s c).started r :=
  collectorSetForward_started s r c none

theorem collectorMerge_started (t c : ℕ) :
    collectorMerge (s.started r) t c = (collectorMerge s t c).started r := by
  unfold collectorMerge collectorForwardSafelistsTo
  simp only [safelistForward_started, collectorSetForward_started]

theorem collectorEquals_started (c1 c2 : Option ℕ) :
    collectorEquals (s.started r) c1 c2 = collectorEquals s c1 c2 := by
  have hloop : ∀ (n : ℕ) (a b : Option ℕ),
      collectorEqualsLoop (s.started r) n a b = collectorEqualsLoop s n a b := by
    intro n
    induction n with
    | zero => exact fun _ _ => rfl
    | succ n ih =>
      intro a b
      rw [collectorEqualsLoop, collectorEqualsLoop]
      simp only [ih]
      rfl
  exact hloop _ c1 c2

theorem collectorAddObject_started (c x : ℕ) :
    collectorAddObject (s.started r) c x = (collectorAddObject s c x).started r := by
  unfold collectorAddObject
  dsimp only
  rw [← objectSetCollector_started, ← safelistAdd_started]
  rfl

theorem objectEnsureCollector_started (x : ℕ) :
    objectEnsureCollector (s.started r) x = (objectEnsureCollector s x).started r := by
  unfold objectEnsureCollector
  rw [State.started_objects]
  cases (s.objects x).collector with
  | some c => rfl
  | none =>
    change (objectSetCollector ((collectorCreate s).1.started r) x _).addTask _ = _
    rw [objectSetCollector_started]
    rfl

theorem objectRequestDelete_started (x : ℕ) :
    objectRequestDelete (s.started r) x = (objectRequestDelete s x).started r := by
  cases s
  rfl

theorem objectDec_started (x : ℕ) (w : Bool) :
    objectDec (s.started r) x w = (objectDec s x w).started r := by
  unfold objectDec
  simp only [State.modifyObject_started, State.check_started, State.started_objects,
    objectEnsureCollector_started, objectRequestDelete_started]
  split_ifs
  · rfl
  · split
    · exact collectorAddObject_started _ r _ x
    · rfl
  · rfl

theorem objectDecPhantom_started (x : ℕ) :
    objectDecPhantom (s.started r) x = (objectDecPhantom s x).started r := by
  unfold objectDecPhantom
  simp only [State.modifyObject_started, State.check_started, State.started_objects,
    objectSetCollector_started, objectRequestDelete_started]
  split_ifs <;> rfl

theorem linkDec_started (l : ℕ) : linkDec (s.started r) l = (linkDec s l).started r := by
  unfold linkDec
  simp only [State.started_links, objectDec_started, objectDecPhantom_started]
  split_ifs <;> rfl

theorem linkDestroy_started (l : ℕ) : linkDestroy (s.started r) l = (linkDestroy s l).started r := by
  unfold linkDestroy
  rw [linkDec_started]
  rfl

theorem mergeLoop_started (obj target n : ℕ) : ∀ t c : ℕ,
    mergeLoop obj target n (s.started r) t c =
      ((mergeLoop obj target n s t c).1.started r, (mergeLoop obj target n s t c).2) := by
  induction n with
  | zero => exact fun _ _ => rfl
  | succ n ih =>
    intro t c
    rw [mergeLoop, mergeLoop]
    simp only [State.started_forward, ih, objectSetCollector_started, collectorMerge_started,
      State.check_started]
    split_ifs
    · rfl
    · rfl
    all_goals cases s.forward t <;> cases s.forward c <;> rfl

theorem objectMergeCollectors_started (obj target : ℕ) :
    objectMergeCollectors (s.started r) obj target =
      ((objectMergeCollectors s obj target).1.started r, (objectMergeCollectors s obj target).2) := by
  unfold objectMergeCollectors
  simp only [State.started_objects, objectSetCollector_started]
  cases (s.objects obj).collector with
  | none => cases (s.objects target).collector <;> rfl
  | some c =>
    cases (s.objects target).collector with
    | none => rfl
    | some t =>
      dsimp only
      split_ifs
      · rfl
      · exact mergeLoop_started s r obj target _ t c

theorem linkPhantomize_started (l : ℕ) :
    linkPhantomize (s.started r) l = (linkPhantomize s l).started r := by
  unfold linkPhantomize
  simp only [State.started_links, State.modifyObject_started, linkDec_started, State.started_objects,
    State.check_started, objectMergeCollectors_started, State.modifyLink_started,
    collectorEquals_started]
  split_ifs <;> rfl

theorem phantomizeSnapshot_started (obj l : ℕ) :
    phantomizeSnapshot obj (s.started r) l = (phantomizeSnapshot obj s l).started r := by
  unfold phantomizeSnapshot
  simp only [State.check_started, State.started_links, State.started_objects, linkPhantomize_started]
  split_ifs <;> rfl

/-- A loop over a snapshot. -/
theorem foldl_started {α : Type} {f : State → α → State}
    (hf : ∀ (u : State) (x : α), f (u.started r) x = (f u x).started r) (xs : List α) :
    ∀ s : State, xs.foldl f (s.started r) = (xs.foldl f s).started r := by
  induction xs with
  | nil => exact fun _ => rfl
  | cons x xs ih =>
    intro s
    rw [List.foldl_cons, List.foldl_cons, hf, ih]

theorem objectUpdateCollector_started (x : ℕ) :
    objectUpdateCollector (s.started r) x = (objectUpdateCollector s x).started r := by
  unfold objectUpdateCollector
  simp only [State.started_objects, objectSetCollector_started]
  split <;> rfl

theorem objectPhantomizeNode_started (x : ℕ) :
    objectPhantomizeNode (s.started r) x = (objectPhantomizeNode s x).started r := by
  have hlinks : ∀ u : State,
      objectPhantomizeLinks (u.started r) x = (objectPhantomizeLinks u x).started r := by
    intro u
    unfold objectPhantomizeLinks
    simp only [State.modifyObject_started, State.check_started, State.started_objects,
      foldl_started r fun v l => phantomizeSnapshot_started v r x l]
  have hflip : ∀ u : State, phantomizeFlip (u.started r) x = (phantomizeFlip u x).started r := by
    intro u
    unfold phantomizeFlip
    simp only [State.modifyObject_started, State.started_objects]
    split_ifs <;> rfl
  rw [objectPhantomizeNode_eq, objectPhantomizeNode_eq]
  simp only [objectUpdateCollector_started, State.modifyObject_started, State.check_started,
    State.started_objects, hflip, hlinks]
  split_ifs <;> rfl

theorem objectRebuildLink_started (c l : ℕ) :
    objectRebuildLink c (s.started r) l = (objectRebuildLink c s l).started r := by
  have hcount : rebuildCount (s.started r) l = (rebuildCount s l).started r := rfl
  have hcollector : ∀ (u : State) (x : ℕ),
      rebuildCollector (u.started r) x = (rebuildCollector u x).started r := by
    intro u x
    unfold rebuildCollector
    rw [objectSetCollector_started]
    simp only [State.started_objects]
    split_ifs <;> rfl
  have hqueue : ∀ (u : State) (x : ℕ),
      rebuildQueue c (u.started r) x = (rebuildQueue c u x).started r := by
    intro u x
    unfold rebuildQueue
    rw [safelistAdd_started]
    simp only [State.started_objects]
    split_ifs <;> rfl
  rw [objectRebuildLink_eq, objectRebuildLink_eq]
  simp only [hcount, hcollector, hqueue, State.started_links, State.started_objects,
    State.modifyLink_started, State.check_started]
  split_ifs <;> rfl

theorem objectRecoverNode_started (x c : ℕ) :
    objectRecoverNode (s.started r) x c = (objectRecoverNode s x c).started r := by
  have hupdate : recoverUpdate (s.started r) x = (recoverUpdate s x).started r := by
    unfold recoverUpdate
    simp only [State.started_objects, objectUpdateCollector_started]
    split_ifs <;> rfl
  have hstart : ∀ u : State, recoverStart (u.started r) x = (recoverStart u x).started r := by
    intro u
    unfold recoverStart
    simp only [State.started_objects, State.check_started, State.modifyObject_started]
  rw [objectRecoverNode_eq, objectRecoverNode_eq]
  simp only [hupdate, hstart, State.started_objects, State.check_started,
    foldl_started r fun v l => objectRebuildLink_started v r c l]
  split_ifs <;> simp only [State.started_objects, State.check_started]

theorem objectRemoveLinks_started (x : ℕ) :
    objectRemoveLinks (s.started r) x = (objectRemoveLinks s x).started r := by
  have hstart : removeStart (s.started r) x = (removeStart s x).started r := by
    unfold removeStart
    simp only [State.emit_started, State.modifyObject_started, State.check_started,
      State.started_objects]
  rw [objectRemoveLinks_eq, objectRemoveLinks_eq, hstart, State.started_objects]
  exact foldl_started r (fun v l => linkDestroy_started v r l) _ _

theorem objectCleanNode_started (x : ℕ) :
    objectCleanNode (s.started r) x = (objectCleanNode s x).started r := by
  unfold objectCleanNode
  simp only [State.check_started, State.started_objects, objectRemoveLinks_started]
  split_ifs <;> exact objectDecPhantom_started _ r x

theorem loopBody_started (c : ℕ) (loop : Loop) (x : ℕ) :
    loopBody (s.started r) c loop x = (loopBody s c loop x).started r := by
  cases loop with
  | merged => exact safelistAdd_started s r _ x
  | collect =>
    change safelistAdd (objectPhantomizeNode (s.started r) x) _ x = _
    rw [objectPhantomizeNode_started, safelistAdd_started]
    rfl
  | recovery =>
    change safelistAdd (objectRecoverNode (s.started r) x c) _ x = _
    rw [objectRecoverNode_started, safelistAdd_started]
    rfl
  | rebuild => exact objectRecoverNode_started s r x c
  | clean => exact objectCleanNode_started s r x
  | exit => rfl

theorem collectorExit_started (c : ℕ) :
    collectorExit (s.started r) c = ((collectorExit s c).1.started r, (collectorExit s c).2) := by
  have hdone : counterDone (s.started r) c = counterDone s c := rfl
  unfold collectorExit
  rw [hdone, collectorTerminate_started]
  split_ifs <;> rfl

end Acid

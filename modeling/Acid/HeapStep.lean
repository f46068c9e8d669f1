import Acid.SoundRun

set_option autoImplicit false

/-!
# What a step does to the object graph

Counts, collectors and lists aside, a step does one of eight things to the tables
and to the flags of objects and links.
-/
namespace Acid

/-- Two states that agree on the objects, but for counts and collector pointers. -/
structure SameHeap (s s' : State) : Prop where
  shape : ∀ o, (s'.objects o).shape = (s.objects o).shape
  objectCount : s'.objectCount = s.objectCount
  linkCount : s'.linkCount = s.linkCount

theorem LinkFrame.heap {s s' : State} (h : LinkFrame s s') : SameHeap s s' :=
  ⟨h.shape, h.objectCount, h.linkCount⟩

namespace SameHeap

theorem trans {s s' s'' : State} (h : SameHeap s s') (h' : SameHeap s' s'') : SameHeap s s'' :=
  ⟨fun o => (h'.shape o).trans (h.shape o), h'.objectCount.trans h.objectCount,
    h'.linkCount.trans h.linkCount⟩

variable {s s' : State} (h : SameHeap s s')
include h

theorem which (o : ℕ) : (s'.objects o).which = (s.objects o).which :=
  show (s'.objects o).shape.which = (s.objects o).shape.which by rw [h.shape o]

theorem phantomized (o : ℕ) : (s'.objects o).phantomized = (s.objects o).phantomized :=
  show (s'.objects o).shape.phantomized = (s.objects o).shape.phantomized by rw [h.shape o]

theorem table (o : ℕ) : (s'.objects o).links = (s.objects o).links :=
  show (s'.objects o).shape.links = (s.objects o).shape.links by rw [h.shape o]

theorem complete (o : ℕ) :
    (s'.objects o).phantomizationComplete = (s.objects o).phantomizationComplete :=
  show (s'.objects o).shape.phantomizationComplete = (s.objects o).shape.phantomizationComplete by rw [h.shape o]

theorem freed (o : ℕ) : (s'.objects o).freed = (s.objects o).freed :=
  show (s'.objects o).shape.freed = (s.objects o).shape.freed by rw [h.shape o]

end SameHeap

/-- The heap after `object_init`. -/
def initHeap (s : State) (d : Bool) : State :=
  { s with
    objects := Function.update s.objects s.objectCount { dtor := d }
    objectCount := s.objectCount + 1 }

/-- The link records that the table links of an object leave behind. -/
def freedLinks (s : State) (obj k : ℕ) : Link :=
  if k ∈ (s.objects obj).links.values then { s.links k with freed := true } else s.links k

theorem emptyRecord_values (o : Object) : (emptyRecord o).links.values = [] := by
  simp [emptyRecord, HashTable.values]

theorem deletedRecord_values (o : Object) : (deletedRecord o).links.values = [] := by
  simp [deletedRecord, disownRecord, HashTable.values]

/-- The lists hold the link records that the step frees, and those that it takes out of a
table without freeing them. -/
inductive HeapStep (s s' : State) : List ℕ → List ℕ → Prop where
  | quiet (heap : SameHeap s s') (links : s'.links = s.links) : HeapStep s s' [] []
  | init (d : Bool) (heap : SameHeap (initHeap s d) s') (links : s'.links = s.links) :
      HeapStep s s' [] []
  | clear (obj f : ℕ)
      (heap : SameHeap (s.modifyObject obj fun o => { o with links := o.links.remove f }) s')
      (links : s'.links = s.links) : HeapStep s s' [] ((s.objects obj).links.get f).toList
  | link (obj f x : ℕ) (live : Live s obj) (named : Reachable s obj ∧ Reachable s x)
      (anew : ∀ l, (s.objects obj).links.get f = some l → (s.links l).target ≠ x)
      (heap : SameHeap (linkAdded s obj f x) s')
      (links : ∀ k, s'.links k = if k = s.linkCount then newLink s obj x else s.links k) :
      HeapStep s s' [] ((s.objects obj).links.get f).toList
  | phantomize (obj : ℕ)
      (heap : SameHeap (s.modifyObject obj (phantomizeRecord (phantomizeWhich s obj))) s')
      (links : ∀ k, s'.links k =
        if (s.objects obj).phantomized = false ∧ k ∈ (s.objects obj).links.values then
          { s.links k with phantomized := true } else s.links k) : HeapStep s s' [] []
  | recover (obj : ℕ) (strong : 0 < (s.objects obj).count (s.objects obj).which)
      (heap : SameHeap (s.modifyObject obj recoverRecord) s')
      (links : ∀ k, s'.links k =
        if k ∈ (s.objects obj).links.values ∧ (s.links k).phantomized = true then
          { s.links k with
            which := rebuildWhich (s.modifyObject obj recoverRecord) k, phantomized := false }
        else s.links k) : HeapStep s s' [] []
  | empty (obj : ℕ) (heap : SameHeap (s.modifyObject obj emptyRecord) s')
      (links : ∀ k, s'.links k = freedLinks s obj k) :
      HeapStep s s' (s.objects obj).links.values []
  | delete (obj : ℕ) (heap : SameHeap (s.modifyObject obj deletedRecord) s')
      (links : ∀ k, s'.links k = freedLinks s obj k) :
      HeapStep s s' (s.objects obj).links.values []

/-- The link records that a step frees. -/
def freedBy (s : State) : Action → List ℕ
  | .iterate _ c .clean =>
    match (s.safelist (c, .clean)).data with
    | [] => []
    | obj :: _ =>
      if (s.objects obj).count false = 0 ∧ (s.objects obj).count true = 0 then
        (s.objects obj).links.values
      else []
  | .delete _ o => (s.objects o).links.values
  | _ => []

/-- The link record that an `object_set` takes out of its table. -/
def lostBy (s : State) : Action → List ℕ
  | .set o f r => ((s.objects o).links.get f).toList.filter fun l => r ≠ some (s.links l).target
  | _ => []

theorem Frame.quiet {s s' : State} (h : Frame s s') : HeapStep s s' [] [] :=
  .quiet h.link.heap h.links

namespace HeapStep
variable {s u s' u' : State} {ls ms : List ℕ}

theorem after (h : HeapStep s s' ls ms) (hs : SameHeap s' u') (hl : u'.links = s'.links) :
    HeapStep s u' ls ms := by
  cases h with
  | quiet heap links => exact .quiet (heap.trans hs) (hl.trans links)
  | init d heap links => exact .init d (heap.trans hs) (hl.trans links)
  | clear obj f heap links => exact .clear obj f (heap.trans hs) (hl.trans links)
  | link obj f x live named anew heap links =>
    exact .link obj f x live named anew (heap.trans hs) fun k => (congrFun hl k).trans (links k)
  | phantomize obj heap links =>
    exact .phantomize obj (heap.trans hs) fun k => (congrFun hl k).trans (links k)
  | recover obj strong heap links =>
    exact .recover obj strong (heap.trans hs) fun k => (congrFun hl k).trans (links k)
  | empty obj heap links => exact .empty obj (heap.trans hs) fun k => (congrFun hl k).trans (links k)
  | delete obj heap links =>
    exact .delete obj (heap.trans hs) fun k => (congrFun hl k).trans (links k)

section
variable (hobj : u.objects = s.objects) (ho : u.objectCount = s.objectCount)
  (hl : u.links = s.links) (hn : u.linkCount = s.linkCount)
  (hr : ∀ x, Reachable u x → Reachable s x)
include hobj ho hl hn hr

/-- Before a step only the objects and the links matter, and what mutators reach. -/
theorem before (h : HeapStep u s' ls ms) : HeapStep s s' ls ms := by
  have hsame : SameHeap s u := ⟨fun o => by rw [hobj], ho, hn⟩
  have hmod : ∀ o f, SameHeap (s.modifyObject o f) (u.modifyObject o f) := by
    intro o f
    refine ⟨fun x => ?_, ho, hn⟩
    rw [State.modifyObject_objects, State.modifyObject_objects, hobj]
  cases h with
  | quiet heap links => exact .quiet (hsame.trans heap) (links.trans hl)
  | init d heap links =>
    have hinit : SameHeap (initHeap s d) (initHeap u d) := by
      refine ⟨fun x => ?_, congrArg (· + 1) ho, hn⟩
      simp only [initHeap, hobj, ho]
    exact .init d (hinit.trans heap) (links.trans hl)
  | clear obj f heap links =>
    rw [hobj]
    exact .clear obj f ((hmod _ _).trans heap) (links.trans hl)
  | link obj f x live named anew heap links =>
    have hadd : SameHeap (linkAdded s obj f x) (linkAdded u obj f x) := by
      refine ⟨fun y => ?_, ho, congrArg (· + 1) hn⟩
      rw [linkAdded_objects, linkAdded_objects, hobj, hn]
    rw [hobj]
    refine .link obj f x ?_ ⟨hr _ named.1, hr _ named.2⟩ ?_ (hadd.trans heap) fun k => ?_
    · rw [Live, ← hobj, ← ho]
      exact live
    · rw [← hobj, ← hl]
      exact anew
    · rw [links, hn, hl, newLink, newLink, setWhich, setWhich, hobj]
  | phantomize obj heap links =>
    have hw : phantomizeWhich u obj = phantomizeWhich s obj := by
      rw [phantomizeWhich, phantomizeWhich, hobj]
    rw [hw] at heap
    refine .phantomize obj ((hmod _ _).trans heap) fun k => ?_
    rw [links, hobj, hl]
  | recover obj strong heap links =>
    refine .recover obj (by rwa [← hobj]) ((hmod _ _).trans heap) fun k => ?_
    have hw : rebuildWhich (u.modifyObject obj recoverRecord) k =
        rebuildWhich (s.modifyObject obj recoverRecord) k := by
      unfold rebuildWhich
      dsimp only [State.modifyObject]
      rw [hobj, hl]
    rw [links, hw, hobj, hl]
  | empty obj heap links =>
    rw [hobj]
    refine .empty obj ((hmod _ _).trans heap) fun k => ?_
    rw [links, freedLinks, freedLinks, hobj, hl]
  | delete obj heap links =>
    rw [hobj]
    refine .delete obj ((hmod _ _).trans heap) fun k => ?_
    rw [links, freedLinks, freedLinks, hobj, hl]

end
end HeapStep

theorem loopBody_heapStep (s : State) (c : ℕ) {loop : Loop} (hloop : loop ≠ .exit) (obj : ℕ) :
    HeapStep s (loopBody s c loop obj)
      (if loop = .clean ∧ (s.objects obj).count false = 0 ∧ (s.objects obj).count true = 0 then
        (s.objects obj).links.values else []) [] := by
  have hadd := fun (u : State) r => safelistAdd_frame u r obj
  have hrec : HeapStep s (objectRecoverNode s obj c) [] [] := by
    rcases objectRecoverNode_cases s obj c with ⟨_, hf⟩ | ⟨hpos, hf, _, hold, hnew⟩
    · exact hf.quiet
    · refine .recover obj hpos hf.heap fun k => ?_
      split_ifs with hk
      · exact hnew k hk.1 hk.2
      · rw [not_and_or] at hk
        exact hold k (hk.imp id fun hp => by simpa using hp)
  cases loop with
  | merged => exact (hadd s _).quiet
  | collect =>
    have hph : HeapStep s (objectPhantomizeNode s obj) [] [] := by
      rcases objectPhantomizeNode_cases s obj with ⟨_, hf⟩ | ⟨_, hf, hlinks⟩
      · exact hf.quiet
      · exact .phantomize obj hf.heap hlinks
    exact hph.after (hadd _ _).link.heap (hadd _ _).links
  | recovery => exact hrec.after (hadd _ _).link.heap (hadd _ _).links
  | rebuild => exact hrec
  | clean =>
    rcases objectCleanNode_cases s obj with ⟨⟨b, hb⟩, hf⟩ | ⟨hz, hf, hlinks⟩
    · rw [if_neg]
      · exact hf.quiet
      · rintro ⟨_, h1, h2⟩
        cases b
        · exact hb h1
        · exact hb h2
    · rw [if_pos ⟨rfl, hz _, hz _⟩]
      exact .empty obj hf.heap hlinks
  | exit => exact absurd rfl hloop

theorem exec_heapStep {s : State} {a : Action} {L : Ledger} (h : Sound s L)
    (hL : L.refs = tableLinks s) (he : Enabled s a) :
    HeapStep s (exec s a) (freedBy s a) (lostBy s a) := by
  cases a with
  | initStrong d =>
    refine .init d ⟨fun x => ?_, rfl, rfl⟩ rfl
    by_cases hx : x = s.objectCount
    · subst x
      simp [exec, State.addClaim, objectInitStrong, objectIncStrong, objectInit,
        State.modifyObject, initHeap, Object.shape]
    · simp [exec, State.addClaim, objectInitStrong, objectIncStrong, objectInit,
        State.modifyObject, initHeap, Function.update_of_ne hx]
  | incStrong o =>
    have hf := modifyObject_frame s o (f := fun o =>
      { o with count := Function.update o.count o.which (o.count o.which + 1) }) rfl
    exact hf.quiet.after ⟨fun _ => rfl, rfl, rfl⟩ rfl
  | decStrong o =>
    have hf := objectDec_frame (s.dropClaim o) o ((s.dropClaim o).objects o).which
    refine HeapStep.before (u := s.dropClaim o) rfl rfl rfl rfl ?_ hf.quiet
    rintro x ⟨r, hr, hpath⟩
    refine ⟨r, lt_of_lt_of_le hr ?_, hpath⟩
    unfold State.dropClaim
    dsimp only
    rw [Function.update_apply]
    split_ifs with hro
    · rw [hro]
      exact Nat.sub_le _ _
    · exact le_refl _
  | set o f r =>
    have ho : Live s o := by
      cases r with
      | none => exact h.live_of_inUse (h.inUse_of_reachable hL he)
      | some x => exact h.live_of_inUse (h.inUse_of_reachable hL he.1)
    change HeapStep s (objectSet s o f r) [] (lostBy s (.set o f r))
    rcases objectSet_cases s o f r with ⟨rfl, hf, hl⟩ | ⟨heq, l, hget, rfl⟩ |
      ⟨x, rfl, hf, hanew, hl⟩
    · have hlost : lostBy s (.set o f none) = ((s.objects o).links.get f).toList := by
        simp [lostBy]
      rw [hlost]
      exact .clear o f hf.heap hl
    · rw [heq]
      have hlost : lostBy s (.set o f (some (s.links l).target)) = [] := by
        simp [lostBy, hget]
      rw [hlost]
      exact (Frame.refl s).quiet
    · have hlost : lostBy s (.set o f (some x)) = ((s.objects o).links.get f).toList := by
        refine List.filter_eq_self.mpr fun l hl => ?_
        have hne := hanew l (by simpa using hl)
        simpa using Ne.symm hne
      rw [hlost]
      exact .link o f x ho he hanew hf.heap hl
  | enter i c =>
    change HeapStep s (collectorEnter s i c) [] []
    unfold collectorEnter
    dsimp only
    split_ifs
    · exact .quiet ⟨fun _ => rfl, rfl, rfl⟩ rfl
    · exact .quiet ⟨fun _ => rfl, rfl, rfl⟩ rfl
  | iterate i c loop =>
    have hexec : exec s (.iterate i c loop) = runIteration s i c loop := rfl
    rw [hexec]
    rcases runIteration_cases s i c loop with ⟨rfl, _, heq⟩ | ⟨rfl, _, heq⟩ | ⟨_, hd, heq⟩ |
      ⟨hloop, obj, rest, hd, heq⟩
    · rw [heq]
      have hf : Frame s (collectorDestroy (collectorTerminate s c) c) :=
        ((collectorSetForward_frame s c none).trans (modifyCollector_frame _ c _)).trans
          (emit_frame _ _)
      exact hf.quiet.after ⟨fun _ => rfl, rfl, rfl⟩ rfl
    · rw [heq]
      exact .quiet ⟨fun _ => rfl, rfl, rfl⟩ rfl
    · rw [heq]
      have hfree : freedBy s (.iterate i c loop) = [] := by
        cases loop <;> simp_all [freedBy, Loop.list]
      rw [hfree]
      exact .quiet ⟨fun _ => rfl, rfl, rfl⟩ rfl
    · rw [heq]
      have hobj := afterPoll_objects s c loop obj
      have hf := afterPoll_frame s c loop obj
      have hbody := (loopBody_heapStep (afterPoll s c loop obj) c hloop obj).before hobj
        hf.objectCount hf.links hf.linkCount fun x => (hf.reachable_iff x).mp
      have hfree : freedBy s (.iterate i c loop) =
          if loop = .clean ∧ (s.objects obj).count false = 0 ∧ (s.objects obj).count true = 0 then
            (s.objects obj).links.values else [] := by
        cases loop <;> simp_all [freedBy, Loop.list]
      rw [hobj, ← hfree] at hbody
      exact hbody.after ⟨fun _ => rfl, rfl, rfl⟩ rfl
  | delete i o =>
    obtain ⟨hshape, hlinks, ho, hl, _⟩ :=
      objectRequestDeleteTaskRun_effect { s with work := s.work.eraseIdx i } o
    exact .delete o ⟨hshape, ho, hl⟩ hlinks

end Acid

import Acid.OrderedCollector
import Acid.SoundRemoval

set_option autoImplicit false

/-!
# The chains that the code follows

Collectors and their lists forward along the same forest, before and after every operation
and also in the middle of one. This is all that the loops need to end.
-/
namespace Acid
open PointerForest
open Locked (SamePlaces safelistPush_places safelistPoll_places modifyCollector_places check_places
  objectSetCollector_places)

structure Chained (s : State) : Prop extends Forest s where
  lists : ∀ r, s.listForward r = (s.forward r.1).map fun d => (d, route r.2)

theorem Collectors.chained {s : State} (h : Collectors s) : Chained s :=
  ⟨⟨h.ranked, h.bound, fun _ _ hx => (h.object_alive hx).2.1⟩, h.lists⟩

theorem safelistAdd_places (s : State) (r : ListRef) (x : ℕ) : SamePlaces s (safelistAdd s r x) := by
  unfold safelistAdd
  split
  · exact safelistPush_places s _ x
  · exact safelistPush_places s _ x

theorem safelistDrain_places (dest r : ListRef) (n : ℕ) :
    ∀ s : State, SamePlaces s (safelistDrain dest r n s) := by
  induction n with
  | zero => exact SamePlaces.refl
  | succ n ih =>
    intro s
    have hpoll := safelistPoll_places s r
    rw [safelistDrain]
    generalize safelistPoll s r = p at hpoll
    obtain ⟨s1, _ | o⟩ := p
    · exact hpoll
    · exact hpoll.trans ((safelistAdd_places s1 dest o).trans (ih _))

theorem safelistForward_listForward (s : State) (r dest q : ListRef) :
    (safelistForward s r dest).listForward q = if q = r then some dest else s.listForward q := by
  have hdrain := safelistDrain_places dest r (s.safelist r).data.length s
  rw [safelistForward, State.listForward, State.modifySafelist_safelist]
  split_ifs with hq
  · rfl
  · exact congrFun hdrain.listForward q

/-- A change of the forward pointer leaves the lists to `collector_forward_safelists_to`. -/
theorem collectorSetForward_listForward (s : State) (c : ℕ) (f : Option ℕ) :
    (collectorSetForward s c f).listForward = s.listForward := by
  have hinc : ∀ (u : State) (d : ℕ), (counterIncRef u d).listForward = u.listForward :=
    fun u d => (modifyCollector_places u d rfl fun _ => rfl).listForward
  have hdec : ∀ (u : State) (d : ℕ), (counterDecRef u d).listForward = u.listForward :=
    fun u d => ((check_places u _ _).trans (modifyCollector_places _ d rfl fun _ => rfl)).listForward
  have hset : ∀ u : State,
      (u.modifyCollector c fun k => { k with forward := f }).listForward = u.listForward := by
    intro u
    funext r
    rw [State.listForward, State.listForward, State.safelist, State.safelist,
      State.modifyCollector_collectors]
    split_ifs with hr
    · rw [hr]
    · rfl
  unfold collectorSetForward
  split_ifs
  · rfl
  · rw [hset]
    cases f <;> cases s.forward c <;> simp [counterRepoint, hinc, hdec]

theorem collectorMerge_listForward (s : State) (t c : ℕ) (q : ListRef) :
    (collectorMerge s t c).listForward q =
      if q.1 = c then some (t, route q.2) else s.listForward q := by
  rw [collectorMerge, collectorSetForward_listForward]
  simp only [collectorForwardSafelistsTo, safelistForward_listForward]
  obtain ⟨d, n⟩ := q
  by_cases hd : d = c
  · subst hd
    cases n <;> simp
  · simp [hd]

namespace Chained
variable {s s' : State} (h : Chained s)
include h

theorem congr (hf : s'.forward = s.forward) (hl : s'.listForward = s.listForward)
    (hn : s'.numCollector = s.numCollector)
    (hobj : ∀ x, (s'.objects x).collector = (s.objects x).collector) : Chained s' := by
  refine ⟨⟨hf ▸ h.ranked, ?_, ?_⟩, ?_⟩
  · rw [hf, hn]
    exact h.bound
  · intro x c hx
    rw [hobj] at hx
    rw [hn]
    exact h.held x c hx
  · intro r
    rw [hl, hf]
    exact h.lists r

theorem of_collectors (hc : s'.collectors = s.collectors) (hn : s'.numCollector = s.numCollector)
    (hobj : ∀ x, (s'.objects x).collector = (s.objects x).collector) : Chained s' := by
  apply h.congr (forward_eq_of_collectors hc) ?_ hn hobj
  funext r
  rw [State.listForward, State.listForward, State.safelist, State.safelist, hc]

theorem emit (e : Event) : Chained (s.emit e) := h.of_collectors rfl rfl fun _ => rfl

theorem check (p : Prop) [Decidable p] (e : Event) : Chained (s.check p e) := by
  unfold State.check
  split_ifs
  · exact h
  · exact h.emit e

theorem addTask (t : Task) : Chained (s.addTask t) := h.of_collectors rfl rfl fun _ => rfl

theorem modifyLink (l : ℕ) (f : Link → Link) : Chained (s.modifyLink l f) :=
  h.of_collectors rfl rfl fun _ => rfl

theorem modifyObject (x : ℕ) {f : Object → Object} (hf : ∀ o, (f o).collector = o.collector) :
    Chained (s.modifyObject x f) := by
  refine h.of_collectors rfl rfl ?_
  intro y
  rw [State.modifyObject_objects]
  split_ifs with hy
  · rw [hf, hy]
  · rfl

theorem setCollector (x : ℕ) {c : Option ℕ} (hc : ∀ d, c = some d → d < s.numCollector) :
    Chained (objectSetCollector s x c) where
  toForest := h.toForest.setCollector x hc
  lists r := by
    rw [(objectSetCollector_places s x c).listForward, objectSetCollector_forward]
    exact h.lists r

theorem setNone (x : ℕ) : Chained (objectSetCollector s x none) := by
  apply h.setCollector
  intro d hd
  cases hd

theorem add (r : ListRef) (x : ℕ) : Chained (safelistAdd s r x) := by
  have hsame := safelistAdd_same s r x
  apply h.congr hsame.forward (safelistAdd_places s r x).listForward hsame.numCollector
  intro y
  rw [hsame.objects]

theorem poll (r : ListRef) : Chained (safelistPoll s r).1 := by
  have hsame := safelistPoll_same s r
  apply h.congr hsame.forward (safelistPoll_places s r).listForward hsame.numCollector
  intro y
  rw [hsame.objects]

theorem create : Chained (collectorCreate s).1 where
  toForest := h.toForest.create
  lists r := by
    by_cases hr : r.1 = s.numCollector
    · simp [State.listForward, State.safelist, State.forward, collectorCreate, hr]
    · have hrest := h.lists r
      simpa [State.listForward, State.safelist, State.forward, collectorCreate, hr] using hrest

theorem merge {t c : ℕ} (ht : s.forward t = none) (hne : c ≠ t) (htn : t < s.numCollector) :
    Chained (collectorMerge s t c) where
  toForest := h.toForest.merge ht hne htn
  lists r := by
    rw [collectorMerge_listForward, collectorMerge_forward, Function.update_apply]
    split_ifs
    · rfl
    · exact h.lists r

theorem update_lt {c : ℕ} (hc : c < s.numCollector) : collectorUpdate s c < s.numCollector :=
  root_lt h.ranked h.bound hc

theorem root_lists {t : ℕ} (ht : s.forward t = none) (n : ListName) :
    s.listForward (t, n) = none := by
  rw [h.lists, ht]
  rfl

/-- The end of the chain that an addition to `r` follows. -/
theorem lists_leadsTo (r : ListRef) :
    LeadsTo s.listForward r (chase s.listForward s.numCollector r) := by
  obtain ⟨rank, hr, hb⟩ := h.ranked.bounded s.numCollector h.bound
  apply chase_leadsTo (fun q : ListRef => rank q.1) _ _ _ (hb r.1)
  intro a b hab
  rw [h.lists] at hab
  obtain ⟨e, he, rfl⟩ := Option.map_eq_some_iff.mp hab
  exact hr _ _ he

/-! ## The operations -/

theorem requestDelete (x : ℕ) : Chained (objectRequestDelete s x) := (h.emit _).addTask _

theorem addObject {c : ℕ} (x : ℕ) (hc : c < s.numCollector) : Chained (collectorAddObject s c x) := by
  have hroot := h.update_lt hc
  unfold collectorAddObject
  dsimp only
  have hcount := (h.modifyObject x (f := fun o =>
    { o with count := Function.update o.count o.which (o.count o.which + 1) })
    fun _ => rfl).modifyObject x (f := fun o => { o with count2 := o.count2 + 1 }) fun _ => rfl
  apply (hcount.add _ x).setCollector
  intro d hd
  rw [← Option.some.inj hd, (safelistAdd_same _ _ x).numCollector]
  exact hroot

theorem ensureCollector (x : ℕ) : Chained (objectEnsureCollector s x) := by
  unfold objectEnsureCollector
  split
  · exact h
  · apply Chained.addTask
    apply h.create.setCollector
    intro d hd
    rw [← Option.some.inj hd]
    exact Nat.lt_succ_self _

theorem dec (x : ℕ) (w : Bool) : Chained (objectDec s x w) := by
  unfold objectDec
  dsimp only
  have hcount := (h.modifyObject x (f := fun o =>
    { o with count := Function.update o.count w (o.count w - 1) }) fun _ => rfl).check
      (0 ≤ ((s.modifyObject x fun o =>
        { o with count := Function.update o.count w (o.count w - 1) }).objects x).count w)
      (.assertFailed .decCount)
  split_ifs
  · exact hcount.requestDelete x
  · split
    · rename_i c hc
      exact (hcount.ensureCollector x).addObject x ((hcount.ensureCollector x).held x c hc)
    · exact hcount.ensureCollector x
  · exact hcount

theorem decPhantom (x : ℕ) : Chained (objectDecPhantom s x) := by
  unfold objectDecPhantom
  dsimp only
  have hcount := (h.modifyObject x (f := fun o => { o with count2 := o.count2 - 1 })
    fun _ => rfl).check (0 ≤ ((s.modifyObject x fun o =>
      { o with count2 := o.count2 - 1 }).objects x).count2) (.assertFailed .decPhantomCount)
  split_ifs
  · exact hcount.requestDelete x
  · exact hcount.setNone x
  · exact hcount

theorem linkDec (l : ℕ) : Chained (Acid.linkDec s l) := by
  unfold Acid.linkDec
  dsimp only
  split_ifs
  · exact h.decPhantom _
  · exact h.dec _ _

theorem linkDestroy (l : ℕ) : Chained (Acid.linkDestroy s l) := ((h.linkDec l).modifyLink l _).emit _

theorem mergeCollectors (obj target : ℕ) : Chained (objectMergeCollectors s obj target).1 where
  toForest := h.toForest.mergeCollectors obj target
  lists r := by
    have hset : ∀ (u : State) (x : ℕ) (c : Option ℕ),
        u.listForward r = (u.forward r.1).map (fun d => (d, route r.2)) →
        (objectSetCollector u x c).listForward r =
          ((objectSetCollector u x c).forward r.1).map fun d => (d, route r.2) := by
      intro u x c hu
      rw [(objectSetCollector_places u x c).listForward, objectSetCollector_forward]
      exact hu
    have hout := h.toForest.outcome obj target
    generalize objectMergeCollectors s obj target = p at hout
    cases hout with
    | neither => exact h.lists r
    | equal => exact h.lists r
    | given => exact hset _ _ _ (h.lists r)
    | taken => exact hset _ _ _ (h.lists r)
    | found => exact hset _ _ _ (hset _ _ _ (h.lists r))
    | merged _ ht _ hd _ hne =>
      apply hset
      apply hset
      exact (h.merge (hd ▸ h.update_isRoot _) hne (hd ▸ h.update_lt (h.held _ _ ht))).lists r

theorem updateCollector (x : ℕ) : Chained (objectUpdateCollector s x) := by
  unfold objectUpdateCollector
  split
  · rename_i c hc
    apply h.setCollector
    intro d hd
    rw [← Option.some.inj hd]
    exact h.update_lt (h.held x c hc)
  · exact h.emit _

theorem linkPhantomize (l : ℕ) : Chained (Acid.linkPhantomize s l) := by
  unfold Acid.linkPhantomize
  dsimp only
  split_ifs
  · exact h
  · have hmerge := (((h.modifyObject (s.links l).target (f := fun o =>
      { o with count2 := o.count2 + 1 }) fun _ => rfl).linkDec l).check
        (((Acid.linkDec (s.modifyObject (s.links l).target fun o =>
          { o with count2 := o.count2 + 1 }) l).objects (s.links l).target).collector ≠ none ∨
        ((Acid.linkDec (s.modifyObject (s.links l).target fun o =>
          { o with count2 := o.count2 + 1 }) l).objects (s.links l).src).collector ≠ none)
        (.assertFailed .linkCollector)).mergeCollectors (s.links l).src (s.links l).target
    exact (hmerge.modifyLink l _).check _ _

theorem phantomizeSnapshot (obj l : ℕ) : Chained (Acid.phantomizeSnapshot obj s l) := by
  unfold Acid.phantomizeSnapshot
  dsimp only
  split_ifs
  · exact h.check _ _
  · exact (((h.check _ _).check _ _).check _ _).linkPhantomize l

theorem phantomizeFlip (x : ℕ) : Chained (Acid.phantomizeFlip s x) := by
  unfold Acid.phantomizeFlip
  split_ifs
  · exact h.modifyObject x fun _ => rfl
  · exact h

theorem phantomizeStart (x : ℕ) : Chained (Acid.phantomizeStart s x) := by
  unfold Acid.phantomizeStart
  apply Chained.modifyObject
  · apply Chained.check
    exact h.modifyObject x fun _ => rfl
  · exact fun _ => rfl

theorem recoverUpdate (x : ℕ) : Chained (Acid.recoverUpdate s x) := by
  unfold Acid.recoverUpdate
  split_ifs
  · exact h.updateCollector x
  · exact h

theorem recoverStart (x : ℕ) : Chained (Acid.recoverStart s x) :=
  ((h.check _ _).check _ _).modifyObject x fun _ => rfl

theorem rebuildCount (l : ℕ) : Chained (Acid.rebuildCount s l) := by
  unfold Acid.rebuildCount
  dsimp only
  apply Chained.modifyObject
  · apply Chained.modifyObject
    · exact h.modifyLink l _
    · exact fun _ => rfl
  · exact fun _ => rfl

theorem rebuildCollector (x : ℕ) : Chained (Acid.rebuildCollector s x) := by
  unfold Acid.rebuildCollector
  split_ifs
  · exact h.setNone x
  · exact h

theorem rebuildLink (c l : ℕ) : Chained (objectRebuildLink c s l) := by
  rw [objectRebuildLink_eq]
  dsimp only
  split_ifs
  · unfold rebuildQueue
    have hmark := (((h.rebuildCount l).rebuildCollector (s.links l).target).modifyLink l fun lk =>
      { lk with phantomized := false }).check (0 ≤ ((((Acid.rebuildCollector (Acid.rebuildCount s l)
        (s.links l).target).modifyLink l fun lk =>
          { lk with phantomized := false }).objects (s.links l).target).count2))
        (.assertFailed .rebuildCount)
    split_ifs
    · exact hmark.add _ _
    · exact hmark
  · exact h

theorem removeStart (x : ℕ) : Chained (Acid.removeStart s x) := by
  unfold Acid.removeStart
  apply Chained.check
  apply Chained.check
  exact (h.emit _).modifyObject x fun _ => rfl

theorem linkCreate (src target : ℕ) : Chained (Acid.linkCreate s src target).1 :=
  h.of_collectors rfl rfl fun _ => rfl

theorem setLabel (obj referent l : ℕ) : Chained (objectSetLabel s obj referent l) := by
  unfold objectSetLabel
  dsimp only
  split_ifs
  · apply Chained.modifyLink
    apply Chained.modifyObject
    · apply Chained.check
      exact h.mergeCollectors obj referent
    · exact fun _ => rfl
  all_goals
    apply Chained.modifyObject
    · exact h.modifyLink l _
    · exact fun _ => rfl

theorem setReferent (obj f referent : ℕ) : Chained (objectSetReferent s obj f referent) := by
  unfold objectSetReferent
  apply Chained.setLabel
  exact (h.linkCreate obj referent).modifyObject obj fun _ => rfl

omit h in
theorem foldl {α : Type} {f : State → α → State} (hf : ∀ u x, Chained u → Chained (f u x))
    (xs : List α) : ∀ {u : State}, Chained u → Chained (xs.foldl f u) := by
  induction xs with
  | nil => exact id
  | cons x xs ih => exact fun hu => ih (hf _ x hu)

theorem phantomizeNode (x : ℕ) : Chained (objectPhantomizeNode s x) := by
  have hlinks : ∀ {u : State}, Chained u → Chained (objectPhantomizeLinks u x) := by
    intro u hu
    rw [objectPhantomizeLinks_eq]
    apply Chained.modifyObject
    · exact Chained.foldl (fun _ l hv => hv.phantomizeSnapshot x l) _ (hu.phantomizeStart x)
    · exact fun _ => rfl
  have hcount := (h.updateCollector x).modifyObject x (f := fun o =>
    { o with count := Function.update o.count o.which (o.count o.which - 1) }) fun _ => rfl
  rw [objectPhantomizeNode_eq]
  dsimp only
  generalize (objectUpdateCollector s x).modifyObject x (fun o =>
    { o with count := Function.update o.count o.which (o.count o.which - 1) }) = u at hcount ⊢
  have hcheck := hcount.check (0 ≤ (u.objects x).count (u.objects x).which)
    (.assertFailed .phantomizeCount)
  split_ifs
  · exact hcheck
  · exact hcheck.phantomizeFlip x
  · exact hlinks (hcheck.phantomizeFlip x)

theorem recoverNode (x c : ℕ) : Chained (objectRecoverNode s x c) := by
  rw [objectRecoverNode_eq]
  dsimp only
  apply Chained.check
  split_ifs
  · exact Chained.foldl (fun _ l hv => hv.rebuildLink c l) _ ((h.recoverUpdate x).recoverStart x)
  · exact (h.recoverUpdate x).check _ _

end Chained
end Acid

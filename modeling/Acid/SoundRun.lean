import Acid.SoundExit
import Acid.Events

set_option autoImplicit false

/-!
# Every run stays sound
-/
namespace Acid
open PointerForest Tally

/-- A step that labels a new link weak finds a strong reference on the referent. -/
def StrongEnough (s : State) : Action → Prop
  | .set o f (some x) => (s.objects o).phantomized = false →
      (∀ l, (s.objects o).links.get f = some l → (s.links l).target ≠ x) →
      setWhich s o x = (s.objects x).which ∨ (s.objects x).count (s.objects x).which ≠ 0
  | _ => True

theorem restLedger_congr {s s' : State} (hobj : s'.objects = s.objects)
    (ho : s'.objectCount = s.objectCount) (hl : s'.linkCount = s.linkCount) (G K : Prop) :
    restLedger G K s' = restLedger G K s := by
  have hk : ghosts s' = ghosts s := by
    ext x
    simp only [ghosts, Set.mem_ofPred_eq, Live, hobj, ho]
  have ht : tableLinks s' = tableLinks s := by
    ext l
    simp only [tableLinks, Finset.mem_filter, Finset.mem_range, InTable, hobj, ho, hl]
  rw [restLedger, restLedger, hk, ht]

theorem ghosts_initStrong (s : State) (d : Bool) : ghosts (exec s (.initStrong d)) = ghosts s := by
  have hn : (exec s (.initStrong d)).objectCount = s.objectCount + 1 := rfl
  have hnew : ((exec s (.initStrong d)).objects s.objectCount).phantomized = false := by
    simp [exec, State.addClaim, objectInitStrong, objectIncStrong, objectInit, State.modifyObject]
  ext x
  simp only [ghosts, Set.mem_ofPred_eq, Live, hn]
  by_cases hx : x = s.objectCount
  · subst x
    simp [hnew]
  · have hobj : (exec s (.initStrong d)).objects x = s.objects x := by
      simp [exec, State.addClaim, objectInitStrong, objectIncStrong, objectInit,
        State.modifyObject, Function.update_of_ne hx]
    rw [hobj, Nat.lt_succ_iff_lt_or_eq, or_iff_left hx]

theorem ghosts_set (s : State) (o f : ℕ) (r : Option ℕ) : ghosts (objectSet s o f r) = ghosts s := by
  ext x
  simp only [ghosts, Set.mem_ofPred_eq]
  rcases objectSet_cases s o f r with ⟨_, hf, _⟩ | ⟨heq, _⟩ | ⟨y, _, hf, _⟩
  · rw [hf.live_iff, hf.phantomized, Live, State.modifyObject_objects]
    split_ifs with hx
    · rw [hx]
      rfl
    · rfl
  · rw [heq]
  · rw [hf.live_iff, hf.phantomized, Live, linkAdded_objects]
    split_ifs with hx
    · rw [hx]
      rfl
    · rfl

theorem ghosts_delete (s : State) (i o : ℕ) {x : ℕ} (hx : x ∈ ghosts (exec s (.delete i o))) :
    x ∈ ghosts s ∧ x ≠ o := by
  obtain ⟨hshape, _, hn, _⟩ :=
    objectRequestDeleteTaskRun_effect { s with work := s.work.eraseIdx i } o
  obtain ⟨⟨hlt, hfr⟩, hph⟩ := hx
  have hx := hshape x
  rw [State.modifyObject_objects] at hx
  have hfr' : ((exec s (.delete i o)).objects x).shape.freed = false := hfr
  have hph' : ((exec s (.delete i o)).objects x).shape.phantomized = true := hph
  change ((exec s (.delete i o)).objects x).shape = _ at hx
  rw [hx] at hfr' hph'
  split_ifs at hfr' hph' with hxo
  · cases hfr'
  · exact ⟨⟨⟨hlt.trans_eq hn, hfr'⟩, hph'⟩, hxo⟩

/-- A started run stays started until its exit check. -/
theorem loopBody_running (s : State) (c : ℕ) (loop : Loop) (obj : ℕ) :
    (loopBody s c loop obj).running = s.running := by
  have hadd := fun (u : State) r => (safelistAdd_frame u r obj).running
  have hrec : (objectRecoverNode s obj c).running = s.running := by
    rcases objectRecoverNode_cases s obj c with ⟨_, hf⟩ | ⟨_, hf, _⟩
    · exact hf.running
    · exact hf.running
  cases loop with
  | merged => exact hadd s _
  | collect =>
    refine (hadd _ _).trans ?_
    rcases objectPhantomizeNode_cases s obj with ⟨_, hf⟩ | ⟨_, hf, _⟩
    · exact hf.running
    · exact hf.running
  | recovery => exact (hadd _ _).trans hrec
  | rebuild => exact hrec
  | clean =>
    rcases objectCleanNode_cases s obj with ⟨_, hf⟩ | ⟨_, hf, _⟩
    · exact hf.running
    · exact hf.running
  | exit => rfl

namespace Sound
variable {s : State} {G K : Prop}

theorem runIteration (h : Sound s (restLedger G K s)) {i c : ℕ} {loop : Loop}
    (hi : s.running[i]? = some (c, loop)) (hG : G → Guarded s (.iterate i c loop)) :
    Sound (Acid.runIteration s i c loop) (restLedger G K (Acid.runIteration s i c loop)) := by
  rcases runIteration_cases s i c loop with ⟨rfl, hdone, heq⟩ | ⟨rfl, _, heq⟩ | ⟨_, _, heq⟩ |
    ⟨hloop, obj, rest, hd, heq⟩
  · rw [heq]
    have hret := h.retire hi hdone rfl rfl
    have hre := h.collectors.retire_eq c
    have hrun : (Acid.retire s c).running = s.running := by rw [hre]
    rw [← hrun] at hret
    rw [restLedger_congr (s := s)]
    · exact hret
    · change (Acid.retire s c).objects = _
      rw [hre]
    · change (Acid.retire s c).objectCount = _
      rw [hre]
    · change (Acid.retire s c).linkCount = _
      rw [hre]
  · rw [heq, restLedger_congr (s := s) (by rfl) (by rfl) (by rfl)]
    refine h.requeue _ _ (fun x => ?_) fun d => ?_
    · rw [List.count_append, List.count_singleton]
      simp
    · have h1 := countP_eraseIdx hi d
      rw [List.count_append, List.count_singleton, runTasks, h1]
      by_cases hd : d = c
      · simp [hd]
        omega
      · simp [hd, Ne.symm hd]
  · rw [heq, restLedger_congr (s := s) (by rfl) (by rfl) (by rfl)]
    exact h.proceed hi
  · rw [heq]
    have hbody := h.loopBody hi hloop hd hG rfl
    rw [restLedger_congr (s := Acid.loopBody (afterPoll s c loop obj) c loop obj) (by rfl) (by rfl)
      (by rfl)]
    have hrun : (Acid.loopBody (afterPoll s c loop obj) c loop obj).running[i]? = some (c, loop) := by
      rw [loopBody_running, (afterPoll_frame s c loop obj).running]
      exact hi
    exact hbody.proceed hrun

theorem execInitStrong (h : Sound s (restLedger G K s)) (d : Bool) :
    Sound (Acid.exec s (.initStrong d)) (restLedger G K (Acid.exec s (.initStrong d))) := by
  have h1 : Sound (Acid.exec s (.initStrong d)) (restLedger G K s) := h.initStrong d
  have hobj : ∀ y, y ≠ s.objectCount →
      (Acid.exec s (.initStrong d)).objects y = s.objects y := by
    intro y hy
    simp [Acid.exec, State.addClaim, objectInitStrong, objectIncStrong, objectInit,
      State.modifyObject, Function.update_of_ne hy]
  have hnew : ((Acid.exec s (.initStrong d)).objects s.objectCount).links = .new ∧
      ((Acid.exec s (.initStrong d)).objects s.objectCount).phantomized = false := by
    simp [Acid.exec, State.addClaim, objectInitStrong, objectIncStrong, objectInit,
      State.modifyObject]
  have hn : (Acid.exec s (.initStrong d)).objectCount = s.objectCount + 1 := rfl
  have hlc : (Acid.exec s (.initStrong d)).linkCount = s.linkCount := rfl
  have hvalues : (HashTable.new : HashTable ℕ).values = [] := by
    rw [HashTable.values, HashTable.entries_new]
    rfl
  have hold : ∀ y, y < s.objectCount → (Acid.exec s (.initStrong d)).objects y = s.objects y :=
    fun y hy => hobj y (Nat.ne_of_lt hy)
  have ht : tableLinks (Acid.exec s (.initStrong d)) = tableLinks s := by
    ext l
    simp only [tableLinks, Finset.mem_filter, Finset.mem_range, InTable, hn, hlc]
    constructor
    · rintro ⟨hl, o, ho, hm⟩
      rcases Nat.lt_succ_iff_lt_or_eq.mp ho with ho | rfl
      · exact ⟨hl, o, ho, by rwa [hold o ho] at hm⟩
      · rw [hnew.1, hvalues] at hm
        cases hm
    · rintro ⟨hl, o, ho, hm⟩
      exact ⟨hl, o, Nat.lt_succ_of_lt ho, by rwa [hold o ho]⟩
  have hL : restLedger G K (Acid.exec s (.initStrong d)) = restLedger G K s := by
    rw [restLedger, restLedger, ht, ghosts_initStrong]
  rw [hL]
  exact h1

theorem execSet (h : Sound s (restLedger G K s)) {o f : ℕ} {r : Option ℕ}
    (he : Enabled s (.set o f r)) (hG : G → Guarded s (.set o f r))
    (hK : K → StrongEnough s (.set o f r)) :
    Sound (objectSet s o f r) (restLedger G K (objectSet s o f r)) := by
  have ho : Reachable s o := by
    cases r with
    | none => exact he
    | some x => exact he.1
  have hlive := h.live_of_inUse (h.inUse_of_reachable rfl ho)
  have h1 := h.set (f := f) (r := r) rfl hlive
    (fun x hx => by
      subst hx
      exact h.inUse_of_reachable rfl he.2)
    (fun l hget hp hk => hG hk.1 l hget hp hk.2)
    (fun x hx hk => by
      subst hx
      exact hK hk)
  have hL : restLedger G K (objectSet s o f r) =
      { restLedger G K s with refs := tableLinks (objectSet s o f r) } := by
    rw [restLedger, ghosts_set]
    rfl
  rw [hL]
  exact h1

theorem execDelete (h : Sound s (restLedger G K s)) {i o : ℕ}
    (hi : s.work[i]? = some (.delete o)) (hG : G → Guarded s (.delete i o)) :
    Sound (Acid.exec s (.delete i o)) (restLedger G K (Acid.exec s (.delete i o))) := by
  have h1 := h.takeDelete hi
  have h2 := h1.weaken (K := {x | G ∧ x ∈ ghosts s} \ {o}) (S := Set.univ \ {o})
    Set.sdiff_subset (le_refl _)
  have h3 := Sound.requestDeleteTaskRun (L := { restLedger G K s with
    kept := {x | G ∧ x ∈ ghosts s} \ {o} }) h2
    (fun l hl => h.mem_tableLinks.mpr ⟨o, hl⟩)
    (by
      by_cases hg : G
      · refine (hG hg).congr rfl rfl (fun _ hy => .inr hy) fun x hx => hx.1.2
      · exact .inl fun _ _ _ hk => hg hk.1.1)
    fun hk => hk.2 rfl
  have ht : tableLinks (Acid.exec s (.delete i o)) =
      tableLinks s \ (s.objects o).links.values.toFinset :=
    tableLinks_delete (s := { s with work := s.work.eraseIdx i })
      ⟨h.tables.owned, h.tables.nodup⟩ o
  obtain ⟨hshape, _, hn, _⟩ :=
    objectRequestDeleteTaskRun_effect { s with work := s.work.eraseIdx i } o
  have hL : restLedger G K (Acid.exec s (.delete i o)) =
      { restLedger G K s with
        refs := tableLinks s \ (s.objects o).links.values.toFinset
        kept := {x | G ∧ x ∈ ghosts (Acid.exec s (.delete i o))} } := by
    rw [restLedger, ht]
    rfl
  rw [hL]
  refine h3.weaken ?_ (le_refl _)
  rintro x ⟨hg, hx⟩
  obtain ⟨hold, hne⟩ := ghosts_delete s i o hx
  exact ⟨⟨hg, hold⟩, hne⟩

/-- One step of the system. -/
theorem exec {a : Action} (h : Sound s (restLedger G K s)) (he : Enabled s a)
    (hG : G → Guarded s a) (hK : K → StrongEnough s a) :
    Sound (Acid.exec s a) (restLedger G K (Acid.exec s a)) := by
  cases a with
  | initStrong d => exact h.execInitStrong d
  | incStrong o =>
    have hf := modifyObject_frame s o (f := fun o =>
      { o with count := Function.update o.count o.which (o.count o.which + 1) }) rfl
    have hL : restLedger G K (Acid.exec s (.incStrong o)) = restLedger G K s :=
      restLedger_frame hf G K
    rw [hL]
    exact h.incStrong (h.inUse_of_reachable rfl he)
  | decStrong o =>
    have hL : restLedger G K (Acid.exec s (.decStrong o)) = restLedger G K s :=
      restLedger_frame (objectDec_frame (s.dropClaim o) o _) G K
    rw [hL]
    exact h.decStrong he
  | set o f r => exact h.execSet he hG hK
  | enter i c =>
    have hobj : (Acid.exec s (.enter i c)).objects = s.objects ∧
        (Acid.exec s (.enter i c)).objectCount = s.objectCount ∧
        (Acid.exec s (.enter i c)).linkCount = s.linkCount := by
      unfold Acid.exec collectorEnter
      dsimp only
      split_ifs
      · exact ⟨rfl, rfl, rfl⟩
      · exact ⟨rfl, rfl, rfl⟩
    rw [restLedger_congr hobj.1 hobj.2.1 hobj.2.2]
    exact h.enter he
  | iterate i c loop => exact h.runIteration he hG
  | delete i o => exact h.execDelete he hG

end Sound
end Acid

import Acid.LayoutStep
import Acid.LinkRecords
import Acid.Replay

set_option autoImplicit false

/-!
# The elements of the rebuild lists

The other lists hold a phantom count for each of their elements, a rebuild list
holds none: what keeps its elements are the references that they have otherwise.
-/
namespace Acid

/-- The claims on `x` that a step drops. -/
def claimsTaken (x : ℕ) : Action → ℕ
  | .decStrong o => if o = x then 1 else 0
  | _ => 0

/-- The places of `x` in the lists with phantom counts that a step takes away. -/
def placesTaken (s : State) (x : ℕ) : Action → ℤ
  | .iterate _ c .clean => if (s.safelist (c, .clean)).data.head? = some x then 1 else 0
  | _ => 0

/-- The step leaves `x` a stored link to it, a claim on it or a place in a list with phantom
counts. -/
def Retains (s : State) (a : Action) (x : ℕ) : Prop :=
  (∃ l, InTable s l ∧ (s.links l).target = x ∧ l ∉ freedBy s a ∧ l ∉ lostBy s a) ∨
    claimsTaken x a < s.claims x ∨ placesTaken s x a < curation s x

/-- No element of a rebuild list loses its last reference. -/
def RetainsRebuilt (s : State) (a : Action) : Prop :=
  ∀ c < s.numCollector, ∀ x ∈ (s.safelist (c, .rebuild)).data, Retains s a x

/-! ## What is in the rebuild lists after a step -/

namespace Layout

/-- Some rebuild list holds `x`. -/
def Rebuilt (d : Layout) (x : ℕ) : Prop := ∃ c, x ∈ d.data (c, .rebuild)

variable {d : Layout} {x : ℕ}

theorem rebuilt_push {r : ListRef} {o : ℕ} (hr : r.2 ≠ .rebuild) (h : (d.push r o).Rebuilt x) :
    d.Rebuilt x := by
  obtain ⟨c, hx⟩ := h
  have hne : (c, .rebuild) ≠ r := by
    intro heq
    rw [← heq] at hr
    exact hr rfl
  unfold push at hx
  dsimp only at hx
  rw [Function.update_of_ne hne] at hx
  exact ⟨c, hx⟩

theorem rebuilt_poll {r : ListRef} (h : (d.poll r).Rebuilt x) : d.Rebuilt x := by
  obtain ⟨c, hx⟩ := h
  refine ⟨c, ?_⟩
  unfold poll at hx
  dsimp only at hx
  rw [Function.update_apply] at hx
  split_ifs at hx with hr
  · rw [hr]
    exact List.mem_of_mem_tail hx
  · exact hx

theorem rebuilt_rebuild {c : ℕ} {xs : List ℕ} (h : (d.rebuild c xs).Rebuilt x) :
    d.Rebuilt x ∨ x ∈ xs := by
  obtain ⟨a, hx⟩ := h
  unfold rebuild at hx
  dsimp only at hx
  rw [Function.update_apply] at hx
  split_ifs at hx
  · rcases List.mem_append.mp hx with hx | hx
    · exact .inl ⟨c, hx⟩
    · exact .inr hx
  · exact .inl ⟨a, hx⟩

theorem rebuilt_merge {t c : ℕ} (h : (d.merge t c).Rebuilt x) : d.Rebuilt x := by
  obtain ⟨a, hx⟩ := h
  unfold merge at hx
  dsimp only at hx
  split_ifs at hx
  · cases hx
  · rcases List.mem_append.mp hx with hx | hx
    · exact ⟨a, hx⟩
    · exact ⟨c, hx⟩
  · exact ⟨a, hx⟩

end Layout

theorem Moves.rebuilt {d e : Layout} (h : Moves d e) {x : ℕ} (hx : e.Rebuilt x) : d.Rebuilt x := by
  have hkeep := h.keeps (fun e => e.Rebuilt x → d.Rebuilt x) id
    (fun e r o ih hr _ hx => ih (Layout.rebuilt_push hr hx))
    (fun e t c ih _ _ _ hx => ih (Layout.rebuilt_merge hx))
  exact hkeep hx

namespace Sound
variable {s : State} (h : Sound s (restLedger False False s))
include h

/-- The rebuild loops add targets of stored links only. -/
theorem rebuilt_step {a : Action} (he : Enabled s a) {x : ℕ}
    (hx : (layout (Acid.exec s a)).Rebuilt x) : (layout s).Rebuilt x ∨ Retains s a x := by
  by_cases hit : ∃ i c loop, a = .iterate i c loop
  · obtain ⟨i, c, loop, rfl⟩ := hit
    by_cases hnone : loop = .exit ∨ (s.safelist (c, loop.list)).data = []
    · obtain ⟨c', hm⟩ := hx
      refine .inl ⟨c', ?_⟩
      change x ∈ ((Acid.exec s (.iterate i c loop)).safelist (c', .rebuild)).data at hm
      rwa [h.data_iterate i c hnone] at hm
    · push Not at hnone
      obtain ⟨hloop, hne⟩ := hnone
      obtain ⟨obj, rest, hd⟩ := List.exists_cons_of_ne_nil hne
      have hpoll : (layout (afterPoll s c loop obj)).Rebuilt x → (layout s).Rebuilt x := by
        rw [layout_afterPoll loop hd]
        exact Layout.rebuilt_poll
      -- the loops that rebuild links free and lose none
      have hrecover : ∀ xs, loop ≠ .clean →
          (∀ y ∈ xs, ∃ l ∈ (s.objects obj).links.values, (s.links l).target = y) →
          ((layout (afterPoll s c loop obj)).rebuild c xs).Rebuilt x →
            (layout s).Rebuilt x ∨ Retains s (.iterate i c loop) x := by
        intro xs hclean hxs hm
        rcases Layout.rebuilt_rebuild hm with hm | hm
        · exact .inl (hpoll hm)
        · obtain ⟨l, hl, ht⟩ := hxs x hm
          refine .inr (.inl ⟨l, ⟨obj, (h.live_of_entry hl).1, hl⟩, ht, ?_, ?_⟩)
          · cases loop with
            | clean => exact absurd rfl hclean
            | merged | collect | recovery | rebuild | exit => exact List.not_mem_nil
          · exact List.not_mem_nil
      rw [layout_iterate s i c loop hloop hd] at hx
      cases loop with
      | merged =>
        rw [h.layout_merged hd] at hx
        exact .inl (hpoll (Layout.rebuilt_push (by simp) hx))
      | collect =>
        obtain ⟨e, n, hmoves, hn, _, heq⟩ := h.layout_collect hd
        rw [heq] at hx
        have hn' : n ≠ .rebuild := by
          rcases hn with rfl | rfl <;> simp
        exact .inl (hpoll (hmoves.rebuilt (Layout.rebuilt_push hn' hx)))
      | recovery =>
        obtain ⟨xs, hxs, _, hlinks⟩ := h.layout_recover he hd
        rw [h.layout_recovery he hd hxs] at hx
        apply hrecover xs (by simp) _ (Layout.rebuilt_push (by simp) hx)
        intro y hy
        obtain ⟨_, _, l, hl, _, ht⟩ := hlinks y hy
        exact ⟨l, hl, ht⟩
      | rebuild =>
        obtain ⟨xs, hxs, _, hlinks⟩ := h.layout_recover he hd
        change (layout (objectRecoverNode (afterPoll s c .rebuild obj) obj c)).Rebuilt x at hx
        rw [hxs] at hx
        apply hrecover xs (by simp) _ hx
        intro y hy
        obtain ⟨_, _, l, hl, _, ht⟩ := hlinks y hy
        exact ⟨l, hl, ht⟩
      | clean => exact .inl (hpoll ((h.layout_clean hd).rebuilt hx))
      | exit => exact absurd rfl hloop
  · exact .inl ((h.exec_moves he fun i c loop ha => hit ⟨i, c, loop, ha⟩).rebuilt hx)

end Sound

/-! ## What a step leaves of the references -/

theorem loopBody_claims (s : State) (c : ℕ) (loop : Loop) (obj : ℕ) :
    (loopBody s c loop obj).claims = s.claims := by
  have hrec : (objectRecoverNode s obj c).claims = s.claims := by
    rcases objectRecoverNode_cases s obj c with ⟨_, hf⟩ | ⟨_, hf, _⟩
    · exact hf.claims
    · exact hf.claims
  cases loop with
  | merged => exact (safelistAdd_frame s _ obj).claims
  | collect =>
    refine (safelistAdd_frame _ _ obj).claims.trans ?_
    rcases objectPhantomizeNode_cases s obj with ⟨_, hf⟩ | ⟨_, hf, _⟩
    · exact hf.claims
    · exact hf.claims
  | recovery => exact (safelistAdd_frame _ _ obj).claims.trans hrec
  | rebuild => exact hrec
  | clean =>
    rcases objectCleanNode_cases s obj with ⟨_, hf⟩ | ⟨_, hf, _⟩
    · exact hf.claims
    · exact hf.claims
  | exit => rfl

theorem exec_claims (s : State) (a : Action) (x : ℕ) :
    s.claims x ≤ (exec s a).claims x + claimsTaken x a := by
  have hadd : ∀ (u : State) (o : ℕ), u.claims = s.claims →
      s.claims x ≤ (u.addClaim o).claims x + 0 := by
    intro u o hu
    unfold State.addClaim
    dsimp only
    rw [Function.update_apply, hu]
    split_ifs with hxo
    · rw [hxo]
      omega
    · omega
  cases a with
  | initStrong d => exact hadd _ _ rfl
  | incStrong o => exact hadd _ _ rfl
  | decStrong o =>
    have hf := (objectDec_frame (s.dropClaim o) o ((s.dropClaim o).objects o).which).claims
    change _ ≤ (objectDec (s.dropClaim o) o ((s.dropClaim o).objects o).which).claims x + _
    rw [hf, claimsTaken]
    unfold State.dropClaim
    dsimp only
    rw [Function.update_apply]
    by_cases hxo : x = o
    · subst hxo
      rw [if_pos rfl, if_pos rfl]
      omega
    · rw [if_neg hxo]
      omega
  | set o f r =>
    change s.claims x ≤ (objectSet s o f r).claims x + 0
    rcases objectSet_cases s o f r with ⟨_, hf, _⟩ | ⟨heq, _⟩ | ⟨y, _, hf, _⟩
    · rw [hf.claims]
      exact le_refl _
    · rw [heq]
      exact le_refl _
    · rw [hf.claims]
      exact le_refl _
  | enter i c =>
    change s.claims x ≤ (collectorEnter s i c).claims x + 0
    unfold collectorEnter
    dsimp only
    split_ifs
    · exact le_refl _
    · exact le_refl _
  | iterate i c loop =>
    have heq : (runIteration s i c loop).claims = s.claims := by
      rcases runIteration_cases s i c loop with ⟨_, _, heq⟩ | ⟨_, _, heq⟩ | ⟨_, _, heq⟩ |
        ⟨_, obj, rest, _, heq⟩
      · have hf : Frame s (collectorDestroy (collectorTerminate s c) c) :=
          ((collectorSetForward_frame s c none).trans (modifyCollector_frame _ c _)).trans
            (emit_frame _ _)
        rw [heq]
        exact hf.claims
      · rw [heq]
      · rw [heq]
      · rw [heq]
        exact (loopBody_claims _ c loop obj).trans (afterPoll_frame s c loop obj).claims
    change s.claims x ≤ (runIteration s i c loop).claims x + _
    rw [heq]
    exact Nat.le_add_right _ _
  | delete i o =>
    obtain ⟨_, _, _, _, hclaims, _⟩ :=
      objectRequestDeleteTaskRun_effect { s with work := s.work.eraseIdx i } o
    change s.claims x ≤ (objectRequestDeleteTaskRun { s with work := s.work.eraseIdx i } o).claims x + 0
    rw [hclaims]
    exact le_refl _

/-- The target of a stored link stays. -/
theorem HeapStep.target {s s' : State} {ls ms : List ℕ} (hs : HeapStep s s' ls ms) {l : ℕ}
    (hl : l < s.linkCount) : (s'.links l).target = (s.links l).target := by
  have hfreed : ∀ obj, (freedLinks s obj l).target = (s.links l).target := by
    intro obj
    unfold freedLinks
    split_ifs
    · rfl
    · rfl
  cases hs with
  | quiet heap links => rw [links]
  | init d heap links => rw [links]
  | clear obj f heap links => rw [links]
  | link obj f x live named anew heap links => rw [links, if_neg (Nat.ne_of_lt hl)]
  | phantomize obj heap links =>
    rw [links]
    split_ifs
    · rfl
    · rfl
  | recover obj strong heap links =>
    rw [links]
    split_ifs
    · rfl
    · rfl
  | empty obj heap links => rw [links, hfreed]
  | delete obj heap links => rw [links, hfreed]

namespace Sound
variable {s : State} (h : Sound s (restLedger False False s)) {x : ℕ}
include h

theorem inUse_of_inTable {l : ℕ} (hl : InTable s l) : InUse s (s.links l).target := by
  obtain ⟨o, _, ho⟩ := hl
  have hrefs : l ∈ (restLedger False False s).refs := h.mem_tableLinks.mpr ⟨o, ho⟩
  cases hp : (s.links l).phantomized with
  | false => exact .inl ⟨_, (h.balance.count_pos_of_link hrefs hp).ne'⟩
  | true => exact .inr (h.balance.count2_pos_of_link hrefs hp).ne'

theorem inUse_of_listed (hx : Listed s x) : InUse s x := by
  obtain ⟨r, hr, hm⟩ := hx
  have hpos := curation_pos (h.collectors.root_of_mem hm).2.1 hr hm
  have hrefs : 0 ≤ phantomRefs s (restLedger False False s).refs x := Tally.tally_nonneg _ _
  have hcount := h.balance.count2 x
  right
  rw [hcount]
  simp only [restLedger, List.count_nil, List.map_nil] at hrefs ⊢
  omega

/-- What a step leaves is a reference after it. -/
theorem inUse_of_retains {a : Action} (he : Enabled s a)
    (h' : Sound (Acid.exec s a) (restLedger False False (Acid.exec s a))) (hx : Retains s a x) :
    InUse (Acid.exec s a) x := by
  have hstep := exec_heapStep h rfl he
  rcases hx with ⟨l, hl, rfl, hfreed, hlost⟩ | hclaim | hplace
  · have hl' : InTable (Acid.exec s a) l :=
      (hstep.inTable_iff h.tables l).mpr (.inl ⟨hl, hfreed, hlost⟩)
    obtain ⟨o, _, ho⟩ := hl
    rw [← hstep.target (h.tables.owned ho).1]
    exact h'.inUse_of_inTable hl'
  · have hle := exec_claims s a x
    have hpos : 0 < (Acid.exec s a).claims x := by omega
    exact .inl ⟨_, (h'.balance.count_pos_of_claim hpos).ne'⟩
  · have hnonneg : 0 ≤ placesTaken s x a := by
      unfold placesTaken
      split
      · split_ifs <;> omega
      · exact le_refl _
    rcases h.listed_step he (listed_of_curation (hnonneg.trans_lt hplace)) with hx | ⟨i, c, rest, rfl, hd⟩
    · exact h'.inUse_of_listed hx
    · have htaken : placesTaken s x (.iterate i c .clean) = 1 := by
        simp [placesTaken, hd]
      rw [htaken] at hplace
      exact h'.inUse_of_listed (h.listed_clean i hd (by omega))

end Sound

/-! ## Runs -/

/-- In a run that retains what it rebuilds, every element of a rebuild list is in use. -/
theorem Run.rebuilt_inUse {s : State} (run : Run RetainsRebuilt initial s) {x : ℕ}
    (hx : (layout s).Rebuilt x) : InUse s x := by
  induction run generalizing x with
  | start =>
    obtain ⟨c, hm⟩ := hx
    cases hm
  | @step s a run he hok ih =>
    have hany : Run anyStep initial s := run.mono fun _ _ _ => trivial
    have h := hany.anySound
    have h' := (Run.step hany he trivial).anySound
    apply h.inUse_of_retains he h'
    rcases h.rebuilt_step he hx with ⟨c, hm⟩ | hret
    · exact hok c (h.collectors.root_of_mem hm).2.1 x hm
    · exact hret

/-- A delete task that may run frees no element of a list, and no element of a list, so no object
that `collector_run` polls, has been freed. -/
theorem run_noDeletionListed {s : State} (run : Run RetainsRebuilt initial s) :
    (∀ i x, Enabled s (.delete i x) → ∀ r, x ∉ (s.safelist r).data) ∧
      ∀ r, ∀ x ∈ (s.safelist r).data, (s.objects x).freed = false := by
  have h : Sound s (restLedger False False s) := (run.mono fun _ _ _ => trivial).anySound
  have huse : ∀ r : ListRef, ∀ x ∈ (s.safelist r).data, InUse s x := by
    rintro ⟨c, n⟩ x hx
    by_cases hn : n = .rebuild
    · subst hn
      exact run.rebuilt_inUse ⟨c, hx⟩
    · exact h.inUse_of_listed ⟨(c, n), hn, hx⟩
  constructor
  · intro i x he r hx
    exact h.not_pending_of_inUse (huse r x hx) (.inl (List.mem_of_getElem? he))
  · intro r x hx
    exact (h.live_of_inUse (huse r x hx)).2

/-- Both links of an object to another are rebuilt in one iteration: the first puts the other
object into the rebuild list, the second takes its last phantom count. -/
def twiceLinked : List Action := [.initStrong false, .initStrong false, .initStrong false,
  .set 1 0 (some 2), .set 1 1 (some 2), .set 0 0 (some 1), .decStrong 1, .enter 0 0,
  .iterate 0 0 .merged, .iterate 0 0 .collect, .iterate 0 0 .collect, .iterate 0 0 .recovery]

def claimedTest (s : State) (a : Action) : Bool :=
  (List.range s.numCollector).all fun c =>
    (s.safelist (c, .rebuild)).data.all fun x => claimsTaken x a < s.claims x

theorem retainsRebuilt_of_test (s : State) (a : Action) (h : claimedTest s a = true) :
    RetainsRebuilt s a := by
  intro c hc x hx
  have hclaim := List.all_eq_true.mp (List.all_eq_true.mp h c (List.mem_range.mpr hc)) x hx
  exact .inr (.inl (by simpa using hclaim))

/-- The mutator clears the two fields while it holds a claim on the element of the rebuild
list. -/
def stillClaimed : List Action := twiceLinked ++ [.set 1 0 none, .set 1 1 none]

theorem run_noDeletionListed_stillClaimed : ((replay initial stillClaimed).objects 2).freed = false := by
  have run : Run RetainsRebuilt initial (replay initial stillClaimed) :=
    Run.replay retainsRebuilt_of_test .start
      (show replayable claimedTest initial stillClaimed = true by decide +kernel)
  exact (run_noDeletionListed run).2 (0, .rebuild) 2 (by decide +kernel)

/-- It drops the claim as well, and the delete task of the element may run. -/
def noLongerClaimed : List Action := stillClaimed ++ [.decStrong 2]

theorem run_deletesRebuilt : ¬ ∀ s, Run anyStep initial s →
    ∀ i x, Enabled s (.delete i x) → ∀ r, x ∉ (s.safelist r).data := by
  intro h
  have run : Run anyStep initial (replay initial noLongerClaimed) :=
    Run.replay (fun _ _ _ => trivial) .start
      (show replayable (fun _ _ => true) initial noLongerClaimed = true by decide +kernel)
  have hpending : (replay initial noLongerClaimed).work[0]? = some (.delete 2) := by decide +kernel
  exact h _ run 0 2 hpending (0, .rebuild) (by decide +kernel)

end Acid

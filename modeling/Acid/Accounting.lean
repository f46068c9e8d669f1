import Acid.SoundRun
import Acid.Replay

set_option autoImplicit false

/-!
# The accounts of every reachable state

Every run from the start is sound, whatever its steps; the laws of the reference
counts, of the delete tasks and of the collectors' counters are read off from that.
-/
namespace Acid
open PointerForest Tally

theorem values_new : (HashTable.new : HashTable ℕ).values = [] := by
  rw [HashTable.values, HashTable.entries_new]
  rfl

theorem collectors_initial : Collectors initial where
  ranked := ⟨fun _ => 0, fun _ _ h => by cases h⟩
  forward_alive h := by cases h
  object_alive h := by cases h
  lists _ := rfl
  empty _ := rfl
  ref _ := rfl
  store c := by
    rfl
  counted _ := List.not_mem_nil

theorem sound_initial (G K : Prop) : Sound initial (restLedger G K initial) where
  tables := by
    constructor
    · intro o l hl
      have hv : ((initial.objects o).links).values = [] := values_new
      rw [hv] at hl
      cases hl
    · intro o
      have hv : ((initial.objects o).links).values = [] := values_new
      rw [hv]
      exact List.nodup_nil
  refs l hl := by cases hl
  collectors := collectors_initial
  balance := by
    constructor
    · intro x b
      cases b <;> rfl
    · intro x
      rfl
  classes := by
    refine ⟨?_, ?_, ?_, ?_⟩
    · intro r x _ hx
      cases hx
    · intro x c hx
      cases hx
    · rintro x ⟨_, hx, _⟩
      cases hx.1
    · intro l hl
      cases hl
  tasks := ⟨(fun h => by cases h.1), fun _ => rfl⟩
  deletes := by
    refine ⟨?_, fun _ => Nat.zero_le _, ?_, ?_, fun _ => rfl, fun _ => Nat.zero_le _, fun _ => rfl,
      ?_, rfl, rfl, ?_⟩
    · rintro x (hx | hx)
      · cases hx
      · cases hx
    · intro x _
      exact ⟨fun _ => rfl, rfl, rfl, HashTable.entries_new⟩
    · intro x hx
      cases hx
    · intro c hc
      cases hc
    · intro a _ hm
      cases hm
  settled x _ hl := by
    cases hl.1
  moved d hd := by
    cases hd

/-- Every state of a run is sound. -/
theorem Run.sound {G K : Prop} {ok : State → Action → Prop} {s : State} (run : Run ok initial s)
    (hG : ∀ u a, ok u a → G → Guarded u a) (hK : ∀ u a, ok u a → K → StrongEnough u a) :
    Sound s (restLedger G K s) := by
  apply run.invariant (fun s => Sound s (restLedger G K s)) (sound_initial G K)
  intro u a hu he hok
  exact hu.exec he (hG u a hok) (hK u a hok)

theorem Run.anySound {s : State} (run : Run anyStep initial s) :
    Sound s (restLedger False False s) :=
  run.sound (fun _ _ _ hf => hf.elim) fun _ _ _ hf => hf.elim

/-- The table links to `x` that are not phantomized and have the label `b`. -/
def labelledLinks (s : State) (x : ℕ) (b : Bool) : ℕ :=
  ((tableLinks s).filter fun l => (s.links l).target = x ∧ (s.links l).phantomized = false ∧
    (s.links l).which = b).card

/-- The phantomized table links to `x`. -/
def phantomLinks (s : State) (x : ℕ) : ℕ :=
  ((tableLinks s).filter fun l => (s.links l).target = x ∧ (s.links l).phantomized = true).card

section
variable {s : State} (run : Run anyStep initial s)
include run

theorem Run.count_eq (x : ℕ) (b : Bool) :
    (s.objects x).count b = labelledLinks s x b + sideRefs s x b := by
  have h := run.anySound.balance.count x b
  rw [strongRefs, tally_eq_card] at h
  simpa [restLedger, labelledLinks] using h

theorem Run.count2_eq (x : ℕ) : (s.objects x).count2 = phantomLinks s x + curation s x := by
  have h := run.anySound.balance.count2 x
  rw [phantomRefs, tally_eq_card] at h
  simpa [restLedger, phantomLinks] using h

end

/-- Exact reference accounting. -/
theorem run_accounting {s : State} (run : Run anyStep initial s) :
    (∀ o, Live s o →
      (s.objects o).count (!(s.objects o).which) = labelledLinks s o (!(s.objects o).which) ∧
      (s.objects o).count (s.objects o).which =
        labelledLinks s o (s.objects o).which + s.claims o + occurrences s .collect o ∧
      (s.objects o).count2 = phantomLinks s o + occurrences s .collect o +
        occurrences s .merged o + occurrences s .recovery o + occurrences s .clean o) ∧
    (∀ o, (∀ b, 0 ≤ (s.objects o).count b) ∧ 0 ≤ (s.objects o).count2) ∧
    ∀ a : Assertion, a.negative → Event.assertFailed a ∉ s.trace := by
  refine ⟨fun o _ => ⟨?_, ?_, ?_⟩, fun o => ⟨?_, ?_⟩, ?_⟩
  · have h := run.count_eq o (!(s.objects o).which)
    rwa [sideRefs, if_neg (by simp), add_zero] at h
  · have h := run.count_eq o (s.objects o).which
    rwa [sideRefs, if_pos rfl, ← add_assoc] at h
  · have h := run.count2_eq o
    unfold curation at h
    omega
  · exact run.anySound.balance.count_nonneg o
  · exact run.anySound.balance.count2_nonneg o
  · exact run.anySound.deletes.faults

/-- An object with a link to itself, which the second step drops the claim on. -/
def selfLink : State := replay initial [.initStrong false, .set 0 0 (some 0), .decStrong 0]

theorem run_selfLink : Run anyStep initial selfLink :=
  Run.replay (fun _ _ _ => trivial) .start
    (show replayable (fun _ _ => true) initial
      [.initStrong false, .set 0 0 (some 0), .decStrong 0] = true by decide +kernel)

theorem run_accounting_selfLink : (selfLink.objects 0).count2 = phantomLinks selfLink 0 +
    occurrences selfLink .collect 0 + occurrences selfLink .merged 0 +
    occurrences selfLink .recovery 0 + occurrences selfLink .clean 0 :=
  ((run_accounting run_selfLink).1 0 (by constructor <;> decide +kernel)).2.2

/-- Each object dies at most once. -/
theorem run_deletes {s : State} (run : Run anyStep initial s) :
    (∀ x, s.trace.count (.requestDelete x) ≤ 1 ∧ s.trace.count (.dtor x) ≤ 1 ∧
      s.trace.count (.requestDelete x) =
        s.work.count (.delete x) + if (s.objects x).freed then 1 else 0) ∧
    (∀ x, .delete x ∈ s.work → s.work.count (.delete x) = 1 ∧ Live s x ∧
      (∀ b, (s.objects x).count b = 0) ∧ (s.objects x).count2 = 0 ∧
      ∀ l, InTable s l → (s.links l).target ≠ x) ∧
    (s.acidWorldCount : ℤ) - s.acidCollectCount =
      ((Finset.range s.objectCount).filter fun x => (s.objects x).freed = false).card := by
  have h := run.anySound
  refine ⟨fun x => ⟨?_, ?_, h.deletes.requested x⟩, fun x hx => ?_, ?_⟩
  · have honce := h.deletes.once x
    have hreq := h.deletes.requested x
    by_cases hf : (s.objects x).freed = true
    · have hwork : s.work.count (.delete x) = 0 := by
        refine List.count_eq_zero.mpr fun hm => ?_
        have hlive := (h.deletes.pending (.inl hm)).1.2
        rw [hf] at hlive
        cases hlive
      rw [hwork, if_pos hf] at hreq
      exact hreq.le
    · rw [if_neg hf] at hreq
      exact hreq.le.trans honce
  · refine (h.deletes.dtors x).trans ?_
    split_ifs <;> omega
  · obtain ⟨hlive, hc, hc2⟩ := h.deletes.pending (.inl hx)
    have honce : s.work.count (.delete x) ≤ 1 := h.deletes.once x
    refine ⟨le_antisymm honce (List.count_pos_iff.mpr hx), hlive, hc, hc2, ?_⟩
    rintro l ⟨o, ho, hl⟩ rfl
    exact (h.live_of_link (h.mem_tableLinks.mpr ⟨o, hl⟩)).2 (.inl hx)
  · have hcol := h.deletes.collected
    rw [tally_eq_card] at hcol
    have hsplit := Finset.card_filter_add_card_filter_not (s := Finset.range s.objectCount)
      (fun x => (s.objects x).freed = true)
    rw [Finset.card_range] at hsplit
    have hworld := h.deletes.world
    have hneg : (Finset.range s.objectCount).filter (fun x => ¬ (s.objects x).freed = true) =
        (Finset.range s.objectCount).filter fun x => (s.objects x).freed = false := by
      simp
    rw [hneg] at hsplit
    omega

/-- Two of the three objects are deleted. -/
theorem run_deletes_deadCycle : (replay initial deadCycle).trace.count (.requestDelete 1) = 1 ∧
    (replay initial deadCycle).trace.count (.dtor 1) ≤ 1 ∧
    ((replay initial deadCycle).acidWorldCount : ℤ) - (replay initial deadCycle).acidCollectCount =
      1 := by
  obtain ⟨hobjects, _, hworld⟩ := run_deletes run_deadCycle
  obtain ⟨_, hdtor, hrequest⟩ := hobjects 1
  have hwork : (replay initial deadCycle).work.count (.delete 1) = 0 := by decide +kernel
  have hfreed : ((replay initial deadCycle).objects 1).freed = true := by decide +kernel
  have hlive : ((Finset.range (replay initial deadCycle).objectCount).filter fun x =>
      ((replay initial deadCycle).objects x).freed = false).card = 1 := by decide +kernel
  rw [hwork, if_pos hfreed] at hrequest
  rw [hlive] at hworld
  exact ⟨hrequest, hdtor, hworld⟩

/-- A collector outlives its references. -/
theorem run_collectors {s : State} (run : Run anyStep initial s) :
    (∀ c, Alive s c →
      (s.collectors c).refCount =
        ((Finset.range s.objectCount).filter fun x =>
          (s.objects x).freed = false ∧ (s.objects x).collector = some c).card +
        ((Finset.range s.numCollector).filter fun d =>
          (s.collectors d).destroyed = false ∧ s.forward d = some c).card ∧
      (s.collectors c).storeCount = (s.collectors c).stored ∧ runTasks s c = 1) ∧
    (∀ c, Event.counterUnderflow c ∉ s.trace ∧ s.trace.count (.collectorDestroy c) ≤ 1) ∧
    ∀ a c, Enabled s a → Event.collectorDestroy c ∈ (exec s a).trace →
      Event.collectorDestroy c ∉ s.trace →
      Alive s c ∧ (∀ x, Live s x → (s.objects x).collector ≠ some c) ∧
        (∀ d, Alive s d → s.forward d ≠ some c) ∧ ∀ n, (s.safelist (c, n)).data = [] := by
  have h := run.anySound
  refine ⟨fun c hc => ⟨?_, h.collectors.store c, h.tasks.alive hc⟩, fun c => ⟨?_, ?_⟩, ?_⟩
  · rw [h.collectors.ref c, holders, followers, tally_eq_card, tally_eq_card]
    congr 2
    · refine congrArg Finset.card (Finset.filter_congr fun x _ => ?_)
      exact ⟨fun hx => ⟨(h.collectors.object_alive hx).1.2, hx⟩, And.right⟩
    · refine congrArg Finset.card (Finset.filter_congr fun d _ => ?_)
      exact ⟨fun hd => ⟨(h.collectors.forward_alive hd).1.2, hd⟩, And.right⟩
  · exact h.collectors.counted c
  · rw [h.deletes.destroyed c]
    split_ifs <;> omega
  · intro a c he hnew hold
    rcases ((exec_minor s a).mem hnew).resolve_left hold with hm | hends
    · exact hm.elim
    · cases a with
      | iterate i d loop =>
        cases loop with
        | exit =>
          obtain ⟨hdone, hcd⟩ := hends
          obtain rfl : c = d := by simpa using hcd
          obtain ⟨hno, hnf, hempty⟩ := h.collectors.unused hdone
          have hrun : 0 < s.running.countP (·.1 = c) :=
            List.countP_pos_iff.mpr ⟨(c, .exit), List.mem_of_getElem? he, by simp⟩
          refine ⟨?_, fun x _ => hno x, fun d _ => hnf d, hempty⟩
          by_contra hdead
          have hz := h.tasks.dead hdead
          unfold runTasks at hz
          omega
        | clean =>
          obtain ⟨obj, _, _, _, heq | ⟨l, _, heq⟩⟩ := hends <;> cases heq
        | merged => exact hends.elim
        | collect => exact hends.elim
        | recovery => exact hends.elim
        | rebuild => exact hends.elim
      | delete i o => rcases hends with (heq | ⟨l, _, heq⟩) | heq | heq <;> cases heq
      | initStrong d => exact hends.elim
      | incStrong o => exact hends.elim
      | decStrong o => exact hends.elim
      | set o f r => exact hends.elim
      | enter i d => exact hends.elim

theorem run_collectors_selfLink : runTasks selfLink 0 = 1 :=
  ((run_collectors run_selfLink).1 0 (by constructor <;> decide +kernel)).2.2

end Acid

import Acid.ClassEvents
import Acid.Safety

set_option autoImplicit false

/-!
# Collector classes are closed

As long as the clean loop lets no curated object go, phantomized objects and the
ends of phantomized links stay in the class of the collector that lists them.
-/
namespace Acid
open PointerForest Tally

/-- The assertions on collectors in `object_phantomize_node`, `link_phantomize` and `object_set`. -/
def Assertion.ofClass : Assertion → Bool
  | .phantomizeCollector | .phantomizeSourceCollector | .linkCollector | .linkEquals
  | .setCollector => true
  | _ => false

section
variable {s : State} (run : Run CleansCurated initial s)
include run

theorem Run.class_kept {o : ℕ} (hlive : Live s o) (hp : (s.objects o).phantomized = true) :
    (s.objects o).collector ≠ none :=
  run.classSound.2.classes.kept ⟨trivial, hlive, hp⟩

/-- A phantomized link leaves a phantomized object. -/
theorem Run.class_linked {l : ℕ} (hl : InTable s l) (hp : (s.links l).phantomized = true) :
    ∃ c, InClass s (s.links l).src c ∧ InClass s (s.links l).target c := by
  have h := run.classSound.2
  have hflags := (run.mono fun _ _ _ => trivial : Run anyStep initial s).flags
  obtain ⟨o, _, ho⟩ := hl
  have hsrc := (h.tables.owned ho).2
  have hlive := h.live_of_entry ho
  refine h.classes.linked (h.mem_tableLinks.mpr ⟨o, ho⟩) hp ⟨trivial, ?_⟩
  rw [hsrc]
  exact ⟨hlive, (hflags.agree ho).symm.trans hp⟩

theorem Run.class_assertions (a : Assertion) (ha : a.ofClass = true) :
    .assertFailed a ∉ s.trace := by
  induction run with
  | start => simp [initial]
  | @step u b run he _ ih =>
    have hany : Run anyStep initial u := run.mono fun _ _ _ => trivial
    have hem := hany.exec_emits (P := fun e => e ≠ .assertFailed a) ?_ he ?_ ?_ (.inl ?_)
      fun e hends => hends.no_fault.2 a
    · exact hem.absent (fun hne => hne rfl) ih
    · rintro e hb rfl
      cases a <;> simp_all [Assertion.ofClass, Event.basic, Assertion.negative]
    · rintro o f r rfl
      right
      have hr : Reachable u o := by
        cases r with
        | none => exact he
        | some x => exact he.1
      have hlive := hany.accounted.live_of_inUse (hany.accounted.inUse_of_reachable rfl hr)
      exact run.class_kept hlive
    · rintro _ ⟨⟩
      cases ha
    · rintro ⟨⟩
      cases ha

end

/-- The collector classes of a run whose clean loop lets curated objects be. -/
theorem run_closed {s : State} (run : Run CleansCurated initial s) :
    (∀ o, Live s o → (s.objects o).phantomized = true → (s.objects o).collector ≠ none) ∧
    (∀ l, InTable s l → (s.links l).phantomized = true → ∃ c t,
      (s.objects (s.links l).src).collector = some c ∧
      (s.objects (s.links l).target).collector = some t ∧
      collectorUpdate s c = collectorUpdate s t) ∧
    (∀ (r : ListRef) x, r.2 ≠ .rebuild → x ∈ (s.safelist r).data → ∃ d,
      (s.objects x).collector = some d ∧ collectorUpdate s d = collectorUpdate s r.1) ∧
    ∀ a : Assertion, a.ofClass = true → .assertFailed a ∉ s.trace := by
  refine ⟨fun o hlive hp => run.class_kept hlive hp, ?_, ?_, run.class_assertions⟩
  · intro l hl hp
    obtain ⟨c, ⟨d, hd, hdc⟩, e, he, hec⟩ := run.class_linked hl hp
    exact ⟨d, e, hd, he, hdc.trans hec.symm⟩
  · intro r x hr hx
    exact run.classSound.2.classes.listed hr hx

/-- The clean loop takes objects only that the lists hold once more. -/
def cleansListed (s : State) : Action → Bool
  | .iterate _ c .clean => (s.safelist (c, .clean)).data.head?.all fun obj => 2 ≤ curation s obj
  | _ => true

theorem cleansCurated_of_cleansListed (s : State) (a : Action) (h : cleansListed s a = true) :
    CleansCurated s a := by
  cases a with
  | iterate i c loop =>
    cases loop with
    | clean =>
      intro obj rest hdata _
      right
      simpa [cleansListed, hdata] using h
    | merged => trivial
    | collect => trivial
    | recovery => trivial
    | rebuild => trivial
    | exit => trivial
  | initStrong d => trivial
  | incStrong o => trivial
  | decStrong o => trivial
  | set o f r => trivial
  | enter i c => trivial
  | delete i o => trivial

/-- The first object of the cycle is cleaned while it is listed once more, the second one when
nothing needs it. -/
theorem run_closed_deadCycle :
    ((exec (replay initial (deadCycle.take 28)) (.iterate 0 1 .clean)).objects 0).collector ≠ none := by
  have run : Run CleansCurated initial (replay initial (deadCycle.take 28)) :=
    Run.replay cleansCurated_of_cleansListed .start
      (show replayable cleansListed initial (deadCycle.take 28) = true by decide +kernel)
  have hany : Run anyStep initial (replay initial (deadCycle.take 28)) := run.mono fun _ _ _ => trivial
  have hdata : ((replay initial (deadCycle.take 28)).safelist (1, .clean)).data = [1, 0] := by
    decide +kernel
  have hcleans : CleansCurated (replay initial (deadCycle.take 28)) (.iterate 0 1 .clean) := by
    intro obj rest hd _
    rw [hdata] at hd
    left
    rw [← (List.cons.inj hd).1]
    exact hany.unneeded (by decide +kernel) (by decide +kernel)
  have hclean : Enabled (replay initial (deadCycle.take 28)) (.iterate 0 1 .clean) :=
    enabled_of_test (show enabledTest (replay initial (deadCycle.take 28)) (.iterate 0 1 .clean) = true
      by decide +kernel)
  exact (run_closed (run.step hclean hcleans)).1 0 (by constructor <;> decide +kernel) (by decide +kernel)

/-- A second collector of the class cleans an object that the first has yet to recover; the
object is linked to anew while it is phantomized and in no list. -/
def letGo : List Action := recoveredLate ++ [.iterate 0 0 .clean, .iterate 0 0 .clean,
  .iterate 0 0 .clean, .iterate 0 0 .exit, .enter 0 0, .initStrong false, .iterate 0 0 .merged,
  .iterate 0 0 .merged, .iterate 0 0 .collect, .set 0 0 (some 3), .iterate 0 0 .recovery]

theorem run_not_closed : ¬ ∀ s, Run anyStep initial s → ∀ o, Live s o →
    (s.objects o).phantomized = true → (s.objects o).collector ≠ none := by
  intro h
  have run : Run anyStep initial (replay initial letGo) :=
    Run.replay (fun _ _ _ => trivial) .start
      (show replayable (fun _ _ => true) initial letGo = true by decide +kernel)
  exact h _ run 0 (by constructor <;> decide +kernel) (by decide +kernel) (by decide +kernel)

end Acid

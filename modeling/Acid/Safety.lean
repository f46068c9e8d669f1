import Acid.Flags

set_option autoImplicit false

/-!
# When the collector takes the links of an object

An object without references looks dead, but its links may be phantomized only. It is
dead where no phantomized object that still has references leads to it.
-/
namespace Acid

/-- No phantomized object that still has a strong or weak reference leads to `x`. -/
def Unneeded (s : State) (x : ℕ) : Prop :=
  ∀ y, (s.objects y).phantomized = true → Relation.ReflTransGen (Edge s) y x →
    ∀ b, (s.objects y).count b = 0

/-- A clean loop empties the table of an unneeded object only. -/
def CleansUnneeded (s : State) : Action → Prop
  | .iterate _ c .clean => ∀ obj rest, (s.safelist (c, .clean)).data = obj :: rest →
      (∀ b, (s.objects obj).count b = 0) → Unneeded s obj
  | _ => True

section
variable {s : State} (run : Run anyStep initial s) {x : ℕ} (hz : ∀ b, (s.objects x).count b = 0)
  (hu : Unneeded s x)
include run hz hu

/-- What leads to an unneeded object has no reference and is phantomized itself, but for the
object. -/
theorem Run.needless {y : ℕ} (hyx : Relation.ReflTransGen (Edge s) y x) :
    (∀ b, (s.objects y).count b = 0) ∧ (y ≠ x → (s.objects y).phantomized = true) := by
  have h := run.anySound
  induction hyx using Relation.ReflTransGen.head_induction_on with
  | refl => exact ⟨hz, fun hne => absurd rfl hne⟩
  | head hab hpath ih =>
    rename_i a b
    obtain ⟨l, hl, rfl⟩ := hab
    have hph : (s.links l).phantomized = true := by
      by_contra hp
      have hpos := h.balance.count_pos_of_link (h.mem_tableLinks.mpr ⟨a, hl⟩) (by simpa using hp)
      exact hpos.ne' (ih.1 _)
    have ha : (s.objects a).phantomized = true := by
      rw [← run.flags.agree hl]
      exact hph
    exact ⟨hu a ha (hpath.head ⟨l, hl, rfl⟩), fun _ => ha⟩

theorem Run.not_reachable : ¬ Reachable s x := by
  rintro ⟨r, hr, hpath⟩
  have hzero := (run.needless hz hu hpath).1 (s.objects r).which
  exact (run.anySound.balance.count_pos_of_claim hr).ne' hzero

end
/-- No step that cleans unneeded objects only takes the links of a reachable object or frees it. -/
theorem run_safety {s : State} (run : Run CleansUnneeded initial s) {a : Action}
    (he : Enabled s a) (hok : CleansUnneeded s a) {o : ℕ} (hr : Reachable s o) :
    (exec s a).trace.count (.removeLinks o) = s.trace.count (.removeLinks o) ∧
    (exec s a).trace.count (.objectDel o) = s.trace.count (.objectDel o) := by
  have hrun : Run anyStep initial s := run.mono fun _ _ _ => trivial
  have h := hrun.anySound
  have huse := h.inUse_of_reachable rfl hr
  have hends : ¬ Ends s a (.removeLinks o) ∧ ¬ Ends s a (.objectDel o) := by
    cases a with
    | iterate i c loop =>
      cases loop with
      | clean =>
        constructor
        · rintro ⟨obj, rest, hd, hz, heq | ⟨l, _, heq⟩⟩
          · cases heq
            have hzero : ∀ b, (s.objects o).count b = 0 := by
              intro b
              cases b
              · exact hz.1
              · exact hz.2
            exact hrun.not_reachable hzero (hok o rest hd hzero) hr
          · cases heq
        · rintro ⟨obj, rest, hd, hz, heq | ⟨l, _, heq⟩⟩ <;> cases heq
      | exit => exact ⟨(fun h => by cases h.2), fun h => by cases h.2⟩
      | merged => exact ⟨id, id⟩
      | collect => exact ⟨id, id⟩
      | recovery => exact ⟨id, id⟩
      | rebuild => exact ⟨id, id⟩
    | delete i x =>
      -- the object of a delete task has no reference left
      have hne : x ≠ o := by
        rintro rfl
        exact h.not_pending_of_inUse huse (.inl (List.mem_of_getElem? he))
      constructor
      · rintro ((heq | ⟨l, _, heq⟩) | heq | heq)
        · exact hne (Event.removeLinks.inj heq).symm
        · cases heq
        · cases heq
        · cases heq
      · rintro ((heq | ⟨l, _, heq⟩) | heq | heq)
        · cases heq
        · cases heq
        · exact hne (Event.objectDel.inj heq).symm
        · cases heq
    | initStrong d => exact ⟨id, id⟩
    | incStrong x => exact ⟨id, id⟩
    | decStrong x => exact ⟨id, id⟩
    | set x f r => exact ⟨id, id⟩
    | enter i c => exact ⟨id, id⟩
  have hemits := exec_minor s a
  exact ⟨hemits _ fun h => h.elim id hends.1, hemits _ fun h => h.elim id hends.2⟩

/-- A live object is unneeded if no phantomized object at all has a reference. -/
theorem Run.unneeded {s : State} (run : Run anyStep initial s) {x : ℕ} (hx : x < s.objectCount)
    (h : ∀ y < s.objectCount, (s.objects y).phantomized = true → ∀ b, (s.objects y).count b = 0) :
    Unneeded s x := by
  intro y hp hpath
  refine h y ?_ hp
  rcases hpath.cases_head with rfl | ⟨z, ⟨l, hl, _⟩, _⟩
  · exact hx
  · exact (run.anySound.live_of_entry hl).1

/-- The object with a link to itself is cleaned while another object is in use. -/
def selfLinkClean : List Action := [.initStrong false, .set 0 0 (some 0), .decStrong 0,
  .initStrong false, .enter 0 0, .iterate 0 0 .merged, .iterate 0 0 .collect, .iterate 0 0 .collect,
  .iterate 0 0 .collect, .iterate 0 0 .recovery, .iterate 0 0 .recovery, .iterate 0 0 .recovery,
  .iterate 0 0 .rebuild]

def noClean : State → Action → Bool
  | _, .iterate _ _ .clean => false
  | _, _ => true

theorem cleansUnneeded_of_noClean (s : State) (a : Action) (h : noClean s a = true) :
    CleansUnneeded s a := by
  cases a with
  | iterate i c loop =>
    cases loop with
    | clean => cases h
    | merged => trivial
    | collect => trivial
    | recovery => trivial
    | rebuild => trivial
    | exit => trivial
  | initStrong d => trivial
  | incStrong o => trivial
  | decStrong o => trivial
  | set o f r => trivial
  | enter i c => trivial
  | delete i o => trivial

theorem run_selfLinkClean : Run CleansUnneeded initial (replay initial selfLinkClean) :=
  Run.replay cleansUnneeded_of_noClean .start
    (show replayable noClean initial selfLinkClean = true by decide +kernel)

theorem run_safety_selfLink :
    (exec (replay initial selfLinkClean) (.iterate 0 0 .clean)).trace.count (.removeLinks 1) =
      (replay initial selfLinkClean).trace.count (.removeLinks 1) := by
  have hclean : Enabled (replay initial selfLinkClean) (.iterate 0 0 .clean) :=
    enabled_of_test (show enabledTest (replay initial selfLinkClean) (.iterate 0 0 .clean) = true by
      decide +kernel)
  have hdata : ((replay initial selfLinkClean).safelist (0, .clean)).data = [0, 0] := by
    decide +kernel
  have hunneeded : Unneeded (replay initial selfLinkClean) 0 :=
    (run_selfLinkClean.mono fun _ _ _ => trivial).unneeded (by decide +kernel) (by decide +kernel)
  refine (run_safety run_selfLinkClean hclean ?_ (reachable_of_mem_reached (by decide +kernel))).1
  rintro obj rest hd _
  rw [hdata] at hd
  exact (List.cons.inj hd).1 ▸ hunneeded

/-- Two collectors in one class: the second one cleans what the first has yet to recover. -/
def recoveredLate : List Action := [.initStrong false, .set 0 0 (some 0), .initStrong false,
  .set 0 1 (some 0), .initStrong false, .set 1 0 (some 0), .set 2 0 (some 1), .decStrong 0,
  .enter 0 0, .iterate 0 0 .merged, .decStrong 1, .enter 0 1, .iterate 1 1 .merged,
  .iterate 0 0 .collect, .iterate 1 1 .collect, .iterate 1 1 .collect, .iterate 1 1 .recovery,
  .iterate 1 1 .rebuild, .iterate 0 0 .collect, .iterate 1 1 .clean, .iterate 0 0 .collect,
  .iterate 1 1 .exit, .set 1 0 (some 0), .iterate 0 0 .recovery, .iterate 0 0 .recovery,
  .iterate 0 0 .recovery, .iterate 0 0 .rebuild]

theorem run_cleans_reachable : ¬ ∀ (s : State) (a : Action) (o : ℕ), Run anyStep initial s →
    Enabled s a → Reachable s o →
    (exec s a).trace.count (.removeLinks o) = s.trace.count (.removeLinks o) := by
  intro hall
  have hrun : Run anyStep initial (replay initial recoveredLate) :=
    Run.replay (fun _ _ _ => trivial) .start
      (show replayable (fun _ _ => true) initial recoveredLate = true by decide +kernel)
  have h := hall _ (.iterate 0 0 .clean) 0 hrun
    (enabled_of_test (show enabledTest (replay initial recoveredLate) (.iterate 0 0 .clean) = true by
      decide +kernel))
    (reachable_of_mem_reached (by decide +kernel))
  revert h
  decide +kernel

end Acid

import Acid.Flags

set_option autoImplicit false

/-!
# Objects with weak references only

If no weak link is made to a referent without a strong reference, no object is left
with weak references only, and what is left when all tasks are done is reachable:
each object is claimed or has a strong link from another one, without cycles.
-/
namespace Acid
open SinkGraph Tally

section
variable {s : State} (run : Run StrongEnough initial s)
include run

theorem Run.strictSound : Sound s (restLedger False True s) :=
  run.sound (fun _ _ _ hf => hf.elim) fun _ _ hok _ => hok

theorem Run.not_weakOnly (x : ℕ) : ¬ WeakOnly s x := by
  rintro ⟨hz, hne⟩
  have h := run.strictSound
  have hz' := le_antisymm hz (h.balance.count_nonneg x _)
  exact hne ((h.settled x (Set.mem_univ x) (h.live_of_count hne) hz').2 trivial).1

theorem Run.recoverWeak : Event.assertFailed .recoverWeak ∉ s.trace := by
  induction run with
  | start => exact List.not_mem_nil
  | step run he hok ih =>
    rename_i u a
    have hemits : Emits (fun e => e ≠ .assertFailed .recoverWeak) u (exec u a) := by
      apply Acid.exec_emits
      · rintro e he rfl
        cases he
      · rintro b hb ⟨⟩
        cases hb
      · intro hrec
        cases a with
        | iterate i c loop =>
          obtain ⟨_, obj, _, _, hweak⟩ := hrec
          exact absurd hweak (run.not_weakOnly obj)
        | initStrong d => exact hrec.elim
        | incStrong o => exact hrec.elim
        | decStrong o => exact hrec.elim
        | set o f r => exact hrec.elim
        | enter i c => exact hrec.elim
        | delete i o => exact hrec.elim
      · rintro e he rfl
        cases a with
        | iterate i c loop =>
          cases loop with
          | clean =>
            obtain ⟨obj, _, _, _, heq | ⟨l, _, heq⟩⟩ := he <;> cases heq
          | exit => cases he.2
          | merged => exact he.elim
          | collect => exact he.elim
          | recovery => exact he.elim
          | rebuild => exact he.elim
        | delete i o => rcases he with (heq | ⟨l, _, heq⟩) | heq | heq <;> cases heq
        | initStrong d => exact he.elim
        | incStrong o => exact he.elim
        | decStrong o => exact he.elim
        | set o f r => exact he.elim
        | enter i c => exact he.elim
    exact hemits.absent (fun hne => hne rfl) ih

end

/-- No weak-only object. -/
theorem run_noWeakOnly {s : State} (run : Run StrongEnough initial s) :
    (∀ o, Live s o → (s.objects o).count (s.objects o).which = 0 →
      (s.objects o).count (!(s.objects o).which) = 0) ∧
    Event.assertFailed .recoverWeak ∉ s.trace := by
  refine ⟨fun o _ hz => ?_, run.recoverWeak⟩
  by_contra hne
  exact run.not_weakOnly o ⟨hz.le, hne⟩

/-- A link to a referent with count zero: the last step makes the label weak. -/
def weakened : List Action :=
  [.initStrong false, .initStrong false, .initStrong false, .initStrong false,
    .set 2 0 (some 0), .set 2 1 (some 0), .set 3 0 (some 2), .decStrong 0, .incStrong 1,
    .set 0 2 (some 2), .decStrong 2, .enter 0 0, .iterate 0 0 .merged, .iterate 0 0 .collect,
    .iterate 0 0 .collect, .set 1 0 (some 0)]

theorem run_weakens : ¬ ∀ s, Run anyStep initial s → ∀ o, Live s o →
    (s.objects o).count (s.objects o).which = 0 →
      (s.objects o).count (!(s.objects o).which) = 0 := by
  intro h
  have run : Run anyStep initial (replay initial weakened) :=
    Run.replay (fun _ _ _ => trivial) .start
      (show replayable (fun _ _ => true) initial weakened = true by decide +kernel)
  have hz := h _ run 0 (by constructor <;> decide +kernel) (by decide +kernel)
  revert hz
  decide +kernel

/-- A test for `StrongEnough`. -/
def strongEnoughTest (s : State) : Action → Bool
  | .set o f (some x) => (s.objects o).phantomized ||
      ((s.objects o).links.get f).any (fun l => (s.links l).target = x) ||
      setWhich s o x = (s.objects x).which || (s.objects x).count (s.objects x).which ≠ 0
  | _ => true

theorem strongEnough_of_test (s : State) (a : Action) (h : strongEnoughTest s a = true) :
    StrongEnough s a := by
  cases a with
  | set o f r =>
    cases r with
    | none => trivial
    | some x =>
      intro hp hget
      have hnone : ((s.objects o).links.get f).any (fun l => (s.links l).target = x) = false := by
        cases hl : (s.objects o).links.get f with
        | none => rfl
        | some l => simpa using hget l hl
      simpa [strongEnoughTest, hp, hnone] using h
  | initStrong d => trivial
  | incStrong o => trivial
  | decStrong o => trivial
  | enter i c => trivial
  | iterate i c loop => trivial
  | delete i o => trivial

theorem run_strongEnough_selfLink : Run StrongEnough initial selfLink :=
  Run.replay strongEnough_of_test .start
    (show replayable strongEnoughTest initial
      [.initStrong false, .set 0 0 (some 0), .decStrong 0] = true by decide +kernel)

theorem run_noWeakOnly_selfLink : Event.assertFailed .recoverWeak ∉ selfLink.trace :=
  (run_noWeakOnly run_strongEnough_selfLink).2

/-- Without tasks there are no collectors, so a live object has a strong reference. -/
theorem Run.strong_of_quiet {s : State} (run : Run StrongEnough initial s) (hw : s.work = [])
    (hr : s.running = []) {x : ℕ} (hx : Live s x) :
    0 < s.claims x ∨ ∃ y, Live s y ∧ StrongEdge s y x := by
  have h := run.strictSound
  have hdead : ∀ c, ¬ Alive s c := by
    intro c hc
    have htask := h.tasks.alive hc
    simp [runTasks, hw, hr] at htask
  have hnone : (s.objects x).collector = none := by
    cases hc : (s.objects x).collector with
    | none => rfl
    | some c => exact absurd (h.collectors.object_alive hc).2 (hdead c)
  have hne : (s.objects x).count (s.objects x).which ≠ 0 := by
    intro hz
    rcases ((h.settled x (Set.mem_univ x) hx hz).2 trivial).2 with hm | ⟨_, hm⟩
    · rw [hw] at hm
      cases hm
    · exact hm hnone
  have hlist : occurrences s .collect x = 0 := by
    apply Finset.sum_eq_zero
    intro c _
    have hempty := h.collectors.empty (r := (c, .collect)) (.inr (hdead c))
    change ((s.safelist (c, .collect)).data.count x : ℤ) = 0
    rw [hempty]
    rfl
  by_cases hclaim : 0 < s.claims x
  · exact .inl hclaim
  · right
    have hcount := h.balance.count x (s.objects x).which
    rw [sideRefs, if_pos rfl, hlist] at hcount
    have hpos : 0 < strongRefs s (tableLinks s) x (s.objects x).which := by
      have hnn := h.balance.count_nonneg x (s.objects x).which
      simp [restLedger] at hcount
      omega
    obtain ⟨l, hl, ht, hp, hwl⟩ := exists_of_tally_pos hpos
    obtain ⟨y, hy⟩ := h.mem_tableLinks.mp hl
    refine ⟨y, h.live_of_entry hy, l, hy, ht, hp, ?_⟩
    rw [hwl]

/-- Completeness at quiescence. -/
theorem run_complete {s : State} (run : Run StrongEnough initial s) (hw : s.work = [])
    (hr : s.running = []) (o : ℕ) (ho : Live s o) : Reachable s o := by
  have hany : Run anyStep initial s := run.mono fun _ _ _ => trivial
  have hfin : {x | Live s x}.Finite :=
    (Set.finite_lt_nat s.objectCount).subset fun x hx => hx.1
  obtain ⟨r, _, hclaim, hpath⟩ := hany.strong_acyclic.reached hfin
    (P := fun x => 0 < s.claims x) (fun x hx => (run.strong_of_quiet hw hr hx).imp id id) ho
  have hsub : ∀ a b, StrongEdge s a b → Edge s a b := fun a b ⟨l, hl, ht, _⟩ => ⟨l, hl, ht⟩
  exact ⟨r, hclaim, Relation.ReflTransGen.mono hsub r o hpath⟩

/-- The object 3 gets a weak link while it is phantomized, keeps it past the clean loop, and
loses its table and the weak link then. -/
def leaked : List Action :=
  [.initStrong false, .initStrong false, .initStrong false, .initStrong false,
    .set 0 0 (some 2), .set 3 0 (some 0), .set 1 1 (some 0), .set 0 0 (some 3), .decStrong 0,
    .decStrong 3, .enter 1 1, .iterate 0 1 .merged, .enter 0 0, .iterate 1 0 .merged,
    .iterate 1 0 .collect, .iterate 1 0 .collect, .iterate 0 1 .collect, .iterate 0 1 .collect,
    .iterate 0 1 .recovery, .iterate 0 1 .recovery, .iterate 1 0 .recovery, .iterate 0 1 .rebuild,
    .set 2 0 (some 3), .iterate 1 0 .rebuild, .iterate 0 1 .clean, .iterate 1 0 .clean,
    .iterate 0 1 .clean, .set 0 0 none, .iterate 0 1 .exit, .iterate 0 0 .exit, .enter 0 1,
    .iterate 0 1 .merged, .iterate 0 1 .merged, .iterate 0 1 .collect, .iterate 0 1 .recovery,
    .iterate 0 1 .recovery, .iterate 0 1 .rebuild, .iterate 0 1 .clean, .iterate 0 1 .clean,
    .iterate 0 1 .exit, .set 3 0 none, .set 2 0 none, .enter 0 1, .iterate 0 1 .merged,
    .iterate 0 1 .collect, .iterate 0 1 .recovery, .iterate 0 1 .rebuild, .iterate 0 1 .clean,
    .iterate 0 1 .exit]

/-- An object without a claim that no table links to is not reachable. -/
theorem not_reachable_of_unlinked {s : State} (run : Run anyStep initial s) {x : ℕ}
    (hc : s.claims x = 0)
    (hl : ∀ o < s.objectCount, ∀ l ∈ (s.objects o).links.values, (s.links l).target ≠ x) :
    ¬ Reachable s x := by
  rintro ⟨r, hr, hpath⟩
  rcases hpath.cases_tail with rfl | ⟨y, _, l, hy, ht⟩
  · omega
  · exact hl y (run.anySound.live_of_entry hy).1 l hy ht

theorem run_leaks_object : ¬ ∀ s, Run anyStep initial s → s.work = [] → s.running = [] →
    ∀ o, Live s o → Reachable s o := by
  intro h
  have run : Run anyStep initial (replay initial leaked) :=
    Run.replay (fun _ _ _ => trivial) .start
      (show replayable (fun _ _ => true) initial leaked = true by decide +kernel)
  refine not_reachable_of_unlinked run (x := 3) (by decide +kernel) (by decide +kernel) ?_
  exact h _ run (by decide +kernel) (by decide +kernel) 3 (by constructor <;> decide +kernel)

/-- All tasks are done and two objects are deleted. One of the links was weak. -/
theorem run_complete_deadCycle : ((replay initial deadCycle).objects 0).freed = true ∧
    ((replay initial deadCycle).objects 1).freed = true ∧
    Live (replay initial deadCycle) 2 ∧ Reachable (replay initial deadCycle) 2 := by
  have run : Run StrongEnough initial (replay initial deadCycle) :=
    Run.replay strongEnough_of_test .start
      (show replayable strongEnoughTest initial deadCycle = true by decide +kernel)
  have hlive : Live (replay initial deadCycle) 2 := by constructor <;> decide +kernel
  exact ⟨by decide +kernel, by decide +kernel, hlive,
    run_complete run (by decide +kernel) (by decide +kernel) 2 hlive⟩

end Acid

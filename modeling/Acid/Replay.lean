import Acid.Run

set_option autoImplicit false

/-!
# Runs given by a list of steps

A list of steps can be checked by evaluation: reachability is searched from the
roots, in as many rounds as there are objects.
-/
namespace Acid

def children (s : State) (o : ℕ) : List ℕ := (s.objects o).links.values.map fun l => (s.links l).target

/-- One round of the search after another. -/
def reachedFrom (s : State) : ℕ → List ℕ → List ℕ
  | 0, xs => xs
  | n + 1, xs => reachedFrom s n (xs ++ (xs.flatMap (children s)).dedup.filter (· ∉ xs))

def roots (s : State) : List ℕ := (List.range s.objectCount).filter (0 < s.claims ·)

def reached (s : State) : List ℕ := reachedFrom s s.objectCount (roots s)

theorem reachable_of_mem_reachedFrom {s : State} {n : ℕ} {xs : List ℕ}
    (h : ∀ x ∈ xs, Reachable s x) {x : ℕ} (hx : x ∈ reachedFrom s n xs) : Reachable s x := by
  induction n generalizing xs with
  | zero => exact h x hx
  | succ n ih =>
    apply ih _ hx
    intro y hy
    rcases List.mem_append.mp hy with hy | hy
    · exact h y hy
    · obtain ⟨hy, _⟩ := List.mem_filter.mp hy
      obtain ⟨z, hz, hyz⟩ := List.mem_flatMap.mp (List.mem_dedup.mp hy)
      obtain ⟨l, hl, rfl⟩ := List.mem_map.mp hyz
      obtain ⟨r, hr, hpath⟩ := h z hz
      exact ⟨r, hr, hpath.tail ⟨l, hl, rfl⟩⟩

theorem reachable_of_mem_reached {s : State} {x : ℕ} (hx : x ∈ reached s) : Reachable s x := by
  refine reachable_of_mem_reachedFrom (fun r hr => ?_) hx
  exact ⟨r, by simpa using (List.mem_filter.mp hr).2, .refl⟩

/-- A sufficient test for `Enabled`. -/
def enabledTest (s : State) : Action → Bool
  | .initStrong _ => true
  | .incStrong o => o ∈ reached s
  | .decStrong o => 0 < s.claims o
  | .set o _ none => o ∈ reached s
  | .set o _ (some r) => o ∈ reached s && r ∈ reached s
  | .enter i c => s.work[i]? = some (.run c)
  | .iterate i c loop => s.running[i]? = some (c, loop)
  | .delete i o => s.work[i]? = some (.delete o)

theorem enabled_of_test {s : State} {a : Action} (h : enabledTest s a = true) : Enabled s a := by
  cases a with
  | initStrong d => trivial
  | incStrong o => exact reachable_of_mem_reached (by simpa [enabledTest] using h)
  | set o f r =>
    cases r with
    | none => exact reachable_of_mem_reached (by simpa [enabledTest] using h)
    | some x =>
      have h' : o ∈ reached s ∧ x ∈ reached s := by simpa [enabledTest] using h
      exact ⟨reachable_of_mem_reached h'.1, reachable_of_mem_reached h'.2⟩
  | decStrong o => simpa [enabledTest, Enabled] using h
  | enter i c => simpa [enabledTest, Enabled] using h
  | iterate i c loop => simpa [enabledTest, Enabled] using h
  | delete i o => simpa [enabledTest, Enabled] using h

def replay (s : State) (as : List Action) : State := as.foldl exec s

/-- Each step of the list is enabled and passes the test. -/
def replayable (test : State → Action → Bool) : State → List Action → Bool
  | _, [] => true
  | s, a :: as => enabledTest s a && test s a && replayable test (exec s a) as

theorem Run.replay {ok : State → Action → Prop} {test : State → Action → Bool}
    (htest : ∀ s a, test s a = true → ok s a) {s₀ s : State} (run : Run ok s₀ s) {as : List Action}
    (h : replayable test s as = true) : Run ok s₀ (replay s as) := by
  induction as generalizing s with
  | nil => exact run
  | cons a as ih =>
    simp only [replayable, Bool.and_eq_true] at h
    exact ih (.step run (enabled_of_test h.1.1) (htest s a h.1.2)) h.2

/-- Two objects that link to each other, and one of them to a third, lose their claims. Of their
two collectors the first joins the second one, which has them deleted. -/
def deadCycle : List Action :=
  [.initStrong false, .initStrong false, .initStrong false, .set 0 0 (some 1), .set 1 0 (some 0),
    .set 0 1 (some 2), .decStrong 0, .decStrong 1, .enter 0 0, .iterate 0 0 .merged,
    .iterate 0 0 .collect, .iterate 0 0 .collect, .iterate 0 0 .recovery, .iterate 0 0 .rebuild,
    .iterate 0 0 .clean, .iterate 0 0 .exit, .enter 0 1, .iterate 0 1 .merged, .iterate 0 1 .merged,
    .iterate 0 1 .collect, .iterate 0 1 .collect, .iterate 0 1 .collect, .iterate 0 1 .recovery,
    .iterate 0 1 .recovery, .iterate 0 1 .recovery, .iterate 0 1 .recovery, .iterate 0 1 .rebuild,
    .iterate 0 1 .clean, .iterate 0 1 .clean, .iterate 0 1 .clean, .iterate 0 1 .clean,
    .iterate 0 1 .exit, .delete 0 1, .delete 0 0, .enter 0 1, .iterate 0 1 .merged,
    .iterate 0 1 .collect, .iterate 0 1 .recovery, .iterate 0 1 .rebuild, .iterate 0 1 .clean,
    .iterate 0 1 .exit]

theorem run_deadCycle : Run anyStep initial (replay initial deadCycle) :=
  Run.replay (fun _ _ _ => trivial) .start
    (show replayable (fun _ _ => true) initial deadCycle = true by decide +kernel)

end Acid

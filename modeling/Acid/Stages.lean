import Acid.Sequential

set_option autoImplicit false

/-!
# What the lists hold while one collector runs

The collector that runs empties its lists one after the other; the others wait with
objects to collect, or merged from a collector that has been forwarded to them.
-/
namespace Acid

/-- The lists of a collector that does not run. -/
def ListName.waits : ListName → Bool
  | .collect => true
  | .merged => true
  | _ => false

/-- The lists of a collector that is in a loop. -/
def Loop.holds : Loop → ListName → Bool
  | .merged, n => n = .merged ∨ n = .collect ∨ n = .recovery
  | .collect, n => n = .collect ∨ n = .recovery
  | .recovery, n => n = .recovery ∨ n = .rebuild ∨ n = .clean
  | .rebuild, n => n = .rebuild ∨ n = .clean
  | .clean, n => n = .clean
  | .exit, _ => false

/-- Collector `c` is in the given loop, and all others wait. -/
def Staged (c : ℕ) (loop : Loop) (d : Layout) : Prop :=
  ∀ r : ListRef, d.data r ≠ [] → (if r.1 = c then loop.holds r.2 else r.2.waits) = true

/-- The collectors whose lists hold objects. -/
def Layout.Active (d : Layout) (a : ℕ) : Prop := ∃ n, d.data (a, n) ≠ []

/-- Apart from the one that `c` leads to, only collectors active in `d` are active. -/
def Confined (d : Layout) (c : ℕ) (e : Layout) : Prop :=
  ∀ a, e.Active a → a = e.root c ∨ d.Active a

namespace Layout

/-- What one iteration of a loop of `c` that polls `obj` does to the lists. -/
inductive Iterates (c obj : ℕ) (d : Layout) : Loop → Layout → Prop where
  | merged : Iterates c obj d .merged ((d.poll (c, .merged)).push (c, .recovery) obj)
  | collect {e : Layout} (joins : Joins c (d.poll (c, .collect)) e) :
      Iterates c obj d .collect (e.push (e.root c, if e.root c = c then .recovery else .merged) obj)
  | recovery (xs : List ℕ) :
      Iterates c obj d .recovery (((d.poll (c, .recovery)).rebuild c xs).push (c, .clean) obj)
  | rebuild (xs : List ℕ) : Iterates c obj d .rebuild ((d.poll (c, .rebuild)).rebuild c xs)
  | clean : Iterates c obj d .clean (d.poll (c, .clean))

variable {d : Layout}

theorem push_ne_nil {r q : ListRef} {x : ℕ} (h : (d.push r x).data q ≠ []) :
    q = r ∨ d.data q ≠ [] := by
  by_cases hq : q = r
  · exact .inl hq
  · rw [d.push_data_ne x hq] at h
    exact .inr h

theorem poll_ne_nil {r q : ListRef} (h : (d.poll r).data q ≠ []) : d.data q ≠ [] := by
  unfold poll at h
  dsimp only at h
  rw [Function.update_apply] at h
  split_ifs at h with hq
  · rw [hq]
    intro hnil
    rw [hnil] at h
    exact h rfl
  · exact h

theorem rebuild_ne_nil {c : ℕ} {xs : List ℕ} {q : ListRef} (h : (d.rebuild c xs).data q ≠ []) :
    q = (c, .rebuild) ∨ d.data q ≠ [] := by
  by_cases hq : q = (c, .rebuild)
  · exact .inl hq
  · rw [d.rebuild_data_ne xs hq] at h
    exact .inr h

/-- What a collector gets comes from the lists that are routed there. -/
theorem merge_ne_nil {t c : ℕ} {q : ListRef} (h : (d.merge t c).data q ≠ []) :
    q.1 ≠ c ∧ (d.data q ≠ [] ∨ (q.1 = t ∧ ∃ n, route n = q.2 ∧ d.data (c, n) ≠ [])) := by
  unfold merge at h
  dsimp only at h
  split_ifs at h with hc ht
  · exact absurd rfl h
  · refine ⟨hc, ?_⟩
    by_cases hq : d.data q = []
    · rw [hq, List.nil_append] at h
      refine .inr ⟨ht, ?_⟩
      cases hn : q.2 with
      | collect =>
        rw [hn] at h
        exact ⟨.collect, rfl, h⟩
      | rebuild =>
        rw [hn] at h
        exact ⟨.rebuild, rfl, h⟩
      | merged =>
        rw [hn] at h
        by_contra hall
        push Not at hall
        apply h
        simp only [ceded]
        rw [hall .merged rfl, hall .clean rfl, hall .recovery rfl]
        rfl
      | recovery =>
        rw [hn] at h
        exact absurd rfl h
      | clean =>
        rw [hn] at h
        exact absurd rfl h
    · exact .inl hq
  · exact ⟨hc, .inl h⟩

end Layout

namespace Staged
variable {c : ℕ} {loop : Loop} {d : Layout} (h : Staged c loop d)
include h

theorem poll (r : ListRef) : Staged c loop (d.poll r) :=
  fun q hq => h q (Layout.poll_ne_nil hq)

theorem push {r : ListRef} (x : ℕ) (hr : (if r.1 = c then loop.holds r.2 else r.2.waits) = true) :
    Staged c loop (d.push r x) := by
  intro q hq
  rcases Layout.push_ne_nil hq with heq | hold
  · rw [heq]
    exact hr
  · exact h q hold

theorem rebuild (xs : List ℕ) (hc : loop.holds .rebuild = true) : Staged c loop (d.rebuild c xs) := by
  intro q hq
  rcases Layout.rebuild_ne_nil hq with heq | hold
  · rw [heq, if_pos rfl]
    exact hc
  · exact h q hold

/-- A loop ends with its list empty. -/
theorem next (hloop : loop ≠ .exit) (hd : d.data (c, loop.list) = []) : Staged c loop.next d := by
  intro q hq
  have hold := h q hq
  split_ifs at hold ⊢ with hc
  · have hne : q.2 ≠ loop.list := by
      intro heq
      apply hq
      rw [← hd, ← heq, ← hc]
    cases loop with
    | merged =>
      simp only [Loop.holds, Loop.list, Loop.next, decide_eq_true_eq] at hold hne ⊢
      exact hold.resolve_left hne
    | collect =>
      simp only [Loop.holds, Loop.list, Loop.next, decide_eq_true_eq] at hold hne ⊢
      exact .inl (hold.resolve_left hne)
    | recovery =>
      simp only [Loop.holds, Loop.list, Loop.next, decide_eq_true_eq] at hold hne ⊢
      exact hold.resolve_left hne
    | rebuild =>
      simp only [Loop.holds, Loop.list, Loop.next, decide_eq_true_eq] at hold hne ⊢
      exact hold.resolve_left hne
    | clean =>
      simp only [Loop.holds, Loop.list, decide_eq_true_eq] at hold hne
      exact absurd hold hne
    | exit => exact absurd rfl hloop
  · exact hold

/-- A list outside of the stage is empty. -/
theorem nil {n : ListName} (hn : loop.holds n = false) : d.data (c, n) = [] := by
  by_contra hne
  have hold := h (c, n) hne
  rw [if_pos rfl, hn] at hold
  cases hold

end Staged

/-- The collect loop of `c` gives to the collect and merged lists of waiting collectors. -/
theorem Staged.joins {c : ℕ} {d e : Layout} (h : Staged c .collect d) (hj : Joins c d e) :
    Staged c .collect e := by
  have hcollect : ∀ a, (if a = c then Loop.collect.holds .collect else ListName.collect.waits) = true := by
    intro a
    split_ifs <;> rfl
  induction hj with
  | refl => exact h
  | push _ x ih => exact ih.push x (hcollect _)
  | @merge e f _ t hf ht hne ih =>
    have hstaged : Staged c .collect f := by
      rcases hf with heq | ⟨x, heq⟩
      · rw [heq]
        exact ih
      · rw [heq]
        exact ih.push x (hcollect t)
    have htc : t ≠ c := by
      intro heq
      apply hne
      rw [← heq, ht]
    intro q hq
    obtain ⟨_, hold | ⟨hqt, n, hn, hm⟩⟩ := Layout.merge_ne_nil hq
    · exact hstaged q hold
    · have hfrom := hstaged _ hm
      rw [if_neg (hqt ▸ htc), ← hn]
      cases n with
      | rebuild =>
        split_ifs at hfrom
        · exact absurd hfrom (show ¬ Loop.collect.holds .rebuild = true by decide)
        · exact absurd hfrom (show ¬ ListName.rebuild.waits = true by decide)
      | _ => rfl

/-- A loop leaves its collector in its stage. -/
theorem Staged.iterates {c obj : ℕ} {loop : Loop} {d e : Layout} (h : Staged c loop d)
    (hi : d.Iterates c obj loop e) : Staged c loop e := by
  cases hi with
  | merged => exact (h.poll _).push obj (by simp [Loop.holds])
  | collect hj =>
    apply ((h.poll _).joins hj).push obj
    dsimp only
    split_ifs
    · rfl
    · rfl
  | recovery xs => exact ((h.poll _).rebuild xs rfl).push obj (by simp [Loop.holds])
  | rebuild xs => exact (h.poll _).rebuild xs rfl
  | clean => exact h.poll _

/-- Dropped references and new links leave collectors waiting. -/
theorem Collects.waits {d e : Layout} (h : Collects d e)
    (hd : ∀ r : ListRef, d.data r ≠ [] → r.2.waits = true) (r : ListRef) (hr : e.data r ≠ []) :
    r.2.waits = true := by
  induction h generalizing r with
  | refl => exact hd r hr
  | push _ x _ ih =>
    rcases Layout.push_ne_nil hr with heq | hold
    · rw [heq]
      rfl
    · exact ih r hold
  | merge _ _ ih =>
    obtain ⟨_, hold | ⟨_, n, hn, hm⟩⟩ := Layout.merge_ne_nil hr
    · exact ih r hold
    · have hfrom := ih _ hm
      rw [← hn]
      cases n with
      | rebuild => cases hfrom
      | _ => rfl

namespace Confined
variable {d e : Layout} {c : ℕ}

theorem refl (c : ℕ) (d : Layout) : Confined d c d := fun _ ha => .inr ha

theorem poll (h : Confined d c e) (r : ListRef) : Confined d c (e.poll r) := by
  rintro a ⟨n, hn⟩
  exact h a ⟨n, Layout.poll_ne_nil hn⟩

theorem push (h : Confined d c e) (n : ListName) (x : ℕ) : Confined d c (e.push (e.root c, n) x) := by
  rintro a ⟨m, hm⟩
  rcases Layout.push_ne_nil hm with heq | hold
  · exact .inl (congrArg Prod.fst heq)
  · exact h a ⟨m, hold⟩

theorem rebuild (h : Confined d c e) (xs : List ℕ) (hc : e.root c = c) :
    Confined d c (e.rebuild c xs) := by
  rintro a ⟨m, hm⟩
  rcases Layout.rebuild_ne_nil hm with heq | hold
  · exact .inl ((congrArg Prod.fst heq).trans hc.symm)
  · exact h a ⟨m, hold⟩

theorem joins {f : Layout} (h : Confined d c e) (hj : Joins c e f) : Confined d c f := by
  induction hj with
  | refl => exact h
  | push _ x ih => exact ih.push .collect x
  | @merge e f _ t hf ht hne ih =>
    have hroot : (f.merge t (e.root c)).root c = t := by
      have hfc : f.root c = e.root c := by
        rcases hf with heq | ⟨x, heq⟩
        · rw [heq]
        · rw [heq]
          rfl
      unfold Layout.merge
      dsimp only
      rw [if_pos hfc]
    rintro a ⟨n, hn⟩
    rw [hroot]
    obtain ⟨hne', hold | ⟨hat, _⟩⟩ := Layout.merge_ne_nil hn
    · have hfe : a = t ∨ e.data (a, n) ≠ [] := by
        rcases hf with heq | ⟨x, heq⟩
        · exact .inr (heq ▸ hold)
        · rw [heq] at hold
          exact (Layout.push_ne_nil hold).imp (congrArg Prod.fst) id
      rcases hfe with hat | hae
      · exact .inl hat
      · exact .inr ((ih a ⟨n, hae⟩).resolve_left hne')
    · exact .inl hat

/-- Until its class joins another one, `c` is the only collector whose lists grow. -/
theorem iterates {f : Layout} {loop : Loop} {obj : ℕ} (h : Confined d c e) (hc : e.root c = c)
    (hi : e.Iterates c obj loop f) : Confined d c f := by
  have hpush : ∀ {g : Layout} (n : ListName), Confined d c g → g.root c = c →
      Confined d c (g.push (c, n) obj) := by
    intro g n hg hgc
    have hp := hg.push n obj
    rwa [hgc] at hp
  cases hi with
  | merged => exact hpush _ (h.poll _) hc
  | collect hj => exact ((h.poll _).joins hj).push _ obj
  | recovery xs => exact hpush _ ((h.poll _).rebuild xs hc) hc
  | rebuild xs => exact (h.poll _).rebuild xs hc
  | clean => exact h.poll _

end Confined
end Acid

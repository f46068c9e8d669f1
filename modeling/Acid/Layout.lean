import Acid.Collector

set_option autoImplicit false

/-!
# Where the objects of the lists go in the middle of a step

Between a poll and the end of its iteration, objects are only added to lists, and
collectors merged.
-/
namespace Acid

/-- What the lists hold, and the end of each collector's forward chain. -/
structure Layout where
  data : ListRef → List ℕ
  root : ℕ → ℕ

def layout (s : State) : Layout := ⟨fun r => (s.safelist r).data, collectorUpdate s⟩

namespace Layout

def push (d : Layout) (r : ListRef) (x : ℕ) : Layout :=
  { d with data := Function.update d.data r (d.data r ++ [x]) }

/-- The first element of a list is taken. -/
def poll (d : Layout) (r : ListRef) : Layout :=
  { d with data := Function.update d.data r (d.data r).tail }

/-- The rebuild list of `c` grows by the objects `xs`. -/
def rebuild (d : Layout) (c : ℕ) (xs : List ℕ) : Layout :=
  { d with data := Function.update d.data (c, .rebuild) (d.data (c, .rebuild) ++ xs) }

/-- What the list of name `n` gets from the lists of a collector that is forwarded. -/
def ceded (d : Layout) (c : ℕ) : ListName → List ℕ
  | .collect => d.data (c, .collect)
  | .merged => d.data (c, .merged) ++ d.data (c, .clean) ++ d.data (c, .recovery)
  | .rebuild => d.data (c, .rebuild)
  | .recovery => []
  | .clean => []

/-- Collector `c` is forwarded to `t`. -/
def merge (d : Layout) (t c : ℕ) : Layout where
  data r := if r.1 = c then [] else if r.1 = t then d.data r ++ d.ceded c r.2 else d.data r
  root a := if d.root a = c then t else d.root a

end Layout

inductive Moves (d : Layout) : Layout → Prop where
  | refl : Moves d d
  | push {e : Layout} (moves : Moves d e) {r : ListRef} (x : ℕ) (hn : r.2 ≠ .rebuild)
      (hr : e.root r.1 = r.1) : Moves d (e.push r x)
  | merge {e : Layout} (moves : Moves d e) {t c : ℕ} (ht : e.root t = t) (hc : e.root c = c)
      (hne : c ≠ t) : Moves d (e.merge t c)

/-- A property of layouts that additions and merges keep. -/
theorem Moves.keeps {d e : Layout} (P : Layout → Prop) (h : Moves d e) (hd : P d)
    (hpush : ∀ e (r : ListRef) x, P e → r.2 ≠ .rebuild → e.root r.1 = r.1 → P (e.push r x))
    (hmerge : ∀ e t c, P e → e.root t = t → e.root c = c → c ≠ t → P (e.merge t c)) : P e := by
  induction h with
  | refl => exact hd
  | push _ x hn hr ih => exact hpush _ _ x ih hn hr
  | merge _ ht hc hne ih => exact hmerge _ _ _ ih ht hc hne

namespace Layout

/-- Some list other than a rebuild list holds `x`. -/
def Lists (d : Layout) (x : ℕ) : Prop := ∃ r : ListRef, r.2 ≠ .rebuild ∧ x ∈ d.data r

variable {d : Layout} {x : ℕ}

theorem mem_push {r q : ListRef} (o : ℕ) (h : x ∈ d.data q) : x ∈ (d.push r o).data q := by
  unfold push
  dsimp only
  rw [Function.update_apply]
  split_ifs with hq
  · rw [hq] at h
    exact List.mem_append_left _ h
  · exact h

theorem mem_push_self (r : ListRef) (o : ℕ) : o ∈ (d.push r o).data r := by
  simp [push]

theorem mem_rebuild {c : ℕ} {q : ListRef} (xs : List ℕ) (h : x ∈ d.data q) :
    x ∈ (d.rebuild c xs).data q := by
  unfold rebuild
  dsimp only
  rw [Function.update_apply]
  split_ifs with hq
  · rw [hq] at h
    exact List.mem_append_left _ h
  · exact h

theorem mem_poll {r q : ListRef} {o : ℕ} {rest : List ℕ} (hd : d.data r = o :: rest)
    (h : x ∈ d.data q) (hne : q = r → x ≠ o) : x ∈ (d.poll r).data q := by
  unfold poll
  dsimp only
  rw [Function.update_apply]
  split_ifs with hq
  · rw [hq, hd, List.mem_cons] at h
    rw [hd]
    exact h.resolve_left (hne hq)
  · exact h

/-- The lists of the collector that is forwarded end up in those of the other. -/
theorem mem_merge {t c : ℕ} {n : ListName} (hne : c ≠ t) (h : x ∈ d.ceded c n) :
    x ∈ (d.merge t c).data (t, n) := by
  unfold merge
  dsimp only
  rw [if_neg (Ne.symm hne), if_pos rfl]
  exact List.mem_append_right _ h

theorem mem_merge_of_ne {t c : ℕ} {r : ListRef} (hr : r.1 ≠ c) (h : x ∈ d.data r) :
    x ∈ (d.merge t c).data r := by
  unfold merge
  dsimp only
  rw [if_neg hr]
  split_ifs
  · exact List.mem_append_left _ h
  · exact h

theorem Lists.push (h : d.Lists x) (r : ListRef) (o : ℕ) : (d.push r o).Lists x := by
  obtain ⟨q, hq, hx⟩ := h
  exact ⟨q, hq, mem_push o hx⟩

theorem Lists.rebuild (h : d.Lists x) (c : ℕ) (xs : List ℕ) : (d.rebuild c xs).Lists x := by
  obtain ⟨q, hq, hx⟩ := h
  exact ⟨q, hq, mem_rebuild xs hx⟩

theorem Lists.merge (h : d.Lists x) {t c : ℕ} (hne : c ≠ t) : (d.merge t c).Lists x := by
  obtain ⟨⟨a, n⟩, hn, hx⟩ := h
  by_cases ha : a = c
  · subst a
    cases n with
    | collect => exact ⟨(t, .collect), by simp, mem_merge hne hx⟩
    | merged =>
      exact ⟨(t, .merged), by simp, mem_merge hne (List.mem_append_left _ (List.mem_append_left _ hx))⟩
    | clean =>
      exact ⟨(t, .merged), by simp, mem_merge hne (List.mem_append_left _ (List.mem_append_right _ hx))⟩
    | recovery => exact ⟨(t, .merged), by simp, mem_merge hne (List.mem_append_right _ hx)⟩
    | rebuild => exact absurd rfl hn
  · exact ⟨(a, n), hn, mem_merge_of_ne ha hx⟩

theorem Lists.poll (h : d.Lists x) {r : ListRef} {o : ℕ} {rest : List ℕ}
    (hd : d.data r = o :: rest) (hne : x ≠ o) : (d.poll r).Lists x := by
  obtain ⟨q, hq, hx⟩ := h
  exact ⟨q, hq, mem_poll hd hx fun _ => hne⟩

end Layout

theorem Moves.lists {d e : Layout} (h : Moves d e) {x : ℕ} (hx : d.Lists x) : e.Lists x :=
  h.keeps (fun e => e.Lists x) hx (fun _ r o hx _ _ => hx.push r o)
    fun _ _ _ hx _ _ hne => hx.merge hne

end Acid

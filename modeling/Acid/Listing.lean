import Acid.LinkFrame
import Acid.Merging

set_option autoImplicit false

/-!
# What the operations do to the contents of the lists
-/
namespace Acid

/-- Moving a collector pointer changes reference counts of collectors only. -/
theorem counterRepoint_field {α : Type} (p : Collector → α)
    (hp : ∀ k n, p { k with refCount := n } = p k) (s : State) (old new : Option ℕ) (d : ℕ) :
    p ((counterRepoint s old new).collectors d) = p (s.collectors d) := by
  have hinc : ∀ (u : State) (c : ℕ), p ((counterIncRef u c).collectors d) = p (u.collectors d) := by
    intro u c
    rw [counterIncRef, State.modifyCollector_collectors]
    split_ifs with hd
    · rw [hp, hd]
    · rfl
  have hdec : ∀ (u : State) (c : ℕ), p ((counterDecRef u c).collectors d) = p (u.collectors d) := by
    intro u c
    rw [counterDecRef, State.modifyCollector_collectors, State.check_collectors]
    split_ifs with hd
    · rw [hp, hd]
    · rfl
  cases new <;> cases old
  · rfl
  · exact hdec s _
  · exact hinc s _
  · exact (hdec _ _).trans (hinc s _)

theorem objectSetCollector_field {α : Type} (p : Collector → α)
    (hp : ∀ k n, p { k with refCount := n } = p k) (s : State) (x : ℕ) (c : Option ℕ) (d : ℕ) :
    p ((objectSetCollector s x c).collectors d) = p (s.collectors d) := by
  unfold objectSetCollector
  split_ifs
  · rfl
  · exact counterRepoint_field p hp s _ c d

theorem objectSetCollector_safelist (s : State) (x : ℕ) (c : Option ℕ) (r : ListRef) :
    (objectSetCollector s x c).safelist r = s.safelist r :=
  objectSetCollector_field (fun k => k.lists r.2) (fun _ _ => rfl) s x c r.1

/-- An element of a list whose elements hold a phantom count. -/
def Listed (s : State) (x : ℕ) : Prop :=
  ∃ r : ListRef, r.2 ≠ .rebuild ∧ x ∈ (s.safelist r).data

theorem safelistAdd_mem (s : State) (q r : ListRef) (o : ℕ) {x : ℕ}
    (hx : x ∈ (s.safelist r).data) : x ∈ ((safelistAdd s q o).safelist r).data := by
  have hpush : ∀ p, x ∈ ((safelistPush s p o).safelist r).data := by
    intro p
    rw [safelistPush, State.modifySafelist_safelist]
    have hsame : ∀ a, (counterIncStore s p.1).safelist a = s.safelist a := by
      intro a
      rw [State.safelist, counterIncStore, State.modifyCollector_collectors]
      split_ifs with ha
      · rw [State.safelist, ha]
      · rfl
    rw [hsame, hsame]
    split_ifs with hr
    · rw [hr] at hx
      exact List.mem_append_left _ hx
    · exact hx
  unfold safelistAdd
  split
  · exact hpush _
  · exact hpush _

/-- A poll takes its object only. -/
theorem safelistPoll_mem {s : State} {q r : ListRef} {o x : ℕ} {rest : List ℕ}
    (hd : (s.safelist q).data = o :: rest) (hx : x ∈ (s.safelist r).data) (hne : x ≠ o) :
    x ∈ ((safelistPoll s q).1.safelist r).data := by
  rw [safelistPoll_cons hd]
  dsimp only
  have hsame : (counterDecStore s q.1).safelist r = s.safelist r := by
    rw [State.safelist, counterDecStore, State.modifyCollector_collectors, State.check_collectors]
    split_ifs with ha
    · rw [State.safelist, ha]
    · rfl
  rw [State.modifySafelist_safelist]
  split_ifs with hr
  · subst r
    rw [hd, List.mem_cons] at hx
    exact hx.resolve_left hne
  · rw [hsame]
    exact hx

theorem rebuildCollector_safelist (s : State) (x : ℕ) (r : ListRef) :
    (rebuildCollector s x).safelist r = s.safelist r := by
  unfold rebuildCollector
  split_ifs
  · exact objectSetCollector_safelist s x none r
  · rfl

/-- Rebuilding takes nothing from a list. -/
theorem objectRebuildLink_mem (c : ℕ) (s : State) (l : ℕ) {r : ListRef} {x : ℕ}
    (hm : x ∈ (s.safelist r).data) : x ∈ ((objectRebuildLink c s l).safelist r).data := by
  rw [objectRebuildLink_eq]
  dsimp only
  split_ifs
  · have hs : ∀ (u : State) (p : Prop) [Decidable p] (e : Event) (y : ℕ), x ∈ (u.safelist r).data →
        x ∈ ((rebuildQueue c (u.check p e) y).safelist r).data := by
      intro u p _ e y hu
      have hq : ((u.check p e).safelist r).data = (u.safelist r).data := by
        rw [State.safelist, State.check_collectors]
        rfl
      rw [← hq] at hu
      unfold rebuildQueue
      split_ifs
      · exact safelistAdd_mem _ _ _ _ hu
      · exact hu
    apply hs
    have hcol := rebuildCollector_safelist (rebuildCount s l) (s.links l).target r
    change x ∈ ((rebuildCollector (rebuildCount s l) (s.links l).target).safelist r).data
    rw [hcol]
    exact hm
  · exact hm

theorem objectRebuildLink_listed (c : ℕ) (s : State) (l : ℕ) {x : ℕ} (hx : Listed s x) :
    Listed (objectRebuildLink c s l) x := by
  obtain ⟨r, hr, hm⟩ := hx
  exact ⟨r, hr, objectRebuildLink_mem c s l hm⟩

/-- Rebuilding adds strong and weak references only. -/
theorem objectRebuildLink_count (c : ℕ) (s : State) (l x : ℕ) (b : Bool) :
    (s.objects x).count b ≤ ((objectRebuildLink c s l).objects x).count b := by
  have hcount : ∀ (u : State) (p : Prop) [Decidable p] (e : Event) (y : ℕ),
      ((rebuildQueue c (u.check p e) y).objects x).count b = (u.objects x).count b := by
    intro u p _ e y
    unfold rebuildQueue
    split_ifs
    · rw [(safelistAdd_same _ _ _).objects, State.check_objects]
    · rw [State.check_objects]
  have hcol : ∀ (u : State) (y : ℕ),
      ((rebuildCollector u y).objects x).count = (u.objects x).count := by
    intro u y
    unfold rebuildCollector
    split_ifs
    · exact (objectSetCollector_count u y none x).1
    · rfl
  rw [objectRebuildLink_eq]
  dsimp only
  split_ifs
  · rw [hcount]
    change _ ≤ ((rebuildCollector (rebuildCount s l) (s.links l).target).objects x).count b
    rw [hcol, rebuildCount, State.modifyObject_objects]
    split_ifs with hx
    · rw [State.modifyObject_objects_self, ← hx]
      by_cases hb : b = rebuildWhich s l
      · simp [hb, State.modifyLink]
      · simp [hb, State.modifyLink]
    · rw [State.modifyObject_objects_ne _ _ hx]
      rfl
  · rfl

end Acid

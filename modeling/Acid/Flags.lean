import Acid.Accounting
import Acid.HeapStep
import Acid.SinkGraph

set_option autoImplicit false

/-!
# The flags of links and the strong graph

A link in a table is phantomized exactly when its owner is, so a phantomized object
has no strong link, and new strong links lead to objects without one.
-/
namespace Acid
open SinkGraph

structure Flags (s : State) : Prop where
  agree : ∀ {o l}, l ∈ (s.objects o).links.values →
    (s.links l).phantomized = (s.objects o).phantomized
  complete : ∀ o, (s.objects o).phantomizationComplete = true

/-- The link tables after each step, with the links that stay. -/
theorem Flags.step {s s' : State} {ls ms : List ℕ} (h : Flags s) (ht : Tables s)
    (hs : HeapStep s s' ls ms) : Flags s' := by
  have hother : ∀ {obj o l}, o ≠ obj → l ∈ (s.objects o).links.values →
      l ∉ (s.objects obj).links.values := by
    intro obj o l ho hl hl'
    exact ho ((ht.owned hl).2.symm.trans (ht.owned hl').2)
  have hremoved : ∀ {obj : ℕ} {f : Object → Object},
      (∀ a, (f a).links.values = [] ∧ (f a).phantomized = a.phantomized ∧
        (f a).phantomizationComplete = a.phantomizationComplete) →
      SameHeap (s.modifyObject obj f) s' → (∀ k, s'.links k = freedLinks s obj k) → Flags s' := by
    intro obj f hf heap links
    constructor
    · intro o l hl
      rw [heap.table, State.modifyObject_objects] at hl
      rw [heap.phantomized, State.modifyObject_objects, links, freedLinks]
      by_cases ho : o = obj
      · rw [if_pos ho, (hf _).1] at hl
        cases hl
      · rw [if_neg ho] at hl ⊢
        rw [if_neg (hother ho hl)]
        exact h.agree hl
    · intro o
      rw [heap.complete, State.modifyObject_objects]
      split_ifs
      · rw [(hf _).2.2]
        exact h.complete obj
      · exact h.complete o
  cases hs with
  | quiet heap links =>
    constructor
    · intro o l hl
      rw [heap.table] at hl
      rw [heap.phantomized, links]
      exact h.agree hl
    · intro o
      rw [heap.complete]
      exact h.complete o
  | init d heap links =>
    constructor
    · intro o l hl
      rw [heap.table, initHeap] at hl
      rw [heap.phantomized, links, initHeap]
      by_cases ho : o = s.objectCount
      · subst o
        simp only [Function.update_self, values_new] at hl
        cases hl
      · simp only [Function.update_of_ne ho] at hl ⊢
        exact h.agree hl
    · intro o
      rw [heap.complete, initHeap]
      by_cases ho : o = s.objectCount
      · simp [ho]
      · simpa only [Function.update_of_ne ho] using h.complete o
  | clear obj f heap links =>
    constructor
    · intro o l hl
      rw [heap.table, State.modifyObject_objects] at hl
      rw [heap.phantomized, State.modifyObject_objects, links]
      split_ifs at hl ⊢ with ho
      · exact h.agree ((HashTable.mem_values_remove (ht.nodup obj) f l).mp hl).1
      · exact h.agree hl
    · intro o
      rw [heap.complete, State.modifyObject_objects]
      split_ifs
      · exact h.complete obj
      · exact h.complete o
  | link obj f x live named anew heap links =>
    constructor
    · intro o l hl
      rw [heap.table, linkAdded_objects] at hl
      rw [heap.phantomized, linkAdded_objects, links]
      have hfresh : ∀ {y k}, k ∈ (s.objects y).links.values → k ≠ s.linkCount :=
        fun hk => Nat.ne_of_lt (ht.owned hk).1
      split_ifs at hl with ho
      · subst o
        rw [if_pos rfl]
        rcases (HashTable.mem_values_add (ht.nodup obj) f s.linkCount l).mp hl with rfl | ⟨hl, _⟩
        · rw [if_pos rfl]
          rfl
        · rw [if_neg (hfresh hl)]
          exact h.agree hl
      · rw [if_neg ho, if_neg (hfresh hl)]
        exact h.agree hl
    · intro o
      rw [heap.complete, linkAdded_objects]
      split_ifs
      · exact h.complete obj
      · exact h.complete o
  | phantomize obj heap links =>
    constructor
    · intro o l hl
      rw [heap.table, State.modifyObject_objects] at hl
      rw [heap.phantomized, State.modifyObject_objects, links]
      by_cases ho : o = obj
      · subst o
        rw [if_pos rfl] at hl ⊢
        change l ∈ (s.objects obj).links.values at hl
        cases hp : (s.objects obj).phantomized with
        | false => simp [hl, phantomizeRecord]
        | true =>
          rw [if_neg (by simp), h.agree hl, hp]
          rfl
      · rw [if_neg ho] at hl ⊢
        rw [if_neg fun hm => hother ho hl hm.2]
        exact h.agree hl
    · intro o
      rw [heap.complete, State.modifyObject_objects]
      split_ifs
      · simp [phantomizeRecord, h.complete obj]
      · exact h.complete o
  | recover obj strong heap links =>
    constructor
    · intro o l hl
      rw [heap.table, State.modifyObject_objects] at hl
      rw [heap.phantomized, State.modifyObject_objects, links]
      by_cases ho : o = obj
      · subst o
        rw [if_pos rfl] at hl ⊢
        change l ∈ (s.objects obj).links.values at hl
        cases hp : (s.links l).phantomized with
        | true => simp [hl, recoverRecord]
        | false =>
          rw [if_neg (by simp)]
          exact hp
      · rw [if_neg ho] at hl ⊢
        rw [if_neg fun hm => hother ho hl hm.1]
        exact h.agree hl
    · intro o
      rw [heap.complete, State.modifyObject_objects]
      split_ifs
      · exact h.complete obj
      · exact h.complete o
  | empty obj heap links =>
    exact hremoved (f := emptyRecord) (fun a => ⟨emptyRecord_values a, rfl, rfl⟩) heap links
  | delete obj heap links =>
    exact hremoved (f := deletedRecord) (fun a => ⟨deletedRecord_values a, rfl, rfl⟩) heap links

/-- The strong links. -/
def StrongEdge (s : State) (a b : ℕ) : Prop :=
  ∃ l ∈ (s.objects a).links.values, (s.links l).target = b ∧
    (s.links l).phantomized = false ∧ (s.links l).which = (s.objects b).which

theorem StrongEdge.not_of_phantomized {s : State} (h : Flags s) {a : ℕ}
    (ha : (s.objects a).phantomized = true) (b : ℕ) : ¬ StrongEdge s a b := by
  rintro ⟨l, hl, _, hp, _⟩
  rw [h.agree hl, ha] at hp
  cases hp

theorem StrongEdge.not_of_empty {s : State} {a : ℕ} (ha : (s.objects a).links.values = []) (b : ℕ) :
    ¬ StrongEdge s a b := by
  rintro ⟨l, hl, _⟩
  rw [ha] at hl
  cases hl

/-- A strong link that a step makes leads to an object that has none. -/
theorem StrongEdge.step {s s' : State} {ls ms : List ℕ} (h : Flags s) (ht : Tables s)
    (hs : HeapStep s s' ls ms) {a b : ℕ} (hab : StrongEdge s' a b) :
    StrongEdge s a b ∨ ∀ c, ¬ StrongEdge s' b c := by
  have h' := h.step ht hs
  obtain ⟨l, hl, hb, hp, hw⟩ := hab
  have hremoved : ∀ {obj : ℕ} {f : Object → Object},
      (∀ a, (f a).links.values = [] ∧ (f a).which = a.which) →
      SameHeap (s.modifyObject obj f) s' → (∀ k, s'.links k = freedLinks s obj k) →
      StrongEdge s a b := by
    intro obj f hf heap links
    rw [heap.table, State.modifyObject_objects] at hl
    rw [heap.which, State.modifyObject_objects] at hw
    have hw' : (s'.links l).which = (s.objects b).which := by
      rw [hw]
      split_ifs with hbo
      · rw [(hf _).2, hbo]
      · rfl
    have hlink : (s'.links l).target = (s.links l).target ∧
        (s'.links l).phantomized = (s.links l).phantomized ∧
        (s'.links l).which = (s.links l).which := by
      rw [links, freedLinks]
      split_ifs <;> exact ⟨rfl, rfl, rfl⟩
    split_ifs at hl with hao
    · rw [(hf _).1] at hl
      cases hl
    · exact ⟨l, hl, hlink.1.symm.trans hb, hlink.2.1.symm.trans hp, hlink.2.2.symm.trans hw'⟩
  cases hs with
  | quiet heap links =>
    rw [heap.table] at hl
    rw [heap.which] at hw
    rw [links] at hb hp hw
    exact .inl ⟨l, hl, hb, hp, hw⟩
  | init d heap links =>
    by_cases hbn : b = s.objectCount
    · right
      apply StrongEdge.not_of_empty
      rw [heap.table, hbn]
      simp [initHeap, values_new]
    · left
      rw [heap.table, initHeap] at hl
      rw [heap.which, initHeap] at hw
      rw [links] at hb hp hw
      dsimp only at hl hw
      rw [Function.update_of_ne hbn] at hw
      by_cases han : a = s.objectCount
      · rw [han, Function.update_self] at hl
        change l ∈ (HashTable.new : HashTable ℕ).values at hl
        rw [values_new] at hl
        cases hl
      · rw [Function.update_of_ne han] at hl
        exact ⟨l, hl, hb, hp, hw⟩
  | clear obj f heap links =>
    left
    rw [heap.table, State.modifyObject_objects] at hl
    rw [heap.which, State.modifyObject_objects] at hw
    rw [links] at hb hp hw
    refine ⟨l, ?_, hb, hp, ?_⟩
    · split_ifs at hl with hao
      · rw [hao]
        exact ((HashTable.mem_values_remove (ht.nodup obj) f l).mp hl).1
      · exact hl
    · rw [hw]
      split_ifs with hbo
      · rw [hbo]
      · rfl
  | link obj f x live named anew heap links =>
    rw [heap.table, linkAdded_objects] at hl
    rw [heap.which, linkAdded_objects] at hw
    have hw' : (s'.links l).which = (s.objects b).which := by
      rw [hw]
      split_ifs with hbo
      · rw [hbo]
      · rfl
    rw [links] at hb hp hw'
    by_cases hnew : l = s.linkCount
    · right
      rw [if_pos hnew] at hb hp hw'
      have hbx : x = b := hb
      have hpo : (s.objects obj).phantomized = false := hp
      have hlabel : setWhich s obj x = (s.objects b).which := by
        rw [← hw']
        simp [newLink, hpo]
      rw [← hbx] at hlabel ⊢
      apply StrongEdge.not_of_empty
      unfold setWhich at hlabel
      split_ifs at hlabel with hxo hsize
      · simp at hlabel
      · rw [heap.table, linkAdded_objects, if_neg hxo, HashTable.values,
          (HashTable.size_eq_zero _).mp hsize]
        rfl
      · simp at hlabel
    · left
      rw [if_neg hnew] at hb hp hw'
      refine ⟨l, ?_, hb, hp, hw'⟩
      split_ifs at hl with hao
      · rw [hao]
        exact (((HashTable.mem_values_add (ht.nodup obj) f s.linkCount l).mp hl).resolve_left
          hnew).1
      · exact hl
  | phantomize obj heap links =>
    by_cases hbo : b = obj
    · right
      apply StrongEdge.not_of_phantomized h'
      rw [heap.phantomized, State.modifyObject_objects, if_pos hbo]
      rfl
    · left
      rw [heap.table, State.modifyObject_objects] at hl
      rw [heap.which, State.modifyObject_objects, if_neg hbo] at hw
      have hlt : l ∈ (s.objects a).links.values := by
        split_ifs at hl with hao
        · rw [hao]
          exact hl
        · exact hl
      rw [links] at hb hp hw
      by_cases hm : (s.objects obj).phantomized = false ∧ l ∈ (s.objects obj).links.values
      · rw [if_pos hm] at hp
        cases hp
      · rw [if_neg hm] at hb hp hw
        exact ⟨l, hlt, hb, hp, hw⟩
  | recover obj strong heap links =>
    rw [heap.table, State.modifyObject_objects] at hl
    rw [heap.which, State.modifyObject_objects] at hw
    have hlt : l ∈ (s.objects a).links.values := by
      split_ifs at hl with hao
      · rw [hao]
        exact hl
      · exact hl
    have hw' : (s'.links l).which = (s.objects b).which := by
      rw [hw]
      split_ifs with hbo
      · rw [hbo]
        rfl
      · rfl
    rw [links] at hb hp hw'
    split_ifs at hb hp hw' with hk
    · right
      dsimp only at hb hw'
      have hsrc : (s.links l).src = obj := (ht.owned hk.1).2
      unfold rebuildWhich at hw'
      dsimp only [State.modifyObject] at hw'
      rw [hb, hsrc] at hw'
      by_cases hbo : b = obj
      · subst b
        rw [if_pos hbo, ← hbo, Function.update_self] at hw'
        simp [recoverRecord] at hw'
      · rw [if_neg hbo, Function.update_of_ne hbo] at hw'
        split_ifs at hw' with hsink
        · rcases hsink with hph | hsize
          · apply StrongEdge.not_of_phantomized h'
            rw [heap.phantomized, State.modifyObject_objects, if_neg hbo]
            exact hph
          · apply StrongEdge.not_of_empty
            rw [heap.table, State.modifyObject_objects, if_neg hbo, HashTable.values,
              (HashTable.size_eq_zero _).mp hsize]
            rfl
        · simp at hw'
    · exact .inl ⟨l, hlt, hb, hp, hw'⟩
  | empty obj heap links =>
    exact .inl (hremoved (f := emptyRecord) (fun a => ⟨emptyRecord_values a, rfl⟩) heap links)
  | delete obj heap links =>
    exact .inl (hremoved (f := deletedRecord) (fun a => ⟨deletedRecord_values a, rfl⟩) heap links)

section
variable {s : State} (run : Run anyStep initial s)
include run

theorem Run.flags : Flags s := by
  have hboth : Sound s (restLedger False False s) ∧ Flags s := by
    apply run.invariant fun s => Sound s (restLedger False False s) ∧ Flags s
    · refine ⟨sound_initial False False, ?_, fun _ => rfl⟩
      intro o l hl
      rw [show ((initial.objects o).links).values = [] from values_new] at hl
      cases hl
    · intro u a hu he _
      exact ⟨hu.1.exec he (fun hf => hf.elim) fun hf => hf.elim,
        hu.2.step hu.1.tables (exec_heapStep hu.1 rfl he)⟩
  exact hboth.2

theorem Run.strong_acyclic : Acyclic (StrongEdge s) := by
  induction run with
  | start =>
    intro a ha
    obtain ⟨b, ⟨l, hl, _⟩, _⟩ := Relation.TransGen.head'_iff.mp ha
    rw [show ((initial.objects a).links).values = [] from values_new] at hl
    cases hl
  | step run he _ ih =>
    have hs := run.anySound
    exact ih.sink fun a b => StrongEdge.step run.flags hs.tables (exec_heapStep hs rfl he)

end

/-- Phantom flags agree, for every object and so for every live one. -/
theorem run_phantomized {s : State} (run : Run anyStep initial s) (o : ℕ) :
    (∀ l ∈ (s.objects o).links.values,
      (s.links l).phantomized = (s.objects (s.links l).src).phantomized) ∧
    (s.objects o).phantomizationComplete = true := by
  refine ⟨fun l hl => ?_, run.flags.complete o⟩
  rw [(run.anySound.tables.owned hl).2]
  exact run.flags.agree hl

/-- The second collector has phantomized the cycle. -/
theorem run_phantomized_deadCycle :
    ((replay initial (deadCycle.take 21)).objects 0).phantomized = true ∧
    (∀ l ∈ ((replay initial (deadCycle.take 21)).objects 0).links.values,
      ((replay initial (deadCycle.take 21)).links l).phantomized = ((replay initial
        (deadCycle.take 21)).objects ((replay initial (deadCycle.take 21)).links l).src).phantomized) ∧
    ((replay initial (deadCycle.take 21)).objects 0).phantomizationComplete = true := by
  have run : Run anyStep initial (replay initial (deadCycle.take 21)) :=
    Run.replay (fun _ _ _ => trivial) .start
      (show replayable (fun _ _ => true) initial (deadCycle.take 21) = true by decide +kernel)
  exact ⟨by decide +kernel, run_phantomized run 0⟩

/-- The strong links form no cycle. -/
theorem run_acyclic {s : State} (run : Run anyStep initial s) (o : ℕ) :
    ¬ Relation.TransGen (StrongEdge s) o o :=
  run.strong_acyclic o

theorem run_acyclic_selfLink : ¬ Relation.TransGen (StrongEdge selfLink) 0 0 :=
  run_acyclic run_selfLink 0

end Acid

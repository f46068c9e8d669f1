import Acid.OrderedCollector

set_option autoImplicit false

/-!
# The requests of `object.c`, `link.c` and `collector_run`
-/
namespace Acid.Locked

open Procedure

variable {t t' : Locker.Thread Lockable} {P : Memory → Prop}

theorem Below.held {n : ℕ} (h : Below 0 t) {locks : List (Option Lockable)}
    (ho : Opens t locks t') (hlevel : ∀ k, some k ∈ locks → k.level < n) : Below n t' :=
  ho.below (h.mono (by omega)) hlevel

/-- The thread may lock the object, and holds objects only. -/
def Free (t : Locker.Thread Lockable) (obj : ℕ) : Prop :=
  Below 0 t ∨ (Below 1 t ∧ 0 < t.hold (.object obj))

theorem Free.ready {obj : ℕ} (h : Free t obj) : Ready t obj :=
  h.imp id fun h => h.2

theorem Free.opens {obj : ℕ} (h : Free t obj) (ho : Opens t [objectLock obj] t') :
    Below 1 t' ∧ 0 < t'.hold (.object obj) := by
  refine ⟨?_, ho.new (by simp)⟩
  rcases h with h | ⟨h, _⟩
  · apply h.held ho
    simp [Lockable.level]
  · apply ho.below h
    simp [Lockable.level]

theorem obeys_objectRequestDelete (hP : Closed P) (obj : ℕ) :
    Obeys t P (objectRequestDelete obj) fun _ => P :=
  obeys_places hP fun s =>
    samePlaces_of_collectors (objectRequestDelete_frame s obj).graph rfl

theorem obeys_objectIncStrong (hP : Closed P) {obj : ℕ} (h : Free t obj) :
    Obeys t P (objectIncStrong obj) fun _ => P := by
  apply Obeys.start1 h.ready.request
  intro t' _
  apply Obeys.places hP fun s => modifyObject_places s obj rfl
  exact obeys_lockerEnd fun _ h => h

theorem obeys_objectDecZero (hP : Steady P) (n : ℕ) {obj : ℕ} (hbelow : Below 1 t)
    (hobj : 0 < t.hold (.object obj)) : Obeys t P (objectDecZero n obj) fun _ => P := by
  apply Obeys.idle
  intro o
  apply Obeys.ite
  · intro _
    exact obeys_objectRequestDelete hP.closed obj
  · intro _
    apply Obeys.idle
    rintro (_ | c)
    · apply (obeys_collectorCreate hP).bind balanced_collectorCreate
      intro c
      apply (obeys_objectSetCollector hP.closed _ (.inr hobj)).bind
        (balanced_objectSetCollector obj _)
      intro _
      apply Obeys.places hP.closed fun s =>
        samePlaces_of_collectors (addTask_frame s _).graph rfl
      exact obeys_collectorAddObject hP.closed n c obj hbelow hobj
    · exact obeys_collectorAddObject hP.closed n c obj hbelow hobj

theorem obeys_objectDec (hP : Steady P) (n : ℕ) {obj : ℕ} (w : Bool) (h : Free t obj) :
    Obeys t P (objectDec n obj w) fun _ => P := by
  apply Obeys.start1 h.ready.request
  intro t' ho
  obtain ⟨hbelow, hobj⟩ := h.opens ho
  apply Obeys.places hP.closed fun s => modifyObject_places s obj rfl
  apply Obeys.assertion hP.closed
  apply Obeys.idle
  intro o
  apply Obeys.bind
  · apply Obeys.ite
    · intro _
      exact obeys_objectDecZero hP n hbelow hobj
    · intro _
      exact obeys_pure fun _ h => h
  · exact Keeps.ite (balanced_objectDecZero n obj) (keeps_pure ())
  intro _
  exact obeys_lockerEnd fun _ h => h

theorem obeys_objectDecPhantom (hP : Closed P) {obj : ℕ} (h : Free t obj) :
    Obeys t P (objectDecPhantom obj) fun _ => P := by
  apply Obeys.start1 h.ready.request
  intro t' ho
  apply Obeys.places hP fun s => modifyObject_places s obj rfl
  apply Obeys.assertion hP
  apply Obeys.idle
  intro o
  apply Obeys.bind
  · apply Obeys.ite
    · intro _
      apply Obeys.ite
      · intro _
        exact obeys_objectRequestDelete hP obj
      · intro _
        exact obeys_objectSetCollector hP none (.inr (h.opens ho).2)
    · intro _
      exact obeys_pure fun _ h => h
  · apply Keeps.ite _ (keeps_pure ())
    exact Keeps.ite (balanced_objectRequestDelete obj) (balanced_objectSetCollector obj none)
  intro _
  exact obeys_lockerEnd fun _ h => h

theorem obeys_objectDecStrong (hP : Steady P) (n : ℕ) {obj : ℕ} (h : Free t obj) :
    Obeys t P (objectDecStrong n obj) fun _ => P := by
  apply Obeys.idle
  intro w
  exact obeys_objectDec hP n w h

/-! ## `object_merge_collectors` -/

section
variable {obj target : ℕ}

theorem obeys_setCollectors (hP : Closed P) {c : Option ℕ} {b : Bool}
    (hclose : Locker.lockerEnd t' = some t) (hobj : 0 < t'.hold (.object obj))
    (htarget : 0 < t'.hold (.object target)) :
    Obeys t' P (do
      objectSetCollector target c
      objectSetCollector obj c
      lockerEnd
      pure b) fun _ => P := by
  apply (obeys_objectSetCollector hP c (.inr htarget)).bind (balanced_objectSetCollector target c)
  intro _
  apply (obeys_objectSetCollector hP c (.inr hobj)).bind (balanced_objectSetCollector obj c)
  intro _
  apply Obeys.stop hclose
  exact obeys_pure fun _ h => h

variable (hP : Steady P) (n : ℕ) (hbelow : Below 1 t) (hobj : 0 < t.hold (.object obj))
  (htarget : 0 < t.hold (.object target))
include hP hbelow hobj htarget

theorem obeys_mergeLoop (k : ℕ) :
    ∀ s c, Obeys t P (mergeLoop n obj target k s c) fun _ => P := by
  induction k with
  | zero =>
    intro s c
    exact obeys_failure
  | succ k ih =>
    intro s c
    apply Obeys.start4
    · apply hbelow.request
      simp [Lockable.level, hobj, htarget]
    intro t' ho
    have hbelow' : Below 2 t' := by
      apply ho.below (hbelow.mono (by omega))
      simp [Lockable.level]
    have hset : ∀ (d : Option ℕ) (b : Bool), Obeys t' P (do
        objectSetCollector target d
        objectSetCollector obj d
        lockerEnd
        pure b) fun _ => P := fun d b =>
      obeys_setCollectors hP.closed ho.close (ho.old hobj) (ho.old htarget)
    apply Obeys.gets
    intro fs
    apply Obeys.gets
    intro fc
    have hweak : ∀ μ, (P μ ∧ μ.heap.forward s = fs) ∧ μ.heap.forward c = fc → P μ :=
      fun μ hμ => hμ.1.1
    apply Obeys.ite
    · intro _
      exact (hset _ _).weaken hweak
    intro _
    apply Obeys.ite
    · intro _
      exact (hset _ _).weaken hweak
    intro _
    cases fs with
    | some s' =>
      apply Obeys.stop ho.close
      exact (ih s' c).weaken fun μ hμ => hμ.1.1
    | none =>
      cases fc with
      | some c' =>
        apply Obeys.stop ho.close
        exact (ih s c').weaken fun μ hμ => hμ.1.1
      | none =>
        apply Obeys.ite
        · intro _
          apply Obeys.stop ho.close
          exact obeys_pure fun μ hμ => hμ.1.1
        · intro hne
          have hmerge := obeys_collectorMerge hP n (Ne.symm hne) hbelow'
            (ho.new (k := .collector s) (by simp)) (ho.new (k := .collector c) (by simp))
          apply (hmerge.weaken fun μ hμ => ⟨hμ.1.1, hμ.1.2, hμ.2⟩).bind
            (balanced_collectorMerge n s c)
          intro _
          apply Obeys.assertion hP.closed
          exact hset _ _

theorem obeys_objectMergeCollectors :
    Obeys t P (objectMergeCollectors n obj target) fun _ => P := by
  apply Obeys.idle
  intro s
  apply Obeys.idle
  intro c
  match s, c with
  | none, none => exact obeys_pure fun _ h => h
  | some s, none =>
    apply (obeys_objectSetCollector hP.closed _ (.inr htarget)).bind
      (balanced_objectSetCollector target _)
    intro _
    exact obeys_pure fun _ h => h
  | none, some c =>
    apply (obeys_objectSetCollector hP.closed _ (.inr hobj)).bind
      (balanced_objectSetCollector obj _)
    intro _
    exact obeys_pure fun _ h => h
  | some s, some c =>
    apply Obeys.ite
    · intro _
      exact obeys_pure fun _ h => h
    · intro _
      exact obeys_mergeLoop hP n hbelow hobj htarget n c s

end

theorem objectLocks_level (o : ℕ) (x : Option ℕ) (k : Lockable)
    (h : some k ∈ [objectLock o, x.bind objectLock]) : k.level = 0 := by
  simp only [List.mem_cons, some_eq_objectLock, some_eq_bind_objectLock, List.not_mem_nil,
    or_false] at h
  rcases h with rfl | ⟨y, _, rfl⟩
  · rfl
  · rfl

/-! ## `link.c` -/

theorem Memory.target_heap {μ : Memory} {s : State} (h : SameLinks μ.heap s) (lk : ℕ) :
    Memory.target { μ with heap := s } lk = μ.target lk := by
  simp only [Memory.target, h.target]

/-- The thread holds both ends of the link, and objects only. -/
def Grips (t : Locker.Thread Lockable) (μ : Memory) (lk : ℕ) : Prop :=
  0 < t.hold (.object (μ.heap.links lk).src) ∧
    ∀ x, μ.target lk = some x → 0 < t.hold (.object x)

theorem Grips.links {μ : Memory} {s : State} {lk : ℕ} (h : SameLinks μ.heap s)
    (hg : Grips t μ lk) : Grips t { μ with heap := s } lk := by
  refine ⟨?_, ?_⟩
  · rw [h.src]
    exact hg.1
  · intro x hx
    rw [Memory.target_heap h] at hx
    exact hg.2 x hx

/-- A fact that only the links can affect joins a steady property. -/
theorem Steady.and {R : Memory → Prop} (hP : Steady P)
    (hR : ∀ (μ : Memory) (s : State), SameLinks μ.heap s → R μ → R { μ with heap := s }) :
    Steady fun μ => P μ ∧ R μ :=
  ⟨fun μ s hs hr hμ => ⟨hP.links μ s hs hr hμ.1, hR μ s hs hμ.2⟩, fun μ hμ => hP.rooted μ hμ.1⟩

theorem Obeys.linkTarget {β : Type} {lk : ℕ} {g : Option ℕ → Proc β} {Q : β → Memory → Prop}
    (h : ∀ x, Obeys t (fun μ => P μ ∧ μ.target lk = x) (g x) Q) :
    Obeys t P (linkTarget lk >>= g) Q :=
  fun m ht hi hP => h _ m ht hi ⟨hP, rfl⟩

theorem obeys_linkDec (hP : Steady P) (n lk : ℕ)
    (h : Below 0 t ∨ (Below 1 t ∧ ∀ μ, P μ → Grips t μ lk)) :
    Obeys t P (linkDec n lk) fun _ => P := by
  apply Obeys.linkTarget
  rintro (_ | target)
  · exact obeys_pure fun μ hμ => hμ.1
  apply Obeys.gets
  intro src
  have hbelow : Below 1 t := by
    rcases h with h | ⟨h, _⟩
    · exact h.mono (by omega)
    · exact h
  apply Obeys.fact (q := Request t [objectLock src, objectLock target])
  · rintro μ ⟨⟨hμ, ht⟩, hs⟩
    rcases h with h | ⟨_, h⟩
    · apply h.request
      simp [Lockable.level]
    · obtain ⟨h1, h2⟩ := h μ hμ
      apply request_held
      simp only [List.mem_cons, some_eq_objectLock, List.not_mem_nil, or_false]
      rintro k (rfl | rfl)
      · rwa [← hs]
      · exact h2 target ht
  intro hreq
  apply Obeys.weaken _ fun μ (hμ : (P μ ∧ _) ∧ _) => hμ.1.1
  apply Obeys.start2 hreq
  intro t' ho
  have hfree : Free t' target := by
    refine .inr ⟨?_, ho.new (by simp)⟩
    apply ho.below hbelow
    simp [Lockable.level]
  apply Obeys.idle
  intro l
  apply Obeys.bind
  · apply Obeys.ite
    · intro _
      exact obeys_objectDecPhantom hP.closed hfree
    · intro _
      exact obeys_objectDec hP n l.which hfree
  · exact Keeps.ite (balanced_objectDecPhantom target) (balanced_objectDec n target l.which)
  intro _
  exact obeys_lockerEnd fun _ h => h

theorem obeys_linkDestroy (hP : Steady P) (n lk : ℕ) (h : Below 0 t) :
    Obeys t P (linkDestroy n lk) fun _ => P := by
  apply Obeys.idle
  intro src
  apply Obeys.start1
  · apply h.request
    simp [Lockable.level]
  intro t' ho
  apply Obeys.read
  intro target
  apply Obeys.stop ho.close
  apply Obeys.bind (R := fun _ => P)
  · apply Obeys.ite
    · intro _
      exact obeys_pure fun _ h => h
    · intro _
      exact obeys_linkDec hP n lk (.inl h)
  · exact Keeps.ite (keeps_pure ()) (balanced_linkDec n lk)
  intro _
  apply obeys_places hP.closed
  intro s
  exact (modifyLink_places s lk rfl rfl).trans
    (samePlaces_of_collectors (emit_frame _ _).graph rfl)

theorem obeys_linkPhantomize (hP : Steady P) {p : Setting} (hndebug : p.ndebug = true) (lk : ℕ)
    (hbelow : Below 1 t) (hgrips : ∀ μ, P μ → Grips t μ lk) :
    Obeys t P (linkPhantomize p lk) fun _ => P := by
  apply Obeys.gets
  intro src
  apply Obeys.linkTarget
  intro x
  apply Obeys.fact (q := Request t [x.bind objectLock, objectLock src] ∧
    0 < t.hold (.object src) ∧ ∀ y, x = some y → 0 < t.hold (.object y))
  · rintro μ ⟨⟨hμ, hs⟩, hx⟩
    obtain ⟨h1, h2⟩ := hgrips μ hμ
    rw [hs] at h1
    rw [hx] at h2
    refine ⟨?_, h1, h2⟩
    apply request_held
    simp only [List.mem_cons, some_eq_objectLock, some_eq_bind_objectLock, List.not_mem_nil,
      or_false]
    rintro k (⟨y, hy, rfl⟩ | rfl)
    · exact h2 y hy
    · exact h1
  rintro ⟨hreq, hsrc, hheld⟩
  apply Obeys.start2 hreq
  intro t' ho
  have hbelow' : Below 1 t' := by
    apply ho.below hbelow
    intro k hk
    rw [objectLocks_level src x k (by rwa [List.mem_pair, or_comm, ← List.mem_pair])]
    exact Nat.one_pos
  apply Obeys.linkTarget
  intro y
  apply Obeys.fact (q := y = x)
  · rintro μ ⟨⟨_, hx⟩, hy⟩
    exact hy.symm.trans hx
  rintro rfl
  apply Obeys.weaken _ fun μ (hμ : ((P μ ∧ _) ∧ _) ∧ _) => hμ.1.1.1
  cases y with
  | none => exact obeys_lockerEnd fun _ h => h
  | some target =>
    have htarget : 0 < t'.hold (.object target) := ho.old (hheld target rfl)
    apply Obeys.idle
    intro phantomized
    apply Obeys.ite
    · intro _
      exact obeys_lockerEnd fun _ h => h
    intro _
    apply Obeys.places hP.closed fun s => modifyObject_places s target rfl
    apply Obeys.bind _ (balanced_linkDec p.bound lk)
    · intro _
      apply Obeys.assertion hP.closed
      apply (obeys_objectMergeCollectors hP _ hbelow' (ho.old hsrc) htarget).bind
        (balanced_objectMergeCollectors _ src target)
      intro _
      apply Obeys.places hP.closed fun s => modifyLink_places s lk rfl rfl
      rw [assertCollectorEquals, if_pos hndebug, pure_bind]
      exact obeys_lockerEnd fun _ h => h
    · apply obeys_linkDec hP _ lk
      refine .inr ⟨hbelow', ?_⟩
      intro μ hμ
      obtain ⟨h1, h2⟩ := hgrips μ hμ
      exact ⟨ho.old h1, fun x hx => ho.old (h2 x hx)⟩

/-! ## `object.c` -/

section
variable {p : Setting} (hndebug : p.ndebug = true) (hbelow : Below 0 t) {obj : ℕ}
include hndebug hbelow

theorem obeys_phantomizeSnapshot (hP : Steady P) (lk : ℕ)
    (hsrc : ∀ μ, P μ → (μ.heap.links lk).src = obj) :
    Obeys t P (phantomizeSnapshot p obj lk) fun _ => P := by
  apply Obeys.linkTarget
  intro x
  apply Obeys.start2
  · apply hbelow.request
    intro k hk
    exact .inr (objectLocks_level obj x k hk)
  intro t' ho
  have hbelow' : Below 1 t' := by
    apply hbelow.held ho
    intro k hk
    rw [objectLocks_level obj x k hk]
    exact Nat.one_pos
  have hP' : Steady fun μ => P μ ∧ μ.target lk = x := by
    apply hP.and
    intro μ s hs hx
    rwa [Memory.target_heap hs]
  apply Obeys.assertion hP'.closed
  apply Obeys.idle
  intro l
  apply Obeys.bind (R := fun _ μ => P μ ∧ μ.target lk = x)
  · apply Obeys.ite
    · intro _
      exact obeys_pure fun _ h => h
    · intro _
      apply Obeys.assertion hP'.closed
      apply Obeys.assertion hP'.closed
      apply obeys_linkPhantomize hP' hndebug lk hbelow'
      rintro μ ⟨hμ, hx⟩
      refine ⟨?_, ?_⟩
      · rw [hsrc μ hμ]
        exact ho.new (by simp)
      · intro y hy
        rw [hx] at hy
        exact ho.new (by simp [hy])
  · apply Keeps.ite (keeps_pure ())
    apply (balanced_assertion _ _).bind
    intro _
    exact (balanced_assertion _ _).bind fun _ => balanced_linkPhantomize p lk
  intro _
  exact obeys_lockerEnd fun μ hμ => hμ.1

theorem obeys_phantomizeSnapshots (phantoms : List ℕ) : ∀ {P : Memory → Prop}, Steady P →
    (∀ μ, P μ → ∀ l ∈ phantoms, (μ.heap.links l).src = obj) →
      Obeys t P (phantoms.forM (phantomizeSnapshot p obj)) fun _ => P := by
  induction phantoms with
  | nil =>
    intro P _ _
    exact obeys_pure fun _ h => h
  | cons lk phantoms ih =>
    intro P hP hsrc
    apply (obeys_phantomizeSnapshot hndebug hbelow hP lk fun μ hμ =>
      hsrc μ hμ lk List.mem_cons_self).bind (balanced_phantomizeSnapshot p obj lk)
    intro _
    exact ih hP fun μ hμ l hl => hsrc μ hμ l (List.mem_cons_of_mem lk hl)

end

/-- Every link of a table has the object of the table as its source. -/
def Sourced (s : State) : Prop := ∀ o, ∀ l ∈ (s.objects o).links.values, (s.links l).src = o

theorem SameLinks.sourced {s s' : State} (h : SameLinks s s') (hs : Sourced s) : Sourced s' := by
  intro o l hl
  rw [h.table] at hl
  rw [h.src]
  exact hs o l hl

theorem obeys_phantomizeObject (hP : Closed P) (obj : ℕ) :
    Obeys t P (phantomizeObject obj) fun phantoms μ =>
      P μ ∧ ∀ ls, phantoms = some ls → ls = (μ.heap.objects obj).links.values := by
  apply Obeys.places hP
  · intro s
    split_ifs
    · exact modifyObject_places s obj rfl
    · exact .refl s
  apply Obeys.idle
  intro phantomized
  apply Obeys.ite
  · intro _
    apply obeys_pure
    intro μ hμ
    refine ⟨hμ, ?_⟩
    intro ls hls
    cases hls
  · intro _
    apply Obeys.places hP fun s => modifyObject_places s obj rfl
    apply Obeys.assertion hP
    apply Obeys.places hP fun s => modifyObject_places s obj rfl
    apply obeys_gets
    intro μ hμ
    refine ⟨hμ, ?_⟩
    intro ls hls
    cases hls
    rfl

theorem obeys_objectPhantomizeNode (hP : Steady P) (hsourced : ∀ μ, P μ → Sourced μ.heap)
    {p : Setting} (hndebug : p.ndebug = true) (obj : ℕ) (hbelow : Below 0 t) :
    Obeys t P (objectPhantomizeNode p obj) fun _ => P := by
  have hlevel : ∀ k, some k ∈ [objectLock obj] → k.level = 0 := by
    simp [Lockable.level]
  apply Obeys.start1 (hbelow.request fun k hk => .inr (hlevel k hk))
  intro t' ho
  have hbelow' : Below 1 t' := hbelow.held ho fun k hk => by
    rw [hlevel k hk]
    exact Nat.one_pos
  apply Obeys.idle
  intro c
  apply (obeys_collectorUpdate _ hbelow' c).bind (balanced_collectorUpdate _ c)
  intro c
  apply (obeys_objectSetCollector hP.closed _ (.inr (ho.new (by simp)))).bind
    (balanced_objectSetCollector obj _)
  intro _
  apply Obeys.places hP.closed fun s => modifyObject_places s obj rfl
  apply Obeys.assertion hP.closed
  apply Obeys.idle
  intro o
  apply Obeys.ite
  · intro _
    exact obeys_lockerEnd fun _ h => h
  intro _
  apply (obeys_phantomizeObject hP.closed obj).bind (balanced_phantomizeObject obj)
  intro phantoms
  apply Obeys.stop ho.close
  cases phantoms with
  | none => exact obeys_pure fun μ hμ => hμ.1
  | some phantoms =>
    have hP' : Steady fun μ => P μ ∧ ∀ l ∈ phantoms, (μ.heap.links l).src = obj := by
      apply hP.and
      intro μ s hs hsrc l hl
      exact (hs.src l).trans (hsrc l hl)
    apply Obeys.weaken (P := fun μ => P μ ∧ ∀ l ∈ phantoms, (μ.heap.links l).src = obj)
    · apply (obeys_phantomizeSnapshots hndebug hbelow phantoms hP' fun μ hμ => hμ.2).bind
        (Keeps.forM (balanced_phantomizeSnapshot p obj) phantoms)
      intro _
      apply Obeys.start1 (hbelow.request fun k hk => .inr (hlevel k hk))
      intro t' _
      apply Obeys.places hP'.closed fun s => modifyObject_places s obj rfl
      exact obeys_lockerEnd fun μ hμ => hμ.1
    · rintro μ ⟨hμ, hls⟩
      refine ⟨hμ, ?_⟩
      rw [hls phantoms rfl]
      exact hsourced μ hμ obj

theorem obeys_rebuildTarget (hP : Closed P) (n : ℕ) (rebuildNext : ListRef) (lk : ℕ) {target : ℕ}
    (hbelow : Below 1 t) (htarget : 0 < t.hold (.object target)) :
    Obeys t P (rebuildTarget n rebuildNext lk target) fun _ => P := by
  apply Obeys.idle
  intro w
  apply Obeys.places hP fun s => modifyLink_places s lk rfl rfl
  apply Obeys.places hP fun s => modifyObject_places s target rfl
  apply Obeys.places hP fun s => modifyObject_places s target rfl
  apply Obeys.idle
  intro o
  apply Obeys.bind (R := fun _ => P)
  · apply Obeys.ite
    · intro _
      exact obeys_objectSetCollector hP none (.inr htarget)
    · intro _
      exact obeys_pure fun _ h => h
  · exact Keeps.ite (balanced_objectSetCollector target none) (keeps_pure ())
  intro _
  apply Obeys.places hP fun s => modifyLink_places s lk rfl rfl
  apply Obeys.assertion hP
  apply Obeys.idle
  intro o
  apply Obeys.ite
  · intro _
    exact obeys_safelistAdd hP n rebuildNext target (.inl (hbelow.mono (by omega)))
  · intro _
    exact obeys_pure fun _ h => h

theorem obeys_objectRebuildLink (hP : Steady P) (n : ℕ) (rebuildNext : ListRef) (lk : ℕ)
    (hbelow : Below 0 t) : Obeys t P (objectRebuildLink n rebuildNext lk) fun _ => P := by
  apply Obeys.idle
  intro src
  apply Obeys.read
  intro x
  apply Obeys.start2
  · apply hbelow.request
    intro k hk
    exact .inr (objectLocks_level src x k hk)
  intro t' ho
  have hbelow' : Below 1 t' := by
    apply hbelow.held ho
    intro k hk
    rw [objectLocks_level src x k hk]
    exact Nat.one_pos
  apply Obeys.idle
  intro l
  apply Obeys.bind (R := fun _ => P)
  · apply Obeys.ite
    · intro _
      cases x with
      | none => exact obeys_failure
      | some target =>
        exact obeys_rebuildTarget hP.closed n rebuildNext lk hbelow' (ho.new (by simp))
    · intro _
      exact obeys_pure fun _ h => h
  · apply Keeps.ite _ (keeps_pure ())
    cases x with
    | none => exact keeps_failure
    | some target => exact balanced_rebuildTarget n rebuildNext lk target
  intro _
  exact obeys_lockerEnd fun _ h => h

theorem obeys_recoverKey (hP : Steady P) (n obj : ℕ) (rebuildNext : ListRef) (lk : Option ℕ)
    (key : ℕ) (hbelow : Below 0 t) :
    Obeys t P (recoverKey n obj rebuildNext lk key) fun _ => P := by
  apply Obeys.idle
  rintro (_ | l)
  · apply Obeys.assertion hP.closed
    exact obeys_failure
  · apply (obeys_objectRebuildLink hP n rebuildNext l hbelow).bind
      (balanced_objectRebuildLink n rebuildNext l)
    intro _
    exact obeys_pure fun _ h => h

theorem obeys_recoverKeys (hP : Steady P) (n obj : ℕ) (rebuildNext : ListRef)
    (hbelow : Below 0 t) (keys : List ℕ) :
    ∀ lk, Obeys t P (keys.foldlM (recoverKey n obj rebuildNext) lk) fun _ => P := by
  induction keys with
  | nil =>
    intro lk
    exact obeys_pure fun _ h => h
  | cons key keys ih =>
    intro lk
    apply (obeys_recoverKey hP n obj rebuildNext lk key hbelow).bind
      (balanced_recoverKey n obj rebuildNext lk key)
    exact ih

/-- A rooted memory, as the other threads leave it too. -/
structure Open (μ : Memory) : Prop where
  rooted : Rooted μ.heap
  tame : ∀ n s, Rooted s → Rooted (μ.others n s)

theorem open_steady : Steady Open :=
  ⟨fun _ _ _ hr hμ => ⟨hr, hμ.tame⟩, fun _ hμ => hμ.rooted⟩

theorem obeys_sleep : Obeys t Open sleep fun _ => Open := by
  intro m _ _ hμ
  refine ⟨follows_self rfl rfl rfl, ?_⟩
  intro u m' hr
  rw [returns_write.mp hr]
  exact ⟨hμ.tame 0 _ hμ.rooted, fun n => hμ.tame (n + 1)⟩

section
variable {β : Type} {Q : β → Memory → Prop} {obj : ℕ} (hbelow : Below 0 t)
include hbelow

/-- Each turn of the wait gives up the object's lock and asks for it anew. -/
theorem obeys_recoverWait {g : Unit → Proc β}
    (hg : ∀ t', Opens t [objectLock obj] t' → Obeys t' Open (g ()) Q) (n : ℕ) :
    ∀ wcount t', Opens t [objectLock obj] t' →
      Obeys t' Open (recoverWait obj n wcount >>= g) Q := by
  induction n with
  | zero =>
    intro wcount t' _
    exact obeys_failure.bind keeps_failure fun _ => hg t' ‹_›
  | succ n ih =>
    intro wcount t' ho
    rw [recoverWait, bind_assoc]
    apply Obeys.idle
    intro o
    by_cases hw : o.phantomized ∧ ¬ o.phantomizationComplete
    · rw [if_pos hw]
      simp only [bind_assoc]
      apply Obeys.stop ho.close
      apply obeys_sleep.bind balanced_sleep
      intro _
      apply Obeys.start1
      · apply hbelow.request
        simp [Lockable.level]
      intro t₁ ho₁
      apply Obeys.assertion open_steady.closed
      exact ih (wcount + 1) t₁ ho₁
    · rw [if_neg hw, pure_bind]
      exact hg t' ho

theorem obeys_recoverObject {n : ℕ} {g : List ℕ → Proc β} (ho : Opens t [objectLock obj] t')
    (hg : ∀ keys t', Opens t [objectLock obj] t' → Obeys t' Open (g keys) Q) :
    Obeys t' Open (recoverObject n obj >>= g) Q := by
  rw [recoverObject, bind_assoc]
  apply Obeys.idle
  intro o
  by_cases hpos : 0 < o.count o.which
  · rw [if_pos hpos]
    simp only [bind_assoc]
    apply obeys_recoverWait hbelow _ n 0 t' ho
    intro t₁ ho₁
    apply Obeys.assertion open_steady.closed
    apply Obeys.places open_steady.closed fun s => modifyObject_places s obj rfl
    apply Obeys.idle
    intro keys
    exact hg keys t₁ ho₁
  · rw [if_neg hpos]
    simp only [bind_assoc, pure_bind]
    apply Obeys.assertion open_steady.closed
    exact hg [] t' ho

theorem obeys_objectRecoverNode (n cptr : ℕ) :
    Obeys t Open (objectRecoverNode n obj cptr) fun _ => Open := by
  have hlevel : ∀ k, some k ∈ [objectLock obj] → k.level = 0 := by
    simp [Lockable.level]
  have hreq : Request t [objectLock obj] := hbelow.request fun k hk => .inr (hlevel k hk)
  apply Obeys.start1 hreq
  intro t' ho
  have hbelow' : Below 1 t' := hbelow.held ho fun k hk => by
    rw [hlevel k hk]
    exact Nat.one_pos
  apply Obeys.idle
  intro c
  apply Obeys.bind (R := fun _ => Open)
  · apply Obeys.ite
    · intro _
      exact obeys_pure fun _ h => h
    · intro _
      apply (obeys_collectorUpdate n hbelow' c).bind (balanced_collectorUpdate n c)
      intro c
      exact obeys_objectSetCollector open_steady.closed _ (.inr (ho.new (by simp)))
  · apply Keeps.ite (keeps_pure ())
    apply (balanced_collectorUpdate n c).bind
    intro c
    exact balanced_objectSetCollector obj _
  intro _
  apply obeys_recoverObject hbelow ho
  intro keys t₁ ho₁
  apply Obeys.stop ho₁.close
  apply (obeys_recoverKeys open_steady n obj _ hbelow keys none).bind
    (Keeps.foldlM (balanced_recoverKey n obj _) keys none)
  intro _
  apply Obeys.start1 hreq
  intro t₂ _
  apply Obeys.assertion open_steady.closed
  exact obeys_lockerEnd fun _ h => h

end

/-- Tables may change as well. -/
theorem obeys_tables {f : State → State} (h : ∀ s, (f s).collectors = s.collectors) :
    Obeys t Open (modify f) fun _ => Open := by
  apply obeys_modify
  intro μ hμ
  refine ⟨?_, hμ.tame⟩
  intro c n hc
  rw [State.forward, h] at hc
  rw [State.listForward, State.safelist, h]
  exact hμ.rooted c n hc

theorem Obeys.tables {β : Type} {f : State → State} {g : Unit → Proc β} {Q : β → Memory → Prop}
    (h : ∀ s, (f s).collectors = s.collectors) (hg : Obeys t Open (g ()) Q) :
    Obeys t Open (Locked.modify f >>= g) Q :=
  (obeys_tables h).bind (balanced_modify f) fun _ => hg

theorem obeys_linkDestroys (n : ℕ) (hbelow : Below 0 t) (lks : List ℕ) :
    Obeys t Open (lks.forM (linkDestroy n)) fun _ => Open := by
  induction lks with
  | nil => exact obeys_pure fun _ h => h
  | cons lk lks ih =>
    exact (obeys_linkDestroy open_steady n lk hbelow).bind (balanced_linkDestroy n lk) fun _ => ih

theorem obeys_objectRemoveLinks (n obj : ℕ) (hbelow : Below 0 t) :
    Obeys t Open (objectRemoveLinks n obj) fun _ => Open := by
  refine Obeys.tables ?_ ?_
  · intro _
    rfl
  apply Obeys.start1
  · apply hbelow.request
    simp [Lockable.level]
  intro t' ho
  apply Obeys.idle
  intro lks
  refine Obeys.tables ?_ ?_
  · intro _
    rfl
  apply Obeys.assertion open_steady.closed
  apply Obeys.assertion open_steady.closed
  apply Obeys.stop ho.close
  exact obeys_linkDestroys n hbelow lks

/-- A destructor that calls nothing of `locker.c`. -/
def Silent (p : Setting) : Prop :=
  ∀ (obj : ℕ) (m : Machine), (outcome (p.dtor obj) m).2.calls = m.calls ∧
    (outcome (p.dtor obj) m).2.id = m.id ∧ (outcome (p.dtor obj) m).2.thread = m.thread

theorem Silent.balanced {p : Setting} (h : Silent p) (obj : ℕ) : Balanced (p.dtor obj) := by
  intro m u m' hr
  have := (h obj m).2.2
  rwa [show (outcome (p.dtor obj) m).2 = m' from congrArg Prod.snd hr] at this

theorem obeys_objectDel {p : Setting} (hd : Silent p) {obj : ℕ} (hbelow : Below 0 t) :
    Obeys t Open (objectDel p obj) fun _ _ => True := by
  refine Obeys.tables ?_ ?_
  · intro _
    rfl
  apply Obeys.start1
  · apply hbelow.request
    simp [Lockable.level]
  intro t' ho
  apply (obeys_objectSetCollector open_steady.closed none (.inr (ho.new (by simp)))).bind
    (balanced_objectSetCollector obj none)
  intro _
  apply Obeys.assertion open_steady.closed
  refine Obeys.tables ?_ ?_
  · intro _
    rfl
  apply Obeys.idle
  intro o
  apply Obeys.bind (R := fun _ _ => True)
  · apply Obeys.ite
    · intro _
      refine Obeys.tables ?_ ?_
      · intro _
        rfl
      intro m _ _ _
      obtain ⟨h1, h2, h3⟩ := hd obj m
      exact ⟨follows_self h1 h2 h3, fun _ _ _ => trivial⟩
    · intro _
      exact obeys_pure fun _ _ => trivial
  · apply Keeps.ite _ (keeps_pure ())
    exact (balanced_modify _).bind fun _ => hd.balanced obj
  intro _
  apply Obeys.stop ho.close
  apply Obeys.modify (R := fun _ => True) fun _ h => h
  exact obeys_modify fun _ h => h

theorem obeys_objectRequestDeleteTaskRun {p : Setting} (hd : Silent p) (obj : ℕ)
    (hbelow : Below 0 t) : Obeys t Open (objectRequestDeleteTaskRun p obj) fun _ _ => True := by
  apply (obeys_objectRemoveLinks _ obj hbelow).bind (balanced_objectRemoveLinks _ obj)
  intro _
  apply (obeys_objectDel hd hbelow).bind (balanced_objectDel hd.balanced obj)
  intro _
  exact obeys_pure fun _ _ => trivial

theorem obeys_objectCleanNode (n obj : ℕ) (hbelow : Below 0 t) :
    Obeys t Open (objectCleanNode n obj) fun _ => Open := by
  apply Obeys.start1
  · apply hbelow.request
    simp [Lockable.level]
  intro t' ho
  apply Obeys.assertion open_steady.closed
  apply Obeys.assertion open_steady.closed
  apply Obeys.idle
  intro o
  apply Obeys.stop ho.close
  apply Obeys.bind (R := fun _ => Open)
  · apply Obeys.ite
    · intro _
      exact obeys_pure fun _ h => h
    · intro _
      exact obeys_objectRemoveLinks n obj hbelow
  · exact Keeps.ite (keeps_pure ()) (balanced_objectRemoveLinks n obj)
  intro _
  exact obeys_objectDecPhantom open_steady.closed (.inl hbelow)

end Acid.Locked

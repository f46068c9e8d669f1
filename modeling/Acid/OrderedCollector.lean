import Acid.Listing
import Acid.LockRequests

set_option autoImplicit false

/-!
# The requests of `safelist.c` and `collector.c`

A list is forwarded only after its collector is, so a list of a collector that
forwards to no other takes what is added to it itself.
-/
namespace Acid.Locked

open Procedure

/-- No table, target or source changes. -/
structure SameLinks (s s' : State) : Prop where
  table : ∀ o, (s'.objects o).links = (s.objects o).links
  target : ∀ l, (s'.links l).target = (s.links l).target
  src : ∀ l, (s'.links l).src = (s.links l).src

/-- No forward pointer changes either. -/
structure SamePlaces (s s' : State) : Prop extends SameLinks s s' where
  forward : s'.forward = s.forward
  listForward : s'.listForward = s.listForward

theorem sameLinks_of_graph {s s' : State} (h : SameGraph s s') : SameLinks s s' :=
  ⟨h.table, h.target, h.src⟩

theorem SameLinks.trans {s s' s'' : State} (h : SameLinks s s') (h' : SameLinks s' s'') :
    SameLinks s s'' where
  table o := (h'.table o).trans (h.table o)
  target l := (h'.target l).trans (h.target l)
  src l := (h'.src l).trans (h.src l)

theorem SamePlaces.trans {s s' s'' : State} (h : SamePlaces s s') (h' : SamePlaces s' s'') :
    SamePlaces s s'' where
  toSameLinks := h.toSameLinks.trans h'.toSameLinks
  forward := h'.forward.trans h.forward
  listForward := h'.listForward.trans h.listForward

theorem samePlaces_of_collectors {s s' : State} (h : SameGraph s s')
    (hc : s'.collectors = s.collectors) : SamePlaces s s' where
  toSameLinks := sameLinks_of_graph h
  forward := by
    funext c
    rw [State.forward, State.forward, hc]
  listForward := by
    funext r
    rw [State.listForward, State.listForward, State.safelist, State.safelist, hc]

theorem SamePlaces.refl (s : State) : SamePlaces s s :=
  samePlaces_of_collectors (.refl s) rfl

theorem modifyObject_places (s : State) (o : ℕ) {f : Object → Object}
    (h : (f (s.objects o)).links = (s.objects o).links) : SamePlaces s (s.modifyObject o f) := by
  refine { SamePlaces.refl s with table := ?_ }
  intro x
  rw [State.modifyObject_objects]
  split_ifs with hx
  · rw [h, hx]
  · rfl

theorem modifyLink_places (s : State) (l : ℕ) {f : Link → Link}
    (ht : (f (s.links l)).target = (s.links l).target)
    (hs : (f (s.links l)).src = (s.links l).src) : SamePlaces s (s.modifyLink l f) :=
  samePlaces_of_collectors (modifyLink_graph s l ht hs) rfl

theorem check_places (s : State) (p : Prop) [Decidable p] (e : Event) :
    SamePlaces s (s.check p e) :=
  samePlaces_of_collectors (check_frame s p e).graph (State.check_collectors s p e)

/-- The collector `c` changes in other fields than its forward pointers. -/
theorem modifyCollector_places (s : State) (c : ℕ) {f : Collector → Collector}
    (hf : (f (s.collectors c)).forward = (s.collectors c).forward)
    (hl : ∀ n, ((f (s.collectors c)).lists n).forward = ((s.collectors c).lists n).forward) :
    SamePlaces s (s.modifyCollector c f) where
  toSameLinks := sameLinks_of_graph (modifyCollector_frame s c f).graph
  forward := (modifyCollector_same s c hf).forward
  listForward := by
    funext r
    rw [State.listForward, State.listForward, State.safelist, State.safelist,
      State.modifyCollector_collectors]
    split_ifs with hr
    · rw [hl, hr]
    · rfl

theorem modifySafelist_places (s : State) (r : ListRef) {f : Safelist → Safelist}
    (h : (f (s.safelist r)).forward = (s.safelist r).forward) :
    SamePlaces s (s.modifySafelist r f) := by
  refine modifyCollector_places s r.1 rfl ?_
  intro n
  dsimp only
  by_cases hn : n = r.2
  · subst hn
    rw [Function.update_self]
    exact h
  · rw [Function.update_of_ne hn]

theorem safelistPush_places (s : State) (r : ListRef) (o : ℕ) :
    SamePlaces s (safelistPush s r o) :=
  (modifyCollector_places s r.1 rfl fun _ => rfl).trans (modifySafelist_places _ r rfl)

theorem safelistPoll_places (s : State) (r : ListRef) :
    SamePlaces s (Acid.safelistPoll s r).1 := by
  cases h : (s.safelist r).data with
  | nil =>
    rw [safelistPoll_nil h]
    exact .refl s
  | cons o rest =>
    rw [safelistPoll_cons h]
    have hdec : SamePlaces s (counterDecStore s r.1) :=
      (check_places s _ _).trans (modifyCollector_places _ r.1 rfl fun _ => rfl)
    dsimp only
    exact hdec.trans (modifySafelist_places _ r rfl)

theorem objectSetCollector_places (s : State) (o : ℕ) (c : Option ℕ) :
    SamePlaces s (Acid.objectSetCollector s o c) where
  toSameLinks := sameLinks_of_graph (objectSetCollector_frame s o c).graph
  forward := objectSetCollector_forward s o c
  listForward := by
    funext r
    rw [State.listForward, State.listForward, objectSetCollector_safelist]

/-- The lists of a collector that forwards to no other forward to no other. -/
def Rooted (s : State) : Prop := ∀ c n, s.forward c = none → s.listForward (c, n) = none

theorem SamePlaces.rooted {s s' : State} (h : SamePlaces s s') (hr : Rooted s) : Rooted s' := by
  intro c n hc
  rw [h.forward] at hc
  rw [h.listForward]
  exact hr c n hc

/-- A property of memories that only links and forward pointers can affect. -/
def Closed (P : Memory → Prop) : Prop :=
  ∀ (μ : Memory) (s : State), SamePlaces μ.heap s → P μ → P { μ with heap := s }

/-- A property of rooted memories that only links and the loss of rootedness can affect. -/
structure Steady (P : Memory → Prop) : Prop where
  links : ∀ (μ : Memory) (s : State), SameLinks μ.heap s → Rooted s → P μ → P { μ with heap := s }
  rooted : ∀ μ, P μ → Rooted μ.heap

theorem Steady.closed {P : Memory → Prop} (h : Steady P) : Closed P :=
  fun μ s hs hP => h.links μ s hs.toSameLinks (hs.rooted (h.rooted μ hP)) hP

/-- All that the thread holds is of a class below `n`. -/
def Below (n : ℕ) (t : Locker.Thread Lockable) : Prop := ∀ h, 0 < t.hold h → h.level < n

variable {t t' : Locker.Thread Lockable} {P : Memory → Prop}

theorem Below.mono {m n : ℕ} (h : Below m t) (hmn : m ≤ n) : Below n t :=
  fun k hk => (h k hk).trans_le hmn

theorem Below.request {n : ℕ} {locks : List (Option Lockable)} (h : Below n t)
    (hlevel : ∀ k, some k ∈ locks → 0 < t.hold k ∨ k.level = n) : Request t locks := by
  refine ⟨n, ?_⟩
  intro k hk hzero
  refine ⟨?_, h⟩
  rcases hlevel k hk with hheld | hn
  · omega
  · exact hn

theorem request_held {locks : List (Option Lockable)}
    (h : ∀ k, some k ∈ locks → 0 < t.hold k) : Request t locks := by
  refine ⟨0, ?_⟩
  intro k hk hzero
  have := h k hk
  omega

theorem Opens.below {n : ℕ} {locks : List (Option Lockable)} (ho : Opens t locks t')
    (h : Below n t) (hlevel : ∀ k, some k ∈ locks → k.level < n) : Below n t' := by
  intro k hk
  rcases (ho.held k).mp hk with hk | hk
  · exact h k hk
  · exact hlevel k hk

theorem Opens.old {locks : List (Option Lockable)} (ho : Opens t locks t') {k : Lockable}
    (h : 0 < t.hold k) : 0 < t'.hold k :=
  (ho.held k).mpr (.inl h)

theorem Opens.new {locks : List (Option Lockable)} (ho : Opens t locks t') {k : Lockable}
    (h : some k ∈ locks) : 0 < t'.hold k :=
  (ho.held k).mpr (.inr h)

section
variable {k : Lockable}

@[simp] theorem some_eq_objectLock {o : ℕ} : some k = objectLock o ↔ k = .object o := by
  simp [objectLock]

@[simp] theorem some_eq_collectorLock {c : ℕ} : some k = collectorLock c ↔ k = .collector c := by
  simp [collectorLock]

@[simp] theorem some_eq_safelistLock {r : ListRef} :
    some k = safelistLock r ↔ k = .safelist r := by
  simp [safelistLock]

@[simp] theorem some_eq_bind_objectLock {o : Option ℕ} :
    some k = o.bind objectLock ↔ ∃ x, o = some x ∧ k = .object x := by
  cases o <;> simp

@[simp] theorem some_eq_bind_collectorLock {c : Option ℕ} :
    some k = c.bind collectorLock ↔ ∃ x, c = some x ∧ k = .collector x := by
  cases c <;> simp

@[simp] theorem some_eq_bind_safelistLock {r : Option ListRef} :
    some k = r.bind safelistLock ↔ ∃ x, r = some x ∧ k = .safelist x := by
  cases r <;> simp

end

theorem obeys_places {f : State → State} (hP : Closed P) (h : ∀ s, SamePlaces s (f s)) :
    Obeys t P (modify f) fun _ => P :=
  obeys_modify fun μ hμ => hP μ _ (h μ.heap) hμ

theorem Obeys.places {β : Type} {f : State → State} {g : Unit → Proc β} {Q : β → Memory → Prop}
    (hP : Closed P) (h : ∀ s, SamePlaces s (f s)) (hg : Obeys t P (g ()) Q) :
    Obeys t P (Locked.modify f >>= g) Q :=
  Obeys.modify (fun μ hμ => hP μ _ (h μ.heap) hμ) hg

theorem Obeys.assertion {β : Type} {p : State → Prop} [DecidablePred p] {a : Assertion}
    {g : Unit → Proc β} {Q : β → Memory → Prop} (hP : Closed P) (hg : Obeys t P (g ()) Q) :
    Obeys t P (Locked.assertion p a >>= g) Q :=
  Obeys.places hP (fun s => check_places s _ _) hg

theorem Obeys.idle {α β : Type} {f : State → α} {g : α → Proc β} {Q : β → Memory → Prop}
    (h : ∀ a, Obeys t P (g a) Q) : Obeys t P (Locked.gets f >>= g) Q :=
  Obeys.read h

/-! ## `safelist.c` -/

theorem obeys_safelistChase (n : ℕ) : ∀ f, Obeys t P (safelistChase n f) fun _ => P := by
  induction n with
  | zero =>
    intro f
    exact obeys_failure
  | succ n ih =>
    intro f
    apply Obeys.idle
    rintro (_ | g)
    · exact obeys_pure fun _ h => h
    · exact ih g

/-- A thread that holds no list may add to any; one that holds the list may add to it while it
does not forward. -/
theorem obeys_safelistAdd (hP : Closed P) (n : ℕ) : ∀ sl datum,
    Below 2 t ∨ (0 < t.hold (.safelist sl) ∧ ∀ μ, P μ → μ.heap.listForward sl = none) →
      Obeys t P (safelistAdd n sl datum) fun _ => P := by
  induction n with
  | zero =>
    intro sl datum _
    exact obeys_failure
  | succ n ih =>
    intro sl datum h
    apply Obeys.start1
    · rcases h with h | ⟨h, _⟩
      · apply h.request
        simp [Lockable.level]
      · apply request_held
        simpa using h
    intro t' ho
    apply Obeys.gets
    intro f
    apply Obeys.modify (R := fun μ => P μ ∧ μ.heap.listForward sl = f)
    · rintro μ ⟨hμ, hf⟩
      dsimp only
      by_cases hnone : f = none
      · rw [if_pos hnone]
        refine ⟨hP μ _ (safelistPush_places _ sl datum) hμ, ?_⟩
        rw [(safelistPush_places _ sl datum).listForward]
        exact hf
      · rw [if_neg hnone]
        exact ⟨hμ, hf⟩
    apply Obeys.stop ho.close
    cases f with
    | none => exact obeys_pure fun μ hμ => hμ.1
    | some f =>
      rcases h with h | ⟨_, hroot⟩
      · apply Obeys.weaken _ fun μ hμ => hμ.1
        apply Obeys.bind (obeys_safelistChase n f) (balanced_safelistChase n f)
        intro g
        exact ih g datum (.inl h)
      · intro m _ _ hμ
        rw [hroot _ hμ.1] at hμ
        cases hμ.2

theorem obeys_safelistPoll (hP : Closed P) {sl : ListRef}
    (h : Below 2 t ∨ 0 < t.hold (.safelist sl)) :
    Obeys t P (safelistPoll sl) fun _ => P := by
  apply Obeys.start1
  · rcases h with h | h
    · apply h.request
      simp [Lockable.level]
    · apply request_held
      simpa using h
  intro t' ho
  apply Obeys.bind (obeys_call _) (balanced_call _)
  · intro retval
    apply Obeys.stop ho.close
    exact obeys_pure fun _ h => h
  · intro μ hμ
    exact hP μ _ (safelistPoll_places _ sl) hμ

theorem obeys_pollLoop (hP : Closed P) {sl : ListRef}
    (h : Below 2 t ∨ 0 < t.hold (.safelist sl)) {body : ℕ → Proc Unit}
    (hbody : ∀ obj, Obeys t P (body obj) fun _ => P) (hb : ∀ obj, Balanced (body obj)) (n : ℕ) :
    Obeys t P (pollLoop sl body n) fun _ => P := by
  induction n with
  | zero => exact obeys_failure
  | succ n ih =>
    apply Obeys.bind (obeys_safelistPoll hP h) (balanced_safelistPoll sl)
    rintro (_ | obj)
    · exact obeys_pure fun _ h => h
    · exact (hbody obj).bind (hb obj) fun _ => ih

theorem Obeys.pollLoop {β : Type} {g : Unit → Proc β} {Q : β → Memory → Prop} (hP : Closed P)
    {sl : ListRef} (h : Below 2 t ∨ 0 < t.hold (.safelist sl)) {body : ℕ → Proc Unit}
    (hbody : ∀ obj, Obeys t P (body obj) fun _ => P) (hb : ∀ obj, Balanced (body obj)) {n : ℕ}
    (hg : Obeys t P (g ()) Q) : Obeys t P (Locked.pollLoop sl body n >>= g) Q :=
  (obeys_pollLoop hP h hbody hb n).bind (balanced_pollLoop sl hb n) fun _ => hg

/-- The elements go to a list that is locked and does not forward. -/
theorem obeys_safelistForward (hP : Closed P) (n : ℕ) {sl dest : ListRef} (h : Below 2 t)
    (hroot : ∀ μ, P μ → μ.heap.listForward dest = none)
    (hforward : ∀ μ : Memory, P μ → P { μ with
      heap := μ.heap.modifySafelist sl fun l => { l with forward := some dest } }) :
    Obeys t P (safelistForward n sl (some dest)) fun _ => P := by
  apply Obeys.start2
  · apply h.request
    simp [Lockable.level]
  intro t' ho
  apply Obeys.pollLoop hP (.inr (ho.new (by simp)))
  · intro obj
    exact obeys_safelistAdd hP n dest obj (.inr ⟨ho.new (by simp), hroot⟩)
  · intro obj
    exact balanced_safelistAdd n dest obj
  apply Obeys.modify hforward
  exact obeys_lockerEnd fun _ h => h

/-! ## `collector.c` -/

/-- An object is locked first of all, or is locked already. -/
def Ready (t : Locker.Thread Lockable) (obj : ℕ) : Prop := Below 0 t ∨ 0 < t.hold (.object obj)

theorem Ready.request {obj : ℕ} (h : Ready t obj) : Request t [objectLock obj] := by
  rcases h with h | h
  · apply h.request
    simp [Lockable.level]
  · apply request_held
    simpa using h

theorem obeys_objectSetCollector (hP : Closed P) {obj : ℕ} (c : Option ℕ) (h : Ready t obj) :
    Obeys t P (objectSetCollector obj c) fun _ => P := by
  apply Obeys.start1 h.request
  intro t' _
  apply Obeys.places hP fun s => objectSetCollector_places s obj c
  exact obeys_lockerEnd fun _ h => h

theorem obeys_idlockInit (k : Lockable) : Obeys t P (idlockInit k) fun _ => P := by
  intro m _ _ hP
  exact ⟨follows_self rfl rfl rfl, fun u m' hr => by rwa [returns_write.mp hr]⟩

theorem collectorCreate_rooted {s : State} (h : Rooted s) : Rooted (Acid.collectorCreate s).1 := by
  intro c n hc
  rw [State.forward, Acid.collectorCreate] at hc
  rw [State.listForward, State.safelist, Acid.collectorCreate]
  dsimp only at hc ⊢
  rw [Function.update_apply] at hc ⊢
  split_ifs at hc ⊢ with hn
  · rfl
  · exact h c n hc

/-- `safelist_init` of a list of the collector that has just been created. -/
theorem safelistInit_rooted {s : State} (h : Rooted s) (r : ListRef) :
    Rooted (s.modifySafelist r fun _ => {}) := by
  intro c n hc
  rw [(modifySafelist_same s r _).forward] at hc
  rw [State.listForward, State.modifySafelist_safelist]
  split_ifs
  · rfl
  · exact h c n hc

theorem obeys_safelistInit (hP : Steady P) (r : ListRef) :
    Obeys t P (safelistInit r) fun _ => P := by
  apply (obeys_idlockInit _).bind (balanced_idlockInit _)
  intro _
  apply obeys_modify
  intro μ hμ
  exact hP.links μ _ (sameLinks_of_graph (modifySafelist_frame _ r _).graph)
    (safelistInit_rooted (hP.rooted μ hμ) r) hμ

theorem obeys_collectorCreate (hP : Steady P) : Obeys t P collectorCreate fun _ => P := by
  apply Obeys.bind (obeys_call _) (balanced_call _)
  · intro c
    iterate 5 apply (obeys_safelistInit hP _).bind (balanced_safelistInit _); intro _
    apply (obeys_idlockInit _).bind (balanced_idlockInit _)
    intro _
    exact obeys_pure fun _ h => h
  · intro μ hμ
    exact hP.links μ _ (sameLinks_of_graph (collectorCreate_frame _).graph)
      (collectorCreate_rooted (hP.rooted μ hμ)) hμ

theorem obeys_collectorSetForward {Q : Memory → Prop} {c : ℕ} {f : Option ℕ}
    (hc : 0 < t.hold (.collector c)) (hf : ∀ d, f = some d → 0 < t.hold (.collector d))
    (hg : ∀ μ, P μ → ∀ d, μ.heap.forward c = some d → 0 < t.hold (.collector d))
    (hQ : ∀ μ : Memory, P μ → Q { μ with heap := Acid.collectorSetForward μ.heap c f }) :
    Obeys t P (collectorSetForward c f) fun _ => Q := by
  apply Obeys.gets
  intro g
  apply Obeys.fact (q := ∀ d, g = some d → 0 < t.hold (.collector d))
  · rintro μ ⟨hμ, hg'⟩ d hd
    exact hg μ hμ d (hg'.trans hd)
  intro hg'
  apply Obeys.start3
  · apply request_held
    intro k hk
    simp only [List.mem_cons, some_eq_collectorLock, some_eq_bind_collectorLock,
      List.not_mem_nil, or_false] at hk
    rcases hk with rfl | ⟨d, hd, rfl⟩ | ⟨d, hd, rfl⟩
    · exact hc
    · exact hg' d hd
    · exact hf d hd
  intro t' _
  apply Obeys.gets
  intro g'
  apply Obeys.ite
  · intro heq
    apply obeys_lockerEnd
    rintro μ ⟨⟨hμ, _⟩, hg'⟩
    have := hQ μ hμ
    rwa [Acid.collectorSetForward, if_pos (heq.trans hg'.symm)] at this
  · intro hne
    apply Obeys.modify (R := fun μ => Q { μ with
      heap := μ.heap.modifyCollector c fun k => { k with forward := f } })
    · rintro μ ⟨⟨hμ, _⟩, hg'⟩
      have := hQ μ hμ
      rwa [Acid.collectorSetForward, if_neg fun heq => hne (heq.trans hg')] at this
    apply Obeys.modify (R := Q)
    · intro μ hμ
      exact hμ
    exact obeys_lockerEnd fun _ h => h

theorem obeys_collectorTerminate {c : ℕ} (hc : 0 < t.hold (.collector c))
    (hg : ∀ μ, P μ → ∀ d, μ.heap.forward c = some d → 0 < t.hold (.collector d)) :
    Obeys t P (collectorTerminate c) fun _ _ => True := by
  apply Obeys.gets
  intro g
  apply Obeys.fact (q := ∀ d, g = some d → 0 < t.hold (.collector d))
  · rintro μ ⟨hμ, hg'⟩ d hd
    exact hg μ hμ d (hg'.trans hd)
  intro hg'
  apply Obeys.start2
  · apply request_held
    intro k hk
    simp only [List.mem_cons, some_eq_collectorLock, some_eq_bind_collectorLock,
      List.not_mem_nil, or_false] at hk
    rcases hk with rfl | ⟨d, hd, rfl⟩
    · exact hc
    · exact hg' d hd
  intro t' ho
  apply Obeys.bind _ (balanced_collectorSetForward c none)
  · intro _
    exact obeys_lockerEnd fun _ h => h
  · apply obeys_collectorSetForward (ho.old hc)
    · intro d hd
      cases hd
    · intro μ hμ d hd
      exact ho.old (hg μ hμ.1 d hd)
    · intro μ _
      trivial

theorem obeys_collectorAddObject (hP : Closed P) (n c obj : ℕ) (hbelow : Below 1 t)
    (hobj : 0 < t.hold (.object obj)) : Obeys t P (collectorAddObject n c obj) fun _ => P := by
  suffices h : ∀ k addTo, Obeys t P (addObjectLoop n obj k addTo) fun _ => P from h n c
  intro k
  induction k with
  | zero =>
    intro addTo
    exact obeys_failure
  | succ k ih =>
    intro addTo
    apply Obeys.start2
    · apply hbelow.request
      simpa [Lockable.level] using hobj
    intro t' ho
    have hbelow' : Below 2 t' := by
      apply ho.below (hbelow.mono (by omega))
      simp [Lockable.level]
    apply Obeys.idle
    rintro (_ | f)
    · apply Obeys.places hP fun s => modifyObject_places s obj rfl
      apply Obeys.places hP fun s => modifyObject_places s obj rfl
      apply (obeys_safelistAdd hP n _ obj (.inl hbelow')).bind (balanced_safelistAdd n _ obj)
      intro _
      apply (obeys_objectSetCollector hP _ (.inr (ho.old hobj))).bind
        (balanced_objectSetCollector obj _)
      intro _
      exact obeys_lockerEnd fun _ h => h
    · apply Obeys.stop ho.close
      exact ih f

theorem obeys_collectorUpdate (n : ℕ) (hbelow : Below 1 t) :
    ∀ c, Obeys t P (collectorUpdate n c) fun _ => P := by
  induction n with
  | zero =>
    intro c
    exact obeys_failure
  | succ n ih =>
    rintro (_ | c)
    · apply Obeys.start1
      · apply hbelow.request
        simp
      intro t' _
      exact obeys_failure
    · apply Obeys.start1
      · apply hbelow.request
        simp [Lockable.level]
      intro t' ho
      apply Obeys.idle
      rintro (_ | d)
      · apply Obeys.stop ho.close
        exact obeys_pure fun _ h => h
      · apply Obeys.stop ho.close
        exact ih (some d)

theorem collectorSetForward_listForward (s : State) (c : ℕ) (f : Option ℕ) (r : ListRef) :
    (Acid.collectorSetForward s c f).listForward r = s.listForward r := by
  unfold Acid.collectorSetForward
  split_ifs
  · rfl
  · have hr := counterRepoint_field (fun k => (k.lists r.2).forward) (fun _ _ => rfl) s
      (s.forward c) f
    rw [State.listForward, State.safelist, State.modifyCollector_collectors]
    split_ifs with hrc
    · subst hrc
      exact hr r.1
    · exact hr r.1

/-- `μ` is `ν` after some lists of `c` have been handed over. -/
structure HandedOver (c : ℕ) (ν μ : Memory) : Prop where
  same : SameLinks ν.heap μ.heap
  nullTarget : μ.nullTarget = ν.nullTarget
  others : μ.others = ν.others
  forward : μ.heap.forward = ν.heap.forward
  lists : ∀ r : ListRef, r.1 ≠ c → μ.heap.listForward r = ν.heap.listForward r

theorem handedOver_closed (c : ℕ) (ν : Memory) : Closed (HandedOver c ν) := by
  intro μ s hs hμ
  exact ⟨hμ.same.trans hs.toSameLinks, hμ.nullTarget, hμ.others, hs.forward.trans hμ.forward,
    fun r hr => (congrFun hs.listForward r).trans (hμ.lists r hr)⟩

theorem HandedOver.hand {c : ℕ} {ν μ : Memory} (h : HandedOver c ν μ) (n : ListName)
    (f : Safelist → Safelist) :
    HandedOver c ν { μ with heap := μ.heap.modifySafelist (c, n) f } where
  same := h.same.trans (sameLinks_of_graph (modifySafelist_frame _ _ f).graph)
  nullTarget := h.nullTarget
  others := h.others
  forward := (modifySafelist_same _ _ f).forward.trans h.forward
  lists r hr := by
    dsimp only
    rw [State.listForward, State.modifySafelist_safelist, if_neg, ← State.listForward]
    · exact h.lists r hr
    · intro heq
      rw [heq] at hr
      exact hr rfl

theorem obeys_collectorForwardSafelistsTo (n : ℕ) {c d : ℕ} {ν : Memory} (hcd : d ≠ c)
    (hbelow : Below 2 t) (hc : 0 < t.hold (.collector c)) (hd : 0 < t.hold (.collector d))
    (hroot : ∀ l, ν.heap.listForward (d, l) = none) :
    Obeys t (HandedOver c ν) (collectorForwardSafelistsTo n c d) fun _ => HandedOver c ν := by
  apply Obeys.start2
  · apply request_held
    simp only [List.mem_cons, some_eq_collectorLock, List.not_mem_nil, or_false]
    rintro k (rfl | rfl)
    · exact hc
    · exact hd
  intro t' ho
  have hbelow' : Below 2 t' := by
    apply ho.below hbelow
    simp [Lockable.level]
  have hlist : ∀ l l', Obeys t' (HandedOver c ν)
      (safelistForward n (c, l) (some (d, l'))) fun _ => HandedOver c ν := by
    intro l l'
    apply obeys_safelistForward (handedOver_closed c ν) n hbelow'
    · intro μ hμ
      exact (hμ.lists (d, l') hcd).trans (hroot l')
    · intro μ hμ
      exact hμ.hand l _
  iterate 5 apply (hlist _ _).bind (balanced_safelistForward n _ _); intro _
  exact obeys_lockerEnd fun _ h => h

/-- The merge keeps the memory rooted: the collector whose lists forward comes to forward. -/
theorem obeys_collectorMerge (hP : Steady P) (n : ℕ) {c s : ℕ} (hcs : c ≠ s) (hbelow : Below 2 t)
    (hc : 0 < t.hold (.collector c)) (hs : 0 < t.hold (.collector s)) :
    Obeys t (fun μ => P μ ∧ μ.heap.forward c = none ∧ μ.heap.forward s = none)
      (collectorMerge n c s) fun _ => P := by
  -- the memory before the merge is the one that the lists are compared with
  intro m ht hi hμ
  have hroot : ∀ l, m.heap.listForward (c, l) = none := fun l => hP.rooted _ hμ.1 c l hμ.2.1
  suffices h : Obeys t (HandedOver s m.toMemory) (collectorMerge n c s) fun _ => P from
    h m ht hi ⟨(SamePlaces.refl _).toSameLinks, rfl, rfl, rfl, fun _ _ => rfl⟩
  apply Obeys.start2
  · apply request_held
    simp only [List.mem_cons, some_eq_collectorLock, List.not_mem_nil, or_false]
    rintro k (rfl | rfl)
    · exact hc
    · exact hs
  intro t' ho
  have hbelow' : Below 2 t' := by
    apply ho.below hbelow
    simp [Lockable.level]
  apply Obeys.bind (obeys_collectorForwardSafelistsTo n hcs hbelow' (ho.old hs) (ho.old hc) hroot)
    (balanced_collectorForwardSafelistsTo n s c)
  intro _
  apply Obeys.bind _ (balanced_collectorSetForward s _)
  · intro _
    exact obeys_lockerEnd fun _ h => h
  apply obeys_collectorSetForward (ho.old hs)
  · intro d hd
    cases hd
    exact ho.old hc
  · intro μ h d hd
    rw [h.forward, hμ.2.2] at hd
    cases hd
  · intro μ h
    have hlinks := h.same.trans
      (sameLinks_of_graph (collectorSetForward_frame μ.heap s (some c)).graph)
    have hkeep := hP.links m.toMemory (Acid.collectorSetForward μ.heap s (some c)) hlinks ?_ hμ.1
    · rwa [← h.nullTarget, ← h.others] at hkeep
    · intro d l hd
      rw [collectorSetForward_forward, Function.update_apply, h.forward] at hd
      split_ifs at hd with hds
      rw [collectorSetForward_listForward, h.lists (d, l) hds]
      exact hP.rooted _ hμ.1 d l hd

end Acid.Locked

import Acid.Frame

set_option autoImplicit false

/-!
# Collector merging is union-find
-/
namespace Acid
open PointerForest

/-- The forward pointers form a forest of allocated collectors, and objects point into it. -/
structure Forest (s : State) : Prop where
  ranked : Ranked s.forward
  bound : ∀ a b, s.forward a = some b → b < s.numCollector
  held : ∀ x c, (s.objects x).collector = some c → c < s.numCollector

/-- The pointers of collectors and objects stay, and every loop has returned. -/
structure SamePointers (s s' : State) : Prop where
  objects : s'.objects = s.objects
  forward : s'.forward = s.forward
  numCollector : s'.numCollector = s.numCollector
  noReturn : s'.trace.count .noReturn = s.trace.count .noReturn

namespace SamePointers

theorem refl (s : State) : SamePointers s s := ⟨rfl, rfl, rfl, rfl⟩

theorem trans {s s' s'' : State} (h : SamePointers s s') (h' : SamePointers s' s'') :
    SamePointers s s'' :=
  ⟨h'.objects.trans h.objects, h'.forward.trans h.forward, h'.numCollector.trans h.numCollector,
    h'.noReturn.trans h.noReturn⟩

end SamePointers

section
variable (s : State)

theorem modifyCollector_same (c : ℕ) {f : Collector → Collector}
    (hf : (f (s.collectors c)).forward = (s.collectors c).forward) :
    SamePointers s (s.modifyCollector c f) := by
  refine ⟨rfl, ?_, rfl, rfl⟩
  funext a
  rw [State.forward, State.modifyCollector_collectors]
  split_ifs with ha
  · rw [hf, ha]
    rfl
  · rfl

theorem check_same (p : Prop) [Decidable p] {e : Event} (he : e ≠ .noReturn) :
    SamePointers s (s.check p e) := by
  unfold State.check
  split_ifs
  · exact .refl s
  · exact ⟨rfl, rfl, rfl, List.count_cons_of_ne he⟩

theorem counterIncRef_same (c : ℕ) : SamePointers s (counterIncRef s c) :=
  modifyCollector_same s c rfl

theorem counterDecRef_same (c : ℕ) : SamePointers s (counterDecRef s c) :=
  (check_same s _ (by simp)).trans (modifyCollector_same _ c rfl)

theorem modifySafelist_same (r : ListRef) (f : Safelist → Safelist) :
    SamePointers s (s.modifySafelist r f) :=
  modifyCollector_same s r.1 rfl

theorem safelistPush_same (r : ListRef) (o : ℕ) : SamePointers s (safelistPush s r o) :=
  (modifyCollector_same s r.1 rfl).trans (modifySafelist_same _ r _)

theorem safelistAdd_same (r : ListRef) (o : ℕ) : SamePointers s (safelistAdd s r o) := by
  unfold safelistAdd
  split <;> exact safelistPush_same s _ o

theorem safelistPoll_same (r : ListRef) : SamePointers s (safelistPoll s r).1 := by
  cases h : (s.safelist r).data with
  | nil =>
    rw [safelistPoll_nil h]
    exact .refl s
  | cons o rest =>
    rw [safelistPoll_cons h]
    dsimp only
    exact ((check_same s _ (by simp)).trans (modifyCollector_same _ r.1 rfl)).trans
      (modifySafelist_same _ r _)

theorem safelistDrain_same (dest r : ListRef) (n : ℕ) :
    SamePointers s (safelistDrain dest r n s) := by
  induction n generalizing s with
  | zero => exact .refl s
  | succ n ih =>
    have hp := safelistPoll_same s r
    unfold safelistDrain
    split
    · rename_i s' h
      rwa [h] at hp
    · rename_i s' o h
      rw [h] at hp
      exact (hp.trans (safelistAdd_same s' dest o)).trans (ih _)

theorem safelistForward_same (r dest : ListRef) : SamePointers s (safelistForward s r dest) :=
  (safelistDrain_same s dest r _).trans (modifySafelist_same _ r _)

theorem counterRepoint_same (old new : Option ℕ) :
    SamePointers s (counterRepoint s old new) := by
  cases new <;> cases old
  · exact .refl s
  · exact counterDecRef_same s _
  · exact counterIncRef_same s _
  · exact (counterIncRef_same s _).trans (counterDecRef_same _ _)

theorem objectSetCollector_forward (x : ℕ) (c : Option ℕ) :
    (objectSetCollector s x c).forward = s.forward := by
  unfold objectSetCollector
  split_ifs
  · rfl
  · exact (counterRepoint_same s _ c).forward

theorem objectSetCollector_rest (x : ℕ) (c : Option ℕ) :
    (objectSetCollector s x c).numCollector = s.numCollector ∧
      (objectSetCollector s x c).trace.count .noReturn = s.trace.count .noReturn := by
  unfold objectSetCollector
  split_ifs
  · exact ⟨rfl, rfl⟩
  · have hr := counterRepoint_same s (s.objects x).collector c
    exact ⟨hr.numCollector, hr.noReturn⟩

theorem collectorSetForward_forward (c : ℕ) (f : Option ℕ) :
    (collectorSetForward s c f).forward = Function.update s.forward c f := by
  unfold collectorSetForward
  split_ifs with hf
  · rw [hf, Function.update_eq_self]
  · have hr := congrFun (counterRepoint_same s (s.forward c) f).forward
    funext a
    rw [State.forward, State.modifyCollector_collectors, Function.update_apply]
    split_ifs
    · rfl
    · exact hr a

theorem collectorSetForward_rest (c : ℕ) (f : Option ℕ) :
    (collectorSetForward s c f).objects = s.objects ∧
      (collectorSetForward s c f).numCollector = s.numCollector ∧
      (collectorSetForward s c f).trace.count .noReturn = s.trace.count .noReturn := by
  unfold collectorSetForward
  split_ifs
  · exact ⟨rfl, rfl, rfl⟩
  · have hr := counterRepoint_same s (s.forward c) f
    exact ⟨hr.objects, hr.numCollector, hr.noReturn⟩

theorem collectorForwardSafelistsTo_same (c t : ℕ) :
    SamePointers s (collectorForwardSafelistsTo s c t) :=
  ((((safelistForward_same s _ _).trans (safelistForward_same _ _ _)).trans
    (safelistForward_same _ _ _)).trans (safelistForward_same _ _ _)).trans
    (safelistForward_same _ _ _)

theorem collectorMerge_forward (t c : ℕ) :
    (collectorMerge s t c).forward = Function.update s.forward c (some t) := by
  rw [collectorMerge, collectorSetForward_forward, (collectorForwardSafelistsTo_same s c t).forward]

theorem collectorMerge_rest (t c : ℕ) :
    (collectorMerge s t c).objects = s.objects ∧
      (collectorMerge s t c).numCollector = s.numCollector ∧
      (collectorMerge s t c).trace.count .noReturn = s.trace.count .noReturn := by
  have hl := collectorForwardSafelistsTo_same s c t
  have hf := collectorSetForward_rest (collectorForwardSafelistsTo s c t) c (some t)
  exact ⟨hf.1.trans hl.objects, hf.2.1.trans hl.numCollector, hf.2.2.trans hl.noReturn⟩

end

theorem collectorUpdate_congr {s s' : State} (hn : s'.numCollector = s.numCollector)
    (h : s'.forward = s.forward) (a : ℕ) : collectorUpdate s' a = collectorUpdate s a := by
  unfold collectorUpdate
  rw [hn, h]

theorem collectorUpdate_of_root {s : State} {a : ℕ} (ha : s.forward a = none) :
    collectorUpdate s a = a :=
  root_of_root ha

theorem objectSetCollector_objects (s : State) (x : ℕ) (c : Option ℕ) (y : ℕ) :
    (objectSetCollector s x c).objects y =
      if y = x then { s.objects x with collector := c } else s.objects y := by
  unfold objectSetCollector
  split_ifs with h1 h2 h2
  · rw [h2, ← h1]
  · rfl
  · subst h2
    rw [State.modifyObject_objects_self, (counterRepoint_same s _ c).objects]
  · rw [State.modifyObject_objects_ne _ _ h2, (counterRepoint_same s _ c).objects]

theorem objectSetCollector_collector (s : State) (x : ℕ) (c : Option ℕ) (y : ℕ) :
    ((objectSetCollector s x c).objects y).collector =
      if y = x then c else (s.objects y).collector := by
  rw [objectSetCollector_objects]
  split_ifs <;> rfl

theorem objectSetCollector_count (s : State) (x : ℕ) (c : Option ℕ) (y : ℕ) :
    ((objectSetCollector s x c).objects y).count = (s.objects y).count ∧
      ((objectSetCollector s x c).objects y).count2 = (s.objects y).count2 := by
  rw [objectSetCollector_objects]
  split_ifs with hy
  · rw [hy]
    exact ⟨rfl, rfl⟩
  · exact ⟨rfl, rfl⟩

/-- Two collector pointers that are set one after the other. -/
theorem setBoth_count (s : State) (obj target : ℕ) (c : Option ℕ) (x : ℕ) :
    ((objectSetCollector (objectSetCollector s target c) obj c).objects x).count =
        (s.objects x).count ∧
      ((objectSetCollector (objectSetCollector s target c) obj c).objects x).count2 =
        (s.objects x).count2 := by
  have h1 := objectSetCollector_count s target c x
  have h2 := objectSetCollector_count (objectSetCollector s target c) obj c x
  exact ⟨h2.1.trans h1.1, h2.2.trans h1.2⟩

theorem mergeLoop_count (obj target n : ℕ) (s : State) (t c x : ℕ) :
    ((mergeLoop obj target n s t c).1.objects x).count = (s.objects x).count ∧
      ((mergeLoop obj target n s t c).1.objects x).count2 = (s.objects x).count2 := by
  induction n generalizing t c with
  | zero => exact ⟨rfl, rfl⟩
  | succ n ih =>
    unfold mergeLoop
    split
    · exact setBoth_count s obj target _ x
    · split
      · exact setBoth_count s obj target _ x
      · split
        · exact ih _ _
        · split
          · exact ih _ _
          · split
            · exact ⟨rfl, rfl⟩
            · have hb := setBoth_count ((collectorMerge s t c).check
                ((collectorMerge s t c).forward c = some t) (.assertFailed .mergeForward)) obj
                target (some t) x
              rw [State.check_objects, (collectorMerge_rest s t c).1] at hb
              exact hb

theorem objectMergeCollectors_count (s : State) (obj target x : ℕ) :
    ((objectMergeCollectors s obj target).1.objects x).count = (s.objects x).count ∧
      ((objectMergeCollectors s obj target).1.objects x).count2 = (s.objects x).count2 := by
  unfold objectMergeCollectors
  split
  · exact ⟨rfl, rfl⟩
  · exact objectSetCollector_count s target _ x
  · exact objectSetCollector_count s obj _ x
  · split_ifs
    · exact ⟨rfl, rfl⟩
    · exact mergeLoop_count obj target _ s _ _ x

/-- The merge loop gives both objects the common root, or merges two roots. The return
without an assignment is out of reach from two different positions. -/
theorem mergeLoop_ends {s : State} {rank : ℕ → ℕ}
    (hr : ∀ a b, s.forward a = some b → rank b < rank a) (o x n : ℕ) (t c : ℕ)
    (hlt : rank t + rank c < n) (hne : t = c → s.forward c ≠ none) :
    (∃ d, Chain s.forward t d ∧ Chain s.forward c d ∧ s.forward d = none ∧
      mergeLoop o x n s t c =
        (objectSetCollector (objectSetCollector s x (some d)) o (some d), false)) ∨
    (∃ d e, Chain s.forward t d ∧ Chain s.forward c e ∧ s.forward d = none ∧
      s.forward e = none ∧ e ≠ d ∧ mergeLoop o x n s t c =
        (objectSetCollector (objectSetCollector (collectorMerge s d e) x (some d)) o (some d),
          true)) := by
  induction n generalizing t c with
  | zero => omega
  | succ n ih =>
    by_cases h1 : s.forward t = some c ∧ s.forward c = none
    · exact .inl ⟨c, .single h1.1, .refl, h1.2, by rw [mergeLoop, if_pos h1]⟩
    by_cases h2 : s.forward c = some t ∧ s.forward t = none
    · exact .inl ⟨t, .refl, .single h2.1, h2.2, by rw [mergeLoop, if_neg h1, if_pos h2]⟩
    cases ht : s.forward t with
    | some t' =>
      have hstep : mergeLoop o x (n + 1) s t c = mergeLoop o x n s t' c := by
        rw [mergeLoop, if_neg h1, if_neg h2, ht]
      have hrank := hr t t' ht
      rw [hstep]
      rcases ih t' c (by omega) (by rintro rfl hn; exact h1 ⟨ht, hn⟩) with
        ⟨d, hd, h⟩ | ⟨d, e, hd, h⟩
      · exact .inl ⟨d, .head ht hd, h⟩
      · exact .inr ⟨d, e, .head ht hd, h⟩
    | none =>
      cases hc : s.forward c with
      | some c' =>
        have hstep : mergeLoop o x (n + 1) s t c = mergeLoop o x n s t c' := by
          rw [mergeLoop, if_neg h1, if_neg h2, ht, hc]
        have hrank := hr c c' hc
        rw [hstep]
        rcases ih t c' (by omega) (by rintro rfl _; exact h2 ⟨hc, ht⟩) with
          ⟨d, hd, he, h⟩ | ⟨d, e, hd, he, h⟩
        · exact .inl ⟨d, hd, .head hc he, h⟩
        · exact .inr ⟨d, e, hd, .head hc he, h⟩
      | none =>
        have hct : c ≠ t := fun h => hne h.symm hc
        have hfor : (collectorMerge s t c).forward c = some t := by
          rw [collectorMerge_forward, Function.update_self]
        refine .inr ⟨t, c, .refl, .refl, ht, hc, hct, ?_⟩
        rw [mergeLoop, if_neg h1, if_neg h2, ht, hc]
        simp only [if_neg hct]
        rw [State.check_pos _ hfor]

theorem collectorEquals_self (s : State) (c : Option ℕ) : collectorEquals s c c = true := by
  unfold collectorEquals
  cases 2 * s.numCollector <;> simp [collectorEqualsLoop]

namespace Forest
variable {s : State} (h : Forest s)
include h

theorem leadsTo (c : ℕ) : LeadsTo s.forward c (collectorUpdate s c) :=
  root_leadsTo h.ranked h.bound c

theorem update_isRoot (c : ℕ) : s.forward (collectorUpdate s c) = none :=
  root_isRoot h.ranked h.bound c

theorem update_of_chain {a d : ℕ} (ha : Chain s.forward a d) (hd : s.forward d = none) :
    collectorUpdate s a = d :=
  root_eq h.ranked h.bound (ha.leadsTo (.root hd))

theorem update_of_forward {a b : ℕ} (hab : s.forward a = some b) :
    collectorUpdate s a = collectorUpdate s b :=
  root_next h.ranked h.bound hab

/-- With fuel for both chains the equality loop compares the two roots. -/
theorem equalsLoop {rank : ℕ → ℕ} (hr : ∀ a b, s.forward a = some b → rank b < rank a)
    (n a b : ℕ) (hn : rank a + rank b ≤ n) :
    collectorEqualsLoop s n (some a) (some b) = true ↔
      collectorUpdate s a = collectorUpdate s b := by
  induction n generalizing a b with
  | zero =>
    have hroot : ∀ c, rank c = 0 → s.forward c = none := by
      intro c hc
      cases hf : s.forward c with
      | none => rfl
      | some d =>
        have := hr c d hf
        omega
    rw [collectorUpdate_of_root (hroot a (by omega)), collectorUpdate_of_root (hroot b (by omega))]
    simp [collectorEqualsLoop]
  | succ n ih =>
    by_cases hab : a = b
    · simp [collectorEqualsLoop, hab]
    · have hab' : ¬ some a = some b := by simpa using hab
      rw [collectorEqualsLoop, if_neg hab']
      cases ha : s.forward a with
      | some a' =>
        have hrank := hr a a' ha
        simp only [Option.bind_some, ha]
        rw [ih a' b (by omega), h.update_of_forward ha]
      | none =>
        cases hb : s.forward b with
        | some b' =>
          have hrank := hr b b' hb
          simp only [Option.bind_some, ha, hb]
          rw [ih a b' (by omega), h.update_of_forward hb]
        | none =>
          simp only [Option.bind_some, ha, hb]
          rw [collectorUpdate_of_root ha, collectorUpdate_of_root hb]
          simp [hab]

theorem equals_iff (a b : ℕ) : collectorEquals s (some a) (some b) = true ↔
    collectorUpdate s a = collectorUpdate s b := by
  obtain ⟨rank, hr, hb⟩ := h.ranked.bounded s.numCollector h.bound
  have ha1 := hb a
  have hb1 := hb b
  exact h.equalsLoop hr _ a b (by omega)

/-- More fuel changes nothing: the loop has returned. -/
theorem equals_returns (a b n : ℕ) (hn : 2 * s.numCollector ≤ n) :
    collectorEqualsLoop s n (some a) (some b) = collectorEquals s (some a) (some b) := by
  obtain ⟨rank, hr, hb⟩ := h.ranked.bounded s.numCollector h.bound
  have ha1 := hb a
  have hb1 := hb b
  rw [Bool.eq_iff_iff, h.equalsLoop hr n a b (by omega), h.equals_iff]

omit h in
/-- The loop takes one of its exits while the chains get shorter. -/
theorem equalsExit {rank : ℕ → ℕ} (hr : ∀ a b, s.forward a = some b → rank b < rank a) (n : ℕ)
    (c1 c2 : Option ℕ) (hn : c1.elim 0 rank + c2.elim 0 rank ≤ n) :
    collectorEqualsExit s (n + 1) c1 c2 = some (collectorEqualsLoop s n c1 c2) := by
  have hdrop : ∀ {c : Option ℕ} {d : ℕ}, c.bind s.forward = some d → rank d < c.elim 0 rank := by
    intro c d hd
    obtain ⟨a, rfl, ha⟩ := Option.bind_eq_some_iff.mp hd
    exact hr a d ha
  induction n generalizing c1 c2 with
  | zero =>
    have hroot : ∀ {c : Option ℕ}, c.elim 0 rank = 0 → c.bind s.forward = none := by
      intro c hc
      cases hd : c.bind s.forward with
      | none => rfl
      | some d =>
        have hlt := hdrop hd
        omega
    rw [collectorEqualsExit, hroot (by omega), hroot (by omega), collectorEqualsLoop]
    split_ifs with heq
    · simp [heq]
    · simp [heq]
  | succ n ih =>
    rw [collectorEqualsExit, collectorEqualsLoop]
    split_ifs
    · rfl
    cases h1 : c1.bind s.forward with
    | some d =>
      have hlt := hdrop h1
      exact ih (some d) c2 (by simp only [Option.elim_some]; omega)
    | none =>
      cases h2 : c2.bind s.forward with
      | some d =>
        have hlt := hdrop h2
        exact ih c1 (some d) (by simp only [Option.elim_some]; omega)
      | none => rfl

/-- `collector_equals` leaves its loop, for `NULL` as well. -/
theorem equals_exits (c1 c2 : Option ℕ) :
    collectorEqualsExit s (2 * s.numCollector + 1) c1 c2 = some (collectorEquals s c1 c2) := by
  obtain ⟨rank, hr, hb⟩ := h.ranked.bounded s.numCollector h.bound
  have hle : ∀ c : Option ℕ, c.elim 0 rank ≤ s.numCollector := by
    intro c
    cases c with
    | none => exact Nat.zero_le _
    | some c => exact hb c
  have h1 := hle c1
  have h2 := hle c2
  exact equalsExit hr _ c1 c2 (by omega)

theorem update_exits (c : ℕ) :
    chaseLoop s.forward (s.numCollector + 1) c = some (collectorUpdate s c) :=
  chaseLoop_root h.ranked h.bound c

theorem setCollector (x : ℕ) {c : Option ℕ} (hc : ∀ d, c = some d → d < s.numCollector) :
    Forest (objectSetCollector s x c) := by
  have hf := objectSetCollector_forward s x c
  have hn := (objectSetCollector_rest s x c).1
  refine ⟨hf ▸ h.ranked, ?_, ?_⟩
  · rw [hf, hn]
    exact h.bound
  · intro y d hy
    rw [objectSetCollector_collector] at hy
    rw [hn]
    split_ifs at hy with hyx
    · exact hc d hy
    · exact h.held y d hy

theorem create : Forest (collectorCreate s).1 := by
  have hf : (collectorCreate s).1.forward =
      Function.update s.forward s.numCollector none := by
    funext a
    by_cases ha : a = s.numCollector
    · subst ha
      simp [State.forward, collectorCreate]
    · simp [State.forward, collectorCreate, ha]
  refine ⟨hf ▸ h.ranked.unlink _, ?_, ?_⟩
  · intro a b hab
    rw [hf, Function.update_apply] at hab
    split_ifs at hab
    exact Nat.lt_succ_of_lt (h.bound a b hab)
  · intro x c hx
    exact Nat.lt_succ_of_lt (h.held x c hx)

theorem terminate (c : ℕ) : Forest (collectorTerminate s c) := by
  have hf : (collectorTerminate s c).forward = Function.update s.forward c none :=
    collectorSetForward_forward s c none
  have hn : (collectorTerminate s c).numCollector = s.numCollector :=
    (collectorSetForward_rest s c none).2.1
  refine ⟨hf ▸ h.ranked.unlink c, ?_, ?_⟩
  · intro a b hab
    rw [hf, Function.update_apply] at hab
    rw [hn]
    split_ifs at hab
    exact h.bound a b hab
  · intro x d hx
    rw [hn]
    rw [collectorTerminate, (collectorSetForward_rest s c none).1] at hx
    exact h.held x d hx

section
variable {d e : ℕ} (hd : s.forward d = none) (he : s.forward e = none) (hne : e ≠ d)
  (hdn : d < s.numCollector)

include hd hne hdn in
theorem merge : Forest (collectorMerge s d e) := by
  have hf := collectorMerge_forward s d e
  obtain ⟨ho, hn, _⟩ := collectorMerge_rest s d e
  refine ⟨hf ▸ h.ranked.join hd hne, ?_, ?_⟩
  · intro a b hab
    rw [hf, Function.update_apply] at hab
    rw [hn]
    split_ifs at hab
    · exact Option.some.inj hab ▸ hdn
    · exact h.bound a b hab
  · intro x c hx
    rw [ho] at hx
    rw [hn]
    exact h.held x c hx

include hd he hne hdn in
theorem merge_update (a : ℕ) : collectorUpdate (collectorMerge s d e) a =
    if collectorUpdate s a = e then d else collectorUpdate s a := by
  unfold collectorUpdate
  rw [(collectorMerge_rest s d e).2.1, collectorMerge_forward]
  exact root_join h.ranked h.bound he hd hne hdn a

end

/-- What `object_merge_collectors` does, by the collectors that it finds. -/
inductive Outcome (s : State) (obj target : ℕ) : State × Bool → Prop where
  | neither (ho : (s.objects obj).collector = none) (ht : (s.objects target).collector = none) :
      Outcome s obj target (s, false)
  | given {c : ℕ} (ho : (s.objects obj).collector = some c)
      (ht : (s.objects target).collector = none) :
      Outcome s obj target (objectSetCollector s target (some c), false)
  | taken {t : ℕ} (ho : (s.objects obj).collector = none)
      (ht : (s.objects target).collector = some t) :
      Outcome s obj target (objectSetCollector s obj (some t), false)
  | equal {c : ℕ} (ho : (s.objects obj).collector = some c)
      (ht : (s.objects target).collector = some c) : Outcome s obj target (s, false)
  | found {c t d : ℕ} (ho : (s.objects obj).collector = some c)
      (ht : (s.objects target).collector = some t) (hct : t ≠ c)
      (hd : collectorUpdate s t = d) (he : collectorUpdate s c = d) :
      Outcome s obj target
        (objectSetCollector (objectSetCollector s target (some d)) obj (some d), false)
  | merged {c t d e : ℕ} (ho : (s.objects obj).collector = some c)
      (ht : (s.objects target).collector = some t) (hct : t ≠ c)
      (hd : collectorUpdate s t = d) (he : collectorUpdate s c = e) (hne : e ≠ d) :
      Outcome s obj target (objectSetCollector (objectSetCollector (collectorMerge s d e)
        target (some d)) obj (some d), true)

theorem outcome (obj target : ℕ) : Outcome s obj target (objectMergeCollectors s obj target) := by
  unfold objectMergeCollectors
  cases ho : (s.objects obj).collector with
  | none =>
    cases ht : (s.objects target).collector with
    | none => exact .neither ho ht
    | some t => exact .taken ho ht
  | some c =>
    cases ht : (s.objects target).collector with
    | none => exact .given ho ht
    | some t =>
      dsimp only
      by_cases htc : t = c
      · subst htc
        rw [if_pos rfl]
        exact .equal ho ht
      · rw [if_neg htc]
        obtain ⟨rank, hr, hb⟩ := h.ranked.bounded s.numCollector h.bound
        have hrt := hb t
        have hrc := hb c
        rcases mergeLoop_ends hr obj target (2 * s.numCollector + 1) t c (by omega)
          (fun hx => absurd hx htc) with ⟨d, hd, he, hdn, heq⟩ | ⟨d, e, hd, he, hdn, hen, hne, heq⟩
        · rw [heq]
          exact .found ho ht htc (h.update_of_chain hd hdn) (h.update_of_chain he hdn)
        · rw [heq]
          exact .merged ho ht htc (h.update_of_chain hd hdn) (h.update_of_chain he hen) hne

end Forest

/-- The same final root. -/
def SameClass (s : State) (a b : ℕ) : Prop := collectorUpdate s a = collectorUpdate s b

/-- The contract of `object_merge_collectors`, for its final state and its result. -/
structure Unites (s : State) (obj target : ℕ) (p : State × Bool) : Prop where
  returns : p.1.trace.count .noReturn = s.trace.count .noReturn
  assigned : (s.objects obj).collector ≠ none ∨ (s.objects target).collector ≠ none →
    (p.1.objects obj).collector ≠ none ∧
      (p.1.objects obj).collector = (p.1.objects target).collector
  root : ∀ c t, (s.objects obj).collector = some c → (s.objects target).collector = some t →
    c ≠ t → ∃ r, (p.1.objects obj).collector = some r ∧ p.1.forward r = none
  united : ∀ a b, SameClass p.1 a b ↔ SameClass s a b ∨
    ∃ c t, (s.objects obj).collector = some c ∧ (s.objects target).collector = some t ∧
      ((SameClass s a c ∧ SameClass s b t) ∨ (SameClass s a t ∧ SameClass s b c))
  result : p.2 = true ↔ ∃ c t, (s.objects obj).collector = some c ∧
    (s.objects target).collector = some t ∧ ¬ SameClass s c t

/-- Both assignments of the loop, after an optional merge into `u`. -/
theorem assigns_rest {s u : State} (hu : u.numCollector = s.numCollector)
    (hr : u.trace.count .noReturn = s.trace.count .noReturn) (obj target d : ℕ) :
    let w := objectSetCollector (objectSetCollector u target (some d)) obj (some d)
    w.forward = u.forward ∧ w.numCollector = s.numCollector ∧
      w.trace.count .noReturn = s.trace.count .noReturn ∧
      (w.objects obj).collector = some d ∧ (w.objects target).collector = some d := by
  have h1 := objectSetCollector_rest u target (some d)
  have h2 := objectSetCollector_rest (objectSetCollector u target (some d)) obj (some d)
  refine ⟨?_, h2.1.trans (h1.1.trans hu), h2.2.trans (h1.2.trans hr), ?_, ?_⟩
  · rw [objectSetCollector_forward, objectSetCollector_forward]
  · simp [objectSetCollector_collector]
  · simp [objectSetCollector_collector]

namespace Forest
variable {s : State} (h : Forest s)
include h

theorem mergeCollectors (obj target : ℕ) : Forest (objectMergeCollectors s obj target).1 := by
  have hbound : ∀ {c}, c < s.numCollector → collectorUpdate s c < s.numCollector :=
    fun hc => root_lt h.ranked h.bound hc
  have hset : ∀ {u : State} (x : ℕ) {d : ℕ}, Forest u → d < u.numCollector →
      Forest (objectSetCollector u x (some d)) :=
    fun x d hu hd => hu.setCollector x fun e he => Option.some.inj he ▸ hd
  have ho := h.outcome obj target
  generalize objectMergeCollectors s obj target = p at ho
  cases ho with
  | neither => exact h
  | equal => exact h
  | given ho => exact hset _ h (h.held _ _ ho)
  | taken _ ht => exact hset _ h (h.held _ _ ht)
  | found _ ht _ hd =>
    have hdn := hd ▸ hbound (h.held _ _ ht)
    refine hset _ (hset _ h hdn) ?_
    rw [(objectSetCollector_rest s _ _).1]
    exact hdn
  | @merged c t d e _ ht _ hd he hne =>
    have hdn := hd ▸ hbound (h.held _ _ ht)
    have hm := h.merge (hd ▸ h.update_isRoot t) hne hdn
    have hmn := (collectorMerge_rest s d e).2.1
    refine hset _ (hset _ hm (hmn.symm ▸ hdn)) ?_
    rw [(objectSetCollector_rest _ _ _).1, hmn]
    exact hdn

theorem unites (obj target : ℕ) : Unites s obj target (objectMergeCollectors s obj target) := by
  have ho := h.outcome obj target
  generalize objectMergeCollectors s obj target = p at ho
  cases ho with
  | neither ho ht => exact ⟨rfl, by simp [ho, ht], by simp [ho], by simp [ho], by simp [ho]⟩
  | @given c ho ht =>
    have hr := objectSetCollector_rest s target (some c)
    have hc := fun a => collectorUpdate_congr hr.1 (objectSetCollector_forward s target (some c)) a
    refine ⟨hr.2, fun _ => ?_, by simp [ht], ?_, by simp [ht]⟩
    · simp only [objectSetCollector_collector, if_true]
      split_ifs <;> simp [ho]
    · intro a b
      simp [SameClass, hc, ht]
  | @taken t ho ht =>
    have hr := objectSetCollector_rest s obj (some t)
    have hc := fun a => collectorUpdate_congr hr.1 (objectSetCollector_forward s obj (some t)) a
    refine ⟨hr.2, fun _ => ?_, by simp [ho], ?_, by simp [ho]⟩
    · simp only [objectSetCollector_collector, if_true]
      split_ifs <;> simp [ht]
    · intro a b
      simp [SameClass, hc, ho]
  | @equal c ho ht =>
    refine ⟨rfl, fun _ => by simp [ho, ht], by simp [ho, ht], ?_, by simp [ho, ht, SameClass]⟩
    intro a b
    have htr : SameClass s a c ∧ SameClass s b c → SameClass s a b :=
      fun hab => hab.1.trans hab.2.symm
    simp only [ho, ht, Option.some.injEq, exists_and_left, exists_eq_left', or_self]
    tauto
  | @found c t d ho ht hct hd he =>
    obtain ⟨hf, hn, hr, hobj, htar⟩ := assigns_rest rfl rfl obj target d
    have hc := fun a => collectorUpdate_congr hn hf a
    refine ⟨hr, fun _ => ?_, fun _ _ _ _ _ => ⟨d, hobj, ?_⟩, ?_, ?_⟩
    · rw [hobj, htar]
      simp
    · rw [hf, ← hd]
      exact h.update_isRoot t
    · intro a b
      simp only [SameClass, hc, ho, ht, Option.some.injEq, exists_and_left, exists_eq_left', hd, he]
      constructor
      · exact .inl
      · rintro (hab | ⟨ha, hb⟩ | ⟨ha, hb⟩)
        · exact hab
        · rw [ha, hb]
        · rw [ha, hb]
    · simp [ho, ht, SameClass, hd, he]
  | @merged c t d e ho ht hct hd he hne =>
    obtain ⟨_, hmn, hmr⟩ := collectorMerge_rest s d e
    obtain ⟨hf, hn, hr, hobj, htar⟩ := assigns_rest hmn hmr obj target d
    have hdr : s.forward d = none := hd ▸ h.update_isRoot t
    have her : s.forward e = none := he ▸ h.update_isRoot c
    have hdn : d < s.numCollector := hd ▸ root_lt h.ranked h.bound (h.held _ _ ht)
    have hc : ∀ a, collectorUpdate _ a = if collectorUpdate s a = e then d
        else collectorUpdate s a := fun a =>
      (collectorUpdate_congr (hn.trans hmn.symm) hf a).trans (h.merge_update hdr her hne hdn a)
    refine ⟨hr, fun _ => ?_, fun _ _ _ _ _ => ⟨d, hobj, ?_⟩, ?_, ?_⟩
    · rw [hobj, htar]
      simp
    · rw [hf, collectorMerge_forward, Function.update_of_ne (Ne.symm hne)]
      exact hdr
    · intro a b
      simp only [SameClass, hc, ho, ht, Option.some.injEq, exists_and_left, exists_eq_left', hd, he]
      by_cases ha : collectorUpdate s a = e
      · by_cases hb : collectorUpdate s b = e
        · simp [ha, hb]
        · simp [ha, hb, hne, eq_comm]
          tauto
      · by_cases hb : collectorUpdate s b = e
        · simp [ha, hb, hne]
        · simp [ha, hb]
    · simp [ho, ht, SameClass, hd, he, hne]

/-- After a merge the two objects have the same collector, if any. -/
theorem mergeCollectors_collector_eq (obj target : ℕ) :
    ((objectMergeCollectors s obj target).1.objects obj).collector =
      ((objectMergeCollectors s obj target).1.objects target).collector := by
  by_cases hcol : (s.objects obj).collector ≠ none ∨ (s.objects target).collector ≠ none
  · exact ((h.unites obj target).assigned hcol).2
  · push Not at hcol
    have hstays : (objectMergeCollectors s obj target).1 = s := by
      unfold objectMergeCollectors
      rw [hcol.1, hcol.2]
    rw [hstays, hcol.1, hcol.2]

end Forest

/-- The states that collectors, their merges and terminations, and assignments of
allocated collectors lead to. -/
inductive ForestRun : State → Prop where
  | start : ForestRun initial
  | create {s : State} (run : ForestRun s) : ForestRun (collectorCreate s).1
  | assign {s : State} (run : ForestRun s) (obj : ℕ) {c : Option ℕ}
      (hc : ∀ d, c = some d → d < s.numCollector) : ForestRun (objectSetCollector s obj c)
  | merge {s : State} (run : ForestRun s) (obj target : ℕ) :
      ForestRun (objectMergeCollectors s obj target).1
  | terminate {s : State} (run : ForestRun s) (c : ℕ) : ForestRun (collectorTerminate s c)

theorem ForestRun.forest {s : State} (run : ForestRun s) : Forest s := by
  induction run with
  | start =>
    refine ⟨⟨fun _ => 0, ?_⟩, ?_, ?_⟩ <;> simp [State.forward, initial]
  | create _ ih => exact ih.create
  | assign _ obj hc ih => exact ih.setCollector obj hc
  | merge _ obj target ih => exact ih.mergeCollectors obj target
  | terminate _ c ih => exact ih.terminate c

/-- Merging collectors is union-find on every forest of forward pointers, and its loops are left. -/
theorem mergeCollectors_unionFind :
    (∀ s, ForestRun s → Forest s) ∧
    ∀ s, Forest s →
      (∀ obj target, Forest (objectMergeCollectors s obj target).1 ∧
        Unites s obj target (objectMergeCollectors s obj target)) ∧
      (∀ c, LeadsTo s.forward c (collectorUpdate s c)) ∧
      (∀ a b, collectorEquals s (some a) (some b) = true ↔ SameClass s a b) ∧
      (∀ a b n, 2 * s.numCollector ≤ n →
        collectorEqualsLoop s n (some a) (some b) = collectorEquals s (some a) (some b)) ∧
      (∀ c, chaseLoop s.forward (s.numCollector + 1) c = some (collectorUpdate s c)) ∧
      ∀ c1 c2, collectorEqualsExit s (2 * s.numCollector + 1) c1 c2 =
        some (collectorEquals s c1 c2) := by
  refine ⟨fun s run => run.forest, fun s h => ⟨?_, h.leadsTo, h.equals_iff, h.equals_returns,
    h.update_exits, h.equals_exits⟩⟩
  intro obj target
  exact ⟨h.mergeCollectors obj target, h.unites obj target⟩

/-- Two objects, each with a collector of its own. -/
def twoCollectors : State :=
  objectSetCollector (objectSetCollector (collectorCreate (collectorCreate initial).1).1
    0 (some 0)) 1 (some 1)

theorem mergeCollectors_unionFind_two :
    (objectMergeCollectors twoCollectors 0 1).2 = true ∧
      Unites twoCollectors 0 1 (objectMergeCollectors twoCollectors 0 1) := by
  have run : ForestRun twoCollectors := by
    refine .assign (.assign (.create (.create .start)) 0 ?_) 1 ?_
    · simp [collectorCreate, initial]
    · simp [collectorCreate, initial, objectSetCollector_rest]
  have h := mergeCollectors_unionFind.2 _ (mergeCollectors_unionFind.1 _ run)
  exact ⟨by decide, (h.1 0 1).2⟩

end Acid

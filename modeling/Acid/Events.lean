import Acid.ObjectEffect

set_option autoImplicit false

/-!
# Which events an operation may log
-/
namespace Acid

/-- The assertions that get a result of their own. -/
def Assertion.special : Assertion → Bool
  | .phantomizeCollector | .phantomizeSourceCollector | .linkCollector | .linkEquals
  | .setCollector | .recoverWeak | .recoverLink => true
  | _ => false

/-- The two of them that only a recovery may fail. -/
def Assertion.recovering : Assertion → Bool
  | .recoverWeak | .recoverLink => true
  | _ => false

/-- The events that the counting and list operations may log. -/
def Event.plain : Event → Bool
  | .removeLinks _ | .objectDel _ | .dtor _ | .freeLink _ | .collectorDestroy _ => false
  | .assertFailed a => !a.special
  | _ => true

/-- The plain events, less those of a loop that does not end, and of the assertions only those
that a count is not negative. -/
def Event.basic : Event → Bool
  | .noReturn => false
  | .assertFailed a => a.negative
  | e => e.plain

theorem plain_of_basic (e : Event) (h : e.basic = true) : e.plain = true := by
  cases e with
  | assertFailed a => cases a <;> first | rfl | cases h
  | noReturn => cases h
  | _ => exact h

/-- The events that say nothing about the end of an object, a link or a collector. -/
def Event.Minor : Event → Prop
  | .removeLinks _ | .objectDel _ | .dtor _ | .freeLink _ | .collectorDestroy _ => False
  | _ => True

theorem minor_of_plain (e : Event) (h : e.plain = true) : e.Minor := by
  cases e <;> simp_all [Event.plain, Event.Minor]

theorem minor_of_basic (e : Event) (h : e.basic = true) : e.Minor :=
  minor_of_plain e (plain_of_basic e h)

theorem minor_of_assert (a : Assertion) (_ : a.recovering = false) : (Event.assertFailed a).Minor :=
  trivial

/-- No assertion has failed: a failed one ends the process. -/
def AssertionsHold (s : State) : Prop := ∀ a : Assertion, .assertFailed a ∉ s.trace

def Event.failure : Event → Bool
  | .assertFailed _ => true
  | _ => false

instance (s : State) : Decidable (AssertionsHold s) :=
  decidable_of_iff (s.trace.all (!·.failure) = true) <| by
    simp only [List.all_eq_true, Bool.not_eq_true']
    constructor
    · intro h a ha
      cases h _ ha
    · intro h e he
      cases e with
      | assertFailed a => exact absurd he (h a)
      | _ => rfl

/-- The events that are new in `s'` have the property. -/
def Emits (P : Event → Prop) (s s' : State) : Prop :=
  ∀ e, ¬ P e → s'.trace.count e = s.trace.count e

namespace Emits
variable {P Q : Event → Prop} {s s' s'' : State}

theorem of_trace (h : s'.trace = s.trace) : Emits P s s' := fun e _ => by rw [h]

theorem refl (s : State) : Emits P s s := of_trace rfl

theorem trans (h : Emits P s s') (h' : Emits P s' s'') : Emits P s s'' :=
  fun e he => (h' e he).trans (h e he)

theorem mem (h : Emits P s s') {e : Event} (he : e ∈ s'.trace) : e ∈ s.trace ∨ P e := by
  by_contra hne
  push Not at hne
  have hcount := h e hne.2
  rw [List.count_eq_zero.mpr hne.1, List.count_eq_zero] at hcount
  exact hcount he

/-- An event that is not among the new ones stays out of the trace. -/
theorem absent (h : Emits P s s') {e : Event} (he : ¬ P e) (hs : e ∉ s.trace) : e ∉ s'.trace :=
  fun hm => (h.mem hm).elim hs he

theorem emit {e : Event} (h : P e) : Emits P s (s.emit e) := by
  intro e' he'
  have hne : e ≠ e' := by
    rintro rfl
    exact he' h
  exact List.count_cons_of_ne hne

theorem check {p : Prop} [Decidable p] {e : Event} (h : ¬ p → P e) : Emits P s (s.check p e) := by
  unfold State.check
  split_ifs with hp
  · exact .refl s
  · exact .emit (h hp)

theorem foldl {f : State → ℕ → State} (ls : List ℕ) (hf : ∀ u, ∀ l ∈ ls, Emits P u (f u l))
    (s : State) : Emits P s (ls.foldl f s) := by
  induction ls generalizing s with
  | nil => exact .refl s
  | cons l ls ih =>
    exact (hf s l (List.mem_cons_self ..)).trans
      (ih (fun u k hk => hf u k (List.mem_cons_of_mem _ hk)) _)

end Emits

section
variable {P : Event → Prop} (hP : ∀ e : Event, e.basic = true → P e)
include hP

theorem safelistPoll_emits (s : State) (r : ListRef) : Emits P s (safelistPoll s r).1 := by
  cases h : (s.safelist r).data with
  | nil =>
    rw [safelistPoll_nil h]
    exact .refl s
  | cons o rest =>
    rw [safelistPoll_cons h]
    have hc : Emits P s (counterDecStore s r.1) :=
      (Emits.check fun _ => hP _ rfl).trans (.of_trace rfl)
    exact hc.trans (.of_trace rfl)

omit hP in
theorem safelistAdd_emits (s : State) (r : ListRef) (o : ℕ) : Emits P s (safelistAdd s r o) := by
  unfold safelistAdd
  split <;> exact .of_trace rfl

theorem safelistDrain_emits (dest r : ListRef) (n : ℕ) (s : State) :
    Emits P s (safelistDrain dest r n s) := by
  induction n generalizing s with
  | zero => exact .refl s
  | succ n ih =>
    have hp := safelistPoll_emits hP s r
    unfold safelistDrain
    split
    · rename_i s' h
      rwa [h] at hp
    · rename_i s' o h
      rw [h] at hp
      exact (hp.trans (safelistAdd_emits s' dest o)).trans (ih _)

theorem safelistForward_emits (s : State) (r dest : ListRef) :
    Emits P s (safelistForward s r dest) :=
  (safelistDrain_emits hP dest r _ s).trans (.of_trace rfl)

theorem counterRepoint_emits (s : State) (old new : Option ℕ) :
    Emits P s (counterRepoint s old new) := by
  have hdec : ∀ (u : State) c, Emits P u (counterDecRef u c) := fun u c =>
    (Emits.check fun _ => hP _ rfl).trans (.of_trace rfl)
  cases new <;> cases old
  · exact .refl s
  · exact hdec s _
  · exact .of_trace rfl
  · exact Emits.trans (.of_trace rfl) (hdec _ _)

theorem objectSetCollector_emits (s : State) (o : ℕ) (c : Option ℕ) :
    Emits P s (objectSetCollector s o c) := by
  unfold objectSetCollector
  split_ifs
  · exact .refl s
  · exact (counterRepoint_emits hP s _ c).trans (.of_trace rfl)

theorem collectorSetForward_emits (s : State) (c : ℕ) (f : Option ℕ) :
    Emits P s (collectorSetForward s c f) := by
  unfold collectorSetForward
  split_ifs
  · exact .refl s
  · exact (counterRepoint_emits hP s _ f).trans (.of_trace rfl)

theorem collectorMerge_emits (s : State) (t c : ℕ) : Emits P s (collectorMerge s t c) :=
  (((((safelistForward_emits hP s _ _).trans (safelistForward_emits hP _ _ _)).trans
    (safelistForward_emits hP _ _ _)).trans (safelistForward_emits hP _ _ _)).trans
    (safelistForward_emits hP _ _ _)).trans (collectorSetForward_emits hP _ _ _)

theorem collectorAddObject_emits (s : State) (c o : ℕ) : Emits P s (collectorAddObject s c o) := by
  have h1 : Emits P s ((s.modifyObject o fun h =>
      { h with count := Function.update h.count h.which (h.count h.which + 1) }).modifyObject o
      fun h => { h with count2 := h.count2 + 1 }) := .of_trace rfl
  exact (h1.trans (safelistAdd_emits _ (collectorUpdate s c, .collect) o)).trans
    (objectSetCollector_emits hP _ o _)

theorem objectRequestDelete_emits (s : State) (o : ℕ) : Emits P s (objectRequestDelete s o) :=
  (Emits.emit (hP _ rfl)).trans (.of_trace rfl)

theorem objectEnsureCollector_emits (s : State) (o : ℕ) : Emits P s (objectEnsureCollector s o) := by
  unfold objectEnsureCollector
  split
  · exact .refl s
  · have h1 : Emits P s (collectorCreate s).1 := .of_trace rfl
    exact (h1.trans (objectSetCollector_emits hP _ o _)).trans (.of_trace rfl)

theorem objectDec_emits (s : State) (o : ℕ) (w : Bool) : Emits P s (objectDec s o w) := by
  have h1 : Emits P s (s.modifyObject o fun h =>
      { h with count := Function.update h.count w (h.count w - 1) }) := .of_trace rfl
  have hd := h1.trans (Emits.check (p := 0 ≤ ((s.modifyObject o fun h =>
      { h with count := Function.update h.count w (h.count w - 1) }).objects o).count w)
      (e := .assertFailed .decCount) fun _ => hP _ rfl)
  unfold objectDec
  dsimp only
  split_ifs
  · exact hd.trans (objectRequestDelete_emits hP _ o)
  · split
    · exact (hd.trans (objectEnsureCollector_emits hP _ o)).trans
        (collectorAddObject_emits hP _ _ o)
    · exact hd.trans (objectEnsureCollector_emits hP _ o)
  · exact hd

theorem objectDecPhantom_emits (s : State) (o : ℕ) : Emits P s (objectDecPhantom s o) := by
  have h1 : Emits P s (s.modifyObject o fun h => { h with count2 := h.count2 - 1 }) := .of_trace rfl
  have hd := h1.trans (Emits.check (p := 0 ≤ ((s.modifyObject o fun h =>
      { h with count2 := h.count2 - 1 }).objects o).count2)
      (e := .assertFailed .decPhantomCount) fun _ => hP _ rfl)
  unfold objectDecPhantom
  dsimp only
  split_ifs
  · exact hd.trans (objectRequestDelete_emits hP _ o)
  · exact hd.trans (objectSetCollector_emits hP _ o _)
  · exact hd

theorem linkDec_emits (s : State) (l : ℕ) : Emits P s (linkDec s l) := by
  unfold linkDec
  dsimp only
  split_ifs
  · exact objectDecPhantom_emits hP s _
  · exact objectDec_emits hP s _ _

theorem linkDestroy_emits (s : State) {l : ℕ} (hl : P (.freeLink l)) :
    Emits P s (linkDestroy s l) :=
  ((linkDec_emits hP s l).trans (.of_trace rfl)).trans (Emits.emit hl)

theorem mergeLoop_emits (hr : P .noReturn) (o x n : ℕ) (s : State) (t c : ℕ) :
    Emits P s (mergeLoop o x n s t c).1 := by
  induction n generalizing t c with
  | zero => exact Emits.emit hr
  | succ n ih =>
    have hset := fun (u : State) y d => objectSetCollector_emits hP u y d
    unfold mergeLoop
    split
    · exact (hset s x _).trans (hset _ o _)
    · split
      · exact (hset s x _).trans (hset _ o _)
      · split
        · exact ih _ _
        · split
          · exact ih _ _
          · split
            · exact .refl s
            · have hforward : (collectorMerge s t c).forward c = some t := by
                rw [collectorMerge_forward, Function.update_self]
              dsimp only
              rw [State.check_pos _ hforward]
              exact (collectorMerge_emits hP s t c).trans ((hset _ x _).trans (hset _ o _))

theorem objectMergeCollectors_emits (hr : P .noReturn) (s : State) (o x : ℕ) :
    Emits P s (objectMergeCollectors s o x).1 := by
  unfold objectMergeCollectors
  split
  · exact .refl s
  · exact objectSetCollector_emits hP s x _
  · exact objectSetCollector_emits hP s o _
  · split
    · exact .refl s
    · exact mergeLoop_emits hP hr o x _ s _ _

theorem objectUpdateCollector_emits (s : State) (o : ℕ) :
    Emits P s (objectUpdateCollector s o) := by
  unfold objectUpdateCollector
  split
  · exact objectSetCollector_emits hP s o _
  · exact Emits.emit (hP _ rfl)

theorem objectRebuildLink_emits (c : ℕ) (s : State) (l : ℕ) :
    Emits P s (objectRebuildLink c s l) := by
  have hcol : ∀ (u : State) x, Emits P u (rebuildCollector u x) := by
    intro u x
    unfold rebuildCollector
    split_ifs
    · exact objectSetCollector_emits hP u x none
    · exact .refl u
  have hqueue : ∀ (u : State) x, Emits P u (rebuildQueue c u x) := by
    intro u x
    unfold rebuildQueue
    split_ifs
    · exact safelistAdd_emits u _ x
    · exact .refl u
  rw [objectRebuildLink_eq]
  split_ifs
  · have h1 : Emits P s (rebuildCount s l) := .of_trace rfl
    have h2 : Emits P s ((rebuildCollector (rebuildCount s l) (s.links l).target).modifyLink l
        fun lk => { lk with phantomized := false }) := (h1.trans (hcol _ _)).trans (.of_trace rfl)
    exact (h2.trans (Emits.check fun _ => hP _ rfl)).trans (hqueue _ _)
  · exact .refl s

theorem objectRecoverNode_emits (s : State) (obj c : ℕ)
    (hwait : P (.assertFailed .recoverWait) ∧ P (.assertFailed .recoverComplete) ∨
      (s.objects obj).phantomizationComplete = true)
    (hw : (s.objects obj).count (s.objects obj).which ≤ 0 →
      (s.objects obj).count (!(s.objects obj).which) ≠ 0 → P (.assertFailed .recoverWeak))
    (hcol : P (.assertFailed .recoverCollector) ∨
      (((objectRecoverNode s obj c).objects obj).count2 = 0 →
        ((objectRecoverNode s obj c).objects obj).collector = none)) :
    Emits P s (objectRecoverNode s obj c) := by
  have h1 : Emits P s (recoverUpdate s obj) := by
    unfold recoverUpdate
    split_ifs
    · exact objectUpdateCollector_emits hP s obj
    · exact .refl s
  have hstart : ∀ u : State, (u.objects obj).phantomizationComplete =
      (s.objects obj).phantomizationComplete → Emits P u (recoverStart u obj) := by
    intro u hu
    have h2 : Emits P u (u.check (¬ ((u.objects obj).phantomized = true ∧
        (u.objects obj).phantomizationComplete = false)) (.assertFailed .recoverWait)) := by
      apply Emits.check
      intro hn
      rcases hwait with hp | hc
      · exact hp.1
      · rw [hu, hc] at hn
        simp at hn
    have h3 := h2.trans (Emits.check (p := (u.objects obj).phantomizationComplete = true)
      (e := .assertFailed .recoverComplete) fun hn =>
        hwait.elim (fun hp => hp.2) fun hc => absurd (hu.trans hc) hn)
    exact h3.trans (.of_trace rfl)
  have hcount := recoverUpdate_count s obj obj
  have hwhich := (recoverUpdate_frame s obj).which obj
  have hcomplete := (recoverUpdate_frame s obj).complete obj
  have hlast : ∀ u : State, ((u.objects obj).count2 = 0 → (u.objects obj).collector = none) ∨
      P (.assertFailed .recoverCollector) →
      Emits P u (u.check ((u.objects obj).count2 = 0 → (u.objects obj).collector = none)
        (.assertFailed .recoverCollector)) :=
    fun u hu => Emits.check fun hn => hu.resolve_left hn
  rw [objectRecoverNode_eq] at hcol ⊢
  dsimp only at hcol ⊢
  rw [State.check_objects] at hcol
  generalize recoverUpdate s obj = s1 at *
  split_ifs at hcol ⊢ with hpos
  · exact ((h1.trans (hstart _ hcomplete)).trans (Emits.foldl _
      (fun u l _ => objectRebuildLink_emits hP c u l) _)).trans (hlast _ hcol.symm)
  · refine (h1.trans (Emits.check fun hne => ?_)).trans (hlast _ hcol.symm)
    rw [hcount, hwhich] at hpos hne
    exact hw (not_lt.mp hpos) hne

end

section
variable {P : Event → Prop} (hP : ∀ e : Event, e.plain = true → P e)
  (ha : ∀ a : Assertion, a.recovering = false → P (.assertFailed a))
include hP ha

/-- The same for the operations that may fail one of the special assertions. -/
theorem linkPhantomize_emits (s : State) (l : ℕ) :
    Emits P s (linkPhantomize s l) := by
  unfold linkPhantomize
  dsimp only
  split_ifs
  · exact .refl s
  · have h1 : Emits P s (s.modifyObject (s.links l).target fun o =>
        { o with count2 := o.count2 + 1 }) := .of_trace rfl
    exact ((((h1.trans (linkDec_emits (fun e he => hP e (plain_of_basic e he)) _ l)).trans (Emits.check fun _ => ha _ (by decide))).trans
      (objectMergeCollectors_emits (fun e he => hP e (plain_of_basic e he)) (hP _ rfl) _ _ _)).trans (.of_trace rfl)).trans
      (Emits.check fun _ => ha _ (by decide))

theorem phantomizeSnapshot_emits (obj : ℕ) (s : State) (l : ℕ) :
    Emits P s (phantomizeSnapshot obj s l) := by
  have h1 : Emits P s
      (s.check ((s.objects obj).phantomized = true) (.assertFailed .phantomizeObject)) :=
    Emits.check fun _ => ha _ (by decide)
  unfold phantomizeSnapshot
  dsimp only
  split_ifs
  · exact h1
  · exact ((h1.trans (Emits.check fun _ => ha _ (by decide))).trans
      (Emits.check fun _ => ha _ (by decide))).trans (linkPhantomize_emits hP ha _ l)

theorem objectPhantomizeNode_emits (s : State) (obj : ℕ) :
    Emits P s (objectPhantomizeNode s obj) := by
  have hlinks : ∀ u : State, Emits P u (objectPhantomizeLinks u obj) := by
    intro u
    have h0 : Emits P u (u.modifyObject obj fun o => { o with phantomized := true }) :=
      .of_trace rfl
    have h1 : Emits P u (phantomizeStart u obj) :=
      (h0.trans (Emits.check fun _ => ha _ (by decide))).trans (.of_trace rfl)
    rw [objectPhantomizeLinks_eq]
    exact (h1.trans (Emits.foldl _
      (fun u l _ => phantomizeSnapshot_emits hP ha obj u l) _)).trans (.of_trace rfl)
  have hflip : ∀ u : State, Emits P u (phantomizeFlip u obj) := by
    intro u
    unfold phantomizeFlip
    split_ifs <;> exact .of_trace rfl
  have h1 : Emits P s (objectUpdateCollector s obj) :=
    objectUpdateCollector_emits (fun e he => hP e (plain_of_basic e he)) s obj
  have h2 : Emits P s ((objectUpdateCollector s obj).modifyObject obj
      fun o => { o with count := Function.update o.count o.which (o.count o.which - 1) }) :=
    h1.trans (.of_trace rfl)
  rw [objectPhantomizeNode_eq]
  dsimp only
  generalize (objectUpdateCollector s obj).modifyObject obj (fun o =>
    { o with count := Function.update o.count o.which (o.count o.which - 1) }) = s1 at *
  have h3 := h2.trans (Emits.check (p := 0 ≤ (s1.objects obj).count (s1.objects obj).which)
    (e := .assertFailed .phantomizeCount) fun _ => ha _ (by decide))
  split_ifs
  · exact h3
  · exact h3.trans (hflip _)
  · exact (h3.trans (hflip _)).trans (hlinks _)

theorem objectSet_emits (s : State) (obj f : ℕ) (r : Option ℕ) :
    Emits P s (objectSet s obj f r) := by
  have hset : ∀ x, Emits P s (objectSetReferent s obj f x) := by
    intro x
    have h1 : Emits P s (linkAdded s obj f x) := .of_trace rfl
    rw [objectSetReferent_eq, objectSetLabel_eq]
    split_ifs
    · exact ((h1.trans (objectMergeCollectors_emits (fun e he => hP e (plain_of_basic e he)) (hP _ rfl) _ obj x)).trans
        (Emits.check fun _ => ha _ (by decide))).trans (.of_trace rfl)
    · exact h1.trans (.of_trace rfl)
  have hrem : Emits P s
      (s.modifyObject obj fun o => { o with links := o.links.remove f }) := .of_trace rfl
  unfold objectSet
  dsimp only
  cases r with
  | none =>
    cases (s.objects obj).links.get f with
    | none => exact hrem
    | some l => exact hrem.trans (linkDec_emits (fun e he => hP e (plain_of_basic e he)) _ l)
  | some x =>
    cases (s.objects obj).links.get f with
    | none => exact hset x
    | some l =>
      dsimp only
      split_ifs
      · exact .refl s
      · exact (hset x).trans (linkDec_emits (fun e he => hP e (plain_of_basic e he)) _ l)

end

/-- What `object_remove_links` logs besides. -/
def Removes (s : State) (obj : ℕ) (e : Event) : Prop :=
  e = .removeLinks obj ∨ ∃ l ∈ (s.objects obj).links.values, e = .freeLink l

section
variable {P : Event → Prop} (hP : ∀ e : Event, e.basic = true → P e)
include hP

theorem objectRemoveLinks_emits (s : State) (obj : ℕ)
    (hz : P (.assertFailed .removeCount) ∨ ∀ b, (s.objects obj).count b = 0)
    (hR : ∀ e, Removes s obj e → P e) : Emits P s (objectRemoveLinks s obj) := by
  have h1 : Emits P s (s.emit (.removeLinks obj)) := Emits.emit (hR _ (.inl rfl))
  have h2 : Emits P s ((s.emit (.removeLinks obj)).modifyObject obj emptyRecord) :=
    h1.trans (.of_trace rfl)
  have hc : ∀ (u : State) (b : Bool), (u.objects obj).count = (s.objects obj).count →
      Emits P u (u.check ((u.objects obj).count b = 0) (.assertFailed .removeCount)) := by
    intro u b hu
    apply Emits.check
    intro hne
    rw [hu] at hne
    exact hz.resolve_right fun hall => hne (hall b)
  have hcount : ((((s.emit (.removeLinks obj)).modifyObject obj emptyRecord).objects obj)).count =
      (s.objects obj).count := by
    rw [State.modifyObject_objects_self]
    rfl
  have h3 : Emits P s (removeStart s obj) :=
    (h2.trans (hc _ false hcount)).trans (hc _ true (by rw [State.check_objects, hcount]))
  rw [objectRemoveLinks_eq]
  exact h3.trans (Emits.foldl _
    (fun u l hl => linkDestroy_emits hP u (hR _ (.inr ⟨l, hl, rfl⟩))) _)

theorem objectDel_emits (s : State) (obj : ℕ)
    (hlinks : P (.assertFailed .delLinks) ∨ (s.objects obj).links.size = 0)
    (hdel : P (.objectDel obj)) (hdtor : P (.dtor obj)) : Emits P s (objectDel s obj) := by
  have h1 : Emits P s (s.emit (.objectDel obj)) := Emits.emit hdel
  have htable : ((objectSetCollector (s.emit (.objectDel obj)) obj none).objects obj).links =
      (s.objects obj).links := (objectSetCollector_frame (s.emit (.objectDel obj)) obj none).table obj
  have h2 : Emits P s (delStart s obj) := by
    refine ((h1.trans (objectSetCollector_emits hP _ obj none)).trans
      (Emits.check (e := .assertFailed .delLinks) fun hne => ?_)).trans (.of_trace rfl)
    rw [htable] at hne
    exact hlinks.resolve_right hne
  rw [objectDel_eq]
  obtain ⟨_, _, _, _, _, _, _, _, _, _, ht⟩ := objectFree_rest (delStart s obj) obj
  refine h2.trans fun e he => ?_
  rcases ht with ht | ht
  · rw [ht]
  · have hne : Event.dtor obj ≠ e := by
      rintro rfl
      exact he hdtor
    rw [ht, List.count_cons_of_ne hne]

theorem objectCleanNode_emits (s : State) (obj : ℕ)
    (hR : (s.objects obj).count false = 0 ∧ (s.objects obj).count true = 0 →
      ∀ e, Removes s obj e → P e) : Emits P s (objectCleanNode s obj) := by
  have h1 : Emits P s ((s.check (0 ≤ (s.objects obj).count false) (.assertFailed .cleanCount)).check
      (0 ≤ ((s.check (0 ≤ (s.objects obj).count false)
      (.assertFailed .cleanCount)).objects obj).count true) (.assertFailed .cleanCount)) :=
    (Emits.check fun _ => hP _ rfl).trans (Emits.check fun _ => hP _ rfl)
  have hobj1 : ((s.check (0 ≤ (s.objects obj).count false) (.assertFailed .cleanCount)).check
      (0 ≤ ((s.check (0 ≤ (s.objects obj).count false)
      (.assertFailed .cleanCount)).objects obj).count true) (.assertFailed .cleanCount)).objects =
      s.objects := by
    rw [State.check_objects, State.check_objects]
  unfold objectCleanNode
  dsimp only
  generalize (s.check (0 ≤ (s.objects obj).count false) (.assertFailed .cleanCount)).check
    (0 ≤ ((s.check (0 ≤ (s.objects obj).count false)
      (.assertFailed .cleanCount)).objects obj).count true) (.assertFailed .cleanCount) = s1 at *
  rw [hobj1]
  split_ifs with huse
  · exact h1.trans (objectDecPhantom_emits hP s1 obj)
  · push Not at huse
    refine (h1.trans (objectRemoveLinks_emits hP s1 obj (.inr fun b => ?_) fun e he =>
      hR huse e ?_)).trans (objectDecPhantom_emits hP _ obj)
    · rw [hobj1]
      cases b
      · exact huse.1
      · exact huse.2
    · rwa [Removes, hobj1] at he

end

/-- The state in which a loop processes the object that it has polled. -/
def afterPoll (s : State) (c : ℕ) (loop : Loop) (obj : ℕ) : State :=
  (safelistPoll s (c, loop.list)).1.check
    (((safelistPoll s (c, loop.list)).1.objects obj).freed = false) (.useAfterFree obj)

theorem afterPoll_frame (s : State) (c : ℕ) (loop : Loop) (obj : ℕ) :
    Frame s (afterPoll s c loop obj) :=
  (safelistPoll_frame s _).trans (check_frame _ _ _)

theorem afterPoll_objects (s : State) (c : ℕ) (loop : Loop) (obj : ℕ) :
    (afterPoll s c loop obj).objects = s.objects := by
  rw [afterPoll, State.check_objects, (safelistPoll_same s _).objects]

theorem afterPoll_emits {P : Event → Prop} (hP : ∀ e : Event, e.basic = true → P e) (s : State)
    (c : ℕ) (loop : Loop) (obj : ℕ) : Emits P s (afterPoll s c loop obj) :=
  (safelistPoll_emits hP s _).trans (Emits.check fun _ => hP _ rfl)

/-- The four outcomes of a step of a started run. -/
theorem runIteration_cases (s : State) (i c : ℕ) (loop : Loop) :
    (loop = .exit ∧ counterDone s c = true ∧ runIteration s i c loop =
      { collectorDestroy (collectorTerminate s c) c with
        running := (collectorDestroy (collectorTerminate s c) c).running.eraseIdx i }) ∨
    (loop = .exit ∧ counterDone s c = false ∧ runIteration s i c loop =
      { s with running := s.running.eraseIdx i, work := s.work ++ [.run c] }) ∨
    (loop ≠ .exit ∧ (s.safelist (c, loop.list)).data = [] ∧ runIteration s i c loop =
      { s with running := s.running.set i (c, loop.next) }) ∨
    (loop ≠ .exit ∧ ∃ obj rest, (s.safelist (c, loop.list)).data = obj :: rest ∧
      runIteration s i c loop =
        { loopBody (afterPoll s c loop obj) c loop obj with
          running := (loopBody (afterPoll s c loop obj) c loop obj).running.set i (c, loop) }) := by
  by_cases hloop : loop = .exit
  · cases hdone : counterDone s c with
    | true => exact .inl ⟨hloop, rfl, by simp [runIteration, hloop, collectorExit, hdone]⟩
    | false =>
      exact .inr (.inl ⟨hloop, rfl, by
        simp [runIteration, hloop, collectorExit, hdone, State.addTask]⟩)
  · right
    right
    cases hd : (s.safelist (c, loop.list)).data with
    | nil =>
      left
      refine ⟨hloop, rfl, ?_⟩
      rw [runIteration, if_neg hloop, loopIteration, safelistPoll_nil hd]
    | cons obj rest =>
      right
      refine ⟨hloop, obj, rest, rfl, ?_⟩
      rw [runIteration, if_neg hloop, loopIteration, afterPoll, safelistPoll_cons hd]

/-- The steps that end something, and what they log of it. -/
def Ends (s : State) : Action → Event → Prop
  | .iterate _ c .exit, e => counterDone s c = true ∧ e = .collectorDestroy c
  | .iterate _ c .clean, e => ∃ obj rest, (s.safelist (c, .clean)).data = obj :: rest ∧
      ((s.objects obj).count false = 0 ∧ (s.objects obj).count true = 0) ∧ Removes s obj e
  | .delete _ o, e => Removes s o e ∨ e = .objectDel o ∨ e = .dtor o
  | _, _ => False

/-- The object has references on its weak side only. -/
def WeakOnly (s : State) (x : ℕ) : Prop :=
  (s.objects x).count (s.objects x).which ≤ 0 ∧ (s.objects x).count (!(s.objects x).which) ≠ 0

/-- An iteration that hands a weak-only object to `object_recover_node`. -/
def RecoversWeak (s : State) : Action → Prop
  | .iterate _ c loop => (loop = .recovery ∨ loop = .rebuild) ∧
      ∃ obj rest, (s.safelist (c, loop.list)).data = obj :: rest ∧ WeakOnly s obj
  | _ => False

section
variable {P : Event → Prop} (hP : ∀ e : Event, e.basic = true → P e)
include hP

theorem loopBody_emits (s : State) (c : ℕ) (loop : Loop) (obj : ℕ)
    (hwait : P (.assertFailed .recoverWait) ∧ P (.assertFailed .recoverComplete) ∨
      (s.objects obj).phantomizationComplete = true)
    (hph : loop = .collect → Emits P s (objectPhantomizeNode s obj))
    (hw : loop = .recovery ∨ loop = .rebuild → WeakOnly s obj → P (.assertFailed .recoverWeak))
    (hcol : loop = .recovery ∨ loop = .rebuild → P (.assertFailed .recoverCollector) ∨
      (((objectRecoverNode s obj c).objects obj).count2 = 0 →
        ((objectRecoverNode s obj c).objects obj).collector = none))
    (hR : loop = .clean → (s.objects obj).count false = 0 ∧ (s.objects obj).count true = 0 →
      ∀ e, Removes s obj e → P e) : Emits P s (loopBody s c loop obj) := by
  cases loop with
  | merged => exact safelistAdd_emits s _ obj
  | collect => exact (hph rfl).trans (safelistAdd_emits _ _ obj)
  | recovery =>
    exact (objectRecoverNode_emits hP s obj c hwait (fun h1 h2 => hw (.inl rfl) ⟨h1, h2⟩)
      (hcol (.inl rfl))).trans (safelistAdd_emits _ _ obj)
  | rebuild =>
    exact objectRecoverNode_emits hP s obj c hwait (fun h1 h2 => hw (.inr rfl) ⟨h1, h2⟩)
      (hcol (.inr rfl))
  | clean => exact objectCleanNode_emits hP s obj (hR rfl)
  | exit => exact .refl s

/-- What one step may log, given what a call of `object_set` and the phantomizing of an object
may log. -/
theorem exec_emits_of (s : State) (a : Action)
    (hwait : P (.assertFailed .recoverWait) ∧ P (.assertFailed .recoverComplete) ∨
      ∀ o, (s.objects o).phantomizationComplete = true)
    (hset : ∀ o f r, a = .set o f r → Emits P s (objectSet s o f r))
    (hph : ∀ i c obj rest, a = .iterate i c .collect →
      (s.safelist (c, .collect)).data = obj :: rest →
      Emits P (afterPoll s c .collect obj) (objectPhantomizeNode (afterPoll s c .collect obj) obj))
    (hw : RecoversWeak s a → P (.assertFailed .recoverWeak))
    (hcol : P (.assertFailed .recoverCollector) ∨ ∀ i c loop obj rest, a = .iterate i c loop →
      loop = .recovery ∨ loop = .rebuild → (s.safelist (c, loop.list)).data = obj :: rest →
      ((exec s a).objects obj).count2 = 0 → ((exec s a).objects obj).collector = none)
    (hz : P (.assertFailed .removeCount) ∨ ∀ i o, a = .delete i o → ∀ b, (s.objects o).count b = 0)
    (hE : ∀ e, Ends s a e → P e) : Emits P s (exec s a) := by
  cases a with
  | initStrong d => exact .of_trace rfl
  | incStrong o => exact .of_trace rfl
  | decStrong o =>
    have h0 : Emits P s (s.dropClaim o) := .of_trace rfl
    exact h0.trans (objectDec_emits hP _ o _)
  | set o f r => exact hset o f r rfl
  | enter i c =>
    apply Emits.of_trace
    unfold exec collectorEnter
    dsimp only
    split_ifs <;> rfl
  | iterate i c loop =>
    have hexec : exec s (.iterate i c loop) = runIteration s i c loop := rfl
    rw [hexec]
    rcases runIteration_cases s i c loop with ⟨rfl, hdone, heq⟩ | ⟨_, _, heq⟩ | ⟨_, _, heq⟩ |
      ⟨_, obj, rest, hd, heq⟩
    · rw [heq]
      have hterm : Emits P s (collectorTerminate s c) := collectorSetForward_emits hP s c none
      have hdes : Emits P (collectorTerminate s c) (collectorDestroy (collectorTerminate s c) c) :=
        Emits.trans (.of_trace rfl) (Emits.emit (hE _ ⟨hdone, rfl⟩))
      exact (hterm.trans hdes).trans (.of_trace rfl)
    · rw [heq]
      exact .of_trace rfl
    · rw [heq]
      exact .of_trace rfl
    · have hlast : loop = .recovery ∨ loop = .rebuild → P (.assertFailed .recoverCollector) ∨
          (((objectRecoverNode (afterPoll s c loop obj) obj c).objects obj).count2 = 0 →
            ((objectRecoverNode (afterPoll s c loop obj) obj c).objects obj).collector = none) := by
        intro hl
        refine hcol.imp id fun hall => ?_
        have hobj := hall i c loop obj rest rfl hl hd
        rw [hexec, heq] at hobj
        rcases hl with rfl | rfl
        · rw [← (safelistAdd_same (objectRecoverNode (afterPoll s c .recovery obj) obj c)
            (c, .clean) obj).objects]
          exact hobj
        · exact hobj
      rw [heq]
      have hobj := afterPoll_objects s c loop obj
      have h1 := afterPoll_emits hP s c loop obj
      have h2 := loopBody_emits hP (afterPoll s c loop obj) c loop obj
        (by
          rw [hobj]
          exact hwait.imp_right fun hc => hc obj)
        (by
          rintro rfl
          exact hph i c obj rest rfl hd)
        (fun hl hwk => hw ⟨hl, obj, rest, hd, by rwa [WeakOnly, hobj] at hwk⟩)
        hlast
        (by
          rintro rfl hz e he
          rw [hobj] at hz
          rw [Removes, hobj] at he
          exact hE e ⟨obj, rest, hd, hz, he⟩)
      exact (h1.trans h2).trans (.of_trace rfl)
  | delete i o =>
    have h0 : Emits P s { s with work := s.work.eraseIdx i } := .of_trace rfl
    have h1 := h0.trans (objectRemoveLinks_emits hP _ o
      (hz.imp id fun hall => hall i o rfl) fun e he => hE e (.inl he))
    have htable : ((objectRemoveLinks { s with work := s.work.eraseIdx i } o).objects o).links =
        (s.objects o).links.removeAll := by
      rw [(objectRemoveLinks_frame _ o).table, State.modifyObject_objects_self]
      rfl
    exact h1.trans (objectDel_emits hP _ o (.inr (by simp [htable, HashTable.size_eq_zero]))
      (hE _ (.inr (.inl rfl)))
      (hE _ (.inr (.inr rfl))))

omit hP in
theorem exec_emits (hP : ∀ e : Event, e.plain = true → P e) (ha : ∀ a : Assertion, a.recovering = false → P (.assertFailed a)) (s : State)
    (a : Action) (hw : RecoversWeak s a → P (.assertFailed .recoverWeak))
    (hE : ∀ e, Ends s a e → P e) : Emits P s (exec s a) :=
  exec_emits_of (fun e he => hP e (plain_of_basic e he)) s a (.inl ⟨hP _ rfl, hP _ rfl⟩)
    (fun o f r _ => objectSet_emits hP ha s o f r)
    (fun _ _ obj _ _ _ => objectPhantomizeNode_emits hP ha _ obj) hw (.inl (hP _ rfl))
    (.inl (hP _ rfl)) hE

end

theorem exec_minor (s : State) (a : Action) :
    Emits (fun e => e.Minor ∨ Ends s a e) s (exec s a) :=
  exec_emits (fun e he => .inl (minor_of_plain e he)) (fun a ha => .inl (minor_of_assert a ha)) s a
    (fun _ => .inl trivial) fun _ => .inr

end Acid

import Acid.ClassEvents

set_option autoImplicit false

/-!
# A collector run ends

The collect loop adds to the lists that it drains, so their length is no measure. It
uses up references instead, the rebuild loop the phantom references of the objects
it puts in its list, and the clean loop both those and the links it destroys.
-/
namespace Acid
open PointerForest Tally

/-- The strong and weak references of an object. -/
def Object.references (o : Object) : ℤ := o.count false + o.count true

theorem references_update (o : Object) (w : Bool) (k : ℤ) :
    ({ o with count := Function.update o.count w (o.count w + k) } : Object).references =
      o.references + k := by
  cases w
  · simp [Object.references]
    omega
  · simp [Object.references]
    omega

theorem references_congr {o o' : Object} (h : o'.count = o.count) :
    o'.references = o.references := by
  rw [Object.references, Object.references, h]

theorem collectorAddObject_references (s : State) (c x y : ℕ) :
    ((collectorAddObject s c x).objects y).references =
      (s.objects y).references + if y = x then 1 else 0 := by
  unfold collectorAddObject
  dsimp only
  rw [references_congr (objectSetCollector_count _ x _ y).1, (safelistAdd_same _ _ _).objects,
    State.modifyObject_objects, State.modifyObject_objects, State.modifyObject_objects]
  by_cases hy : y = x
  · subst y
    rw [if_pos rfl, if_pos rfl, if_pos rfl]
    exact references_update (s.objects x) _ 1
  · rw [if_neg hy, if_neg hy, if_neg hy, add_zero]

theorem collectorAddObject_count2 (s : State) (c x y : ℕ) :
    ((collectorAddObject s c x).objects y).count2 =
      (s.objects y).count2 + if y = x then 1 else 0 := by
  unfold collectorAddObject
  dsimp only
  rw [(objectSetCollector_count _ x _ y).2, (safelistAdd_same _ _ _).objects,
    State.modifyObject_objects, State.modifyObject_objects, State.modifyObject_objects]
  by_cases hy : y = x
  · subst y
    rw [if_pos rfl, if_pos rfl, if_pos rfl]
  · rw [if_neg hy, if_neg hy, if_neg hy, add_zero]

/-- A reference that is dropped may come back as the claim of the collect list. -/
theorem objectDec_bounds (s : State) (x : ℕ) (w : Bool) (y : ℕ) :
    ((objectDec s x w).objects y).references ≤ (s.objects y).references ∧
    ((objectDec s x w).objects y).count2 ≤ (s.objects y).count2 + if y = x then 1 else 0 := by
  have hdrop : ∀ (p : Prop) [Decidable p] (e : Event),
      (((s.modifyObject x fun o => { o with count := Function.update o.count w (o.count w - 1) }).check
        p e).objects y).references = (s.objects y).references - (if y = x then 1 else 0) ∧
      (((s.modifyObject x fun o => { o with count := Function.update o.count w (o.count w - 1) }).check
        p e).objects y).count2 = (s.objects y).count2 := by
    intro p _ e
    rw [State.check_objects, State.modifyObject_objects]
    by_cases hy : y = x
    · subst y
      rw [if_pos rfl, if_pos rfl]
      exact ⟨references_update (s.objects x) w (-1), rfl⟩
    · rw [if_neg hy, if_neg hy, sub_zero]
      exact ⟨rfl, rfl⟩
  unfold objectDec
  dsimp only
  have hs := hdrop (0 ≤ ((s.modifyObject x fun o =>
    { o with count := Function.update o.count w (o.count w - 1) }).objects x).count w)
    (.assertFailed .decCount)
  generalize (s.modifyObject x fun o =>
    { o with count := Function.update o.count w (o.count w - 1) }).check
      (0 ≤ ((s.modifyObject x fun o =>
        { o with count := Function.update o.count w (o.count w - 1) }).objects x).count w)
      (.assertFailed .decCount) = s1 at hs ⊢
  obtain ⟨href, hcount2⟩ := hs
  have hkeep : ∀ u : State, (u.objects y).count = (s1.objects y).count ∧
      (u.objects y).count2 = (s1.objects y).count2 →
      (u.objects y).references ≤ (s.objects y).references ∧
        (u.objects y).count2 ≤ (s.objects y).count2 + if y = x then 1 else 0 := by
    rintro u ⟨h1, h2⟩
    rw [references_congr h1, h2, href, hcount2]
    split_ifs <;> omega
  by_cases hzero : (s1.objects x).count w = 0 ∧ w = (s1.objects x).which
  · rw [if_pos hzero]
    by_cases hlast : (s1.objects x).count (!(s1.objects x).which) = 0 ∧ (s1.objects x).count2 = 0
    · rw [if_pos hlast]
      exact hkeep _ ⟨rfl, rfl⟩
    · rw [if_neg hlast]
      have hens := Sound.ensureCollector_count s1 x y
      split
      · rw [collectorAddObject_references, collectorAddObject_count2, references_congr hens.1,
          hens.2, href, hcount2]
        omega
      · exact hkeep _ hens
  · rw [if_neg hzero]
    exact hkeep _ ⟨rfl, rfl⟩

theorem objectDecPhantom_references (s : State) (x y : ℕ) :
    ((objectDecPhantom s x).objects y).references = (s.objects y).references :=
  references_congr (objectDecPhantom_count s x y)

theorem objectDecPhantom_count2 (s : State) (x y : ℕ) :
    ((objectDecPhantom s x).objects y).count2 = (s.objects y).count2 - if y = x then 1 else 0 := by
  unfold objectDecPhantom
  dsimp only
  have hcheck := (s.modifyObject x fun o => { o with count2 := o.count2 - 1 }).check_objects
    (0 ≤ ((s.modifyObject x fun o => { o with count2 := o.count2 - 1 }).objects x).count2)
    (.assertFailed .decPhantomCount)
  generalize (s.modifyObject x fun o => { o with count2 := o.count2 - 1 }).check
    (0 ≤ ((s.modifyObject x fun o => { o with count2 := o.count2 - 1 }).objects x).count2)
    (.assertFailed .decPhantomCount) = s1 at hcheck ⊢
  have hdrop : (s1.objects y).count2 = (s.objects y).count2 - if y = x then 1 else 0 := by
    rw [hcheck, State.modifyObject_objects]
    by_cases hy : y = x
    · rw [if_pos hy, if_pos hy, hy]
    · rw [if_neg hy, if_neg hy, sub_zero]
  rw [← hdrop]
  split_ifs
  · rfl
  · exact (objectSetCollector_count s1 x none y).2
  · rfl

theorem linkDec_bounds (s : State) (l y : ℕ) :
    ((linkDec s l).objects y).references ≤ (s.objects y).references ∧
    ((linkDec s l).objects y).count2 ≤
      (s.objects y).count2 + if y = (s.links l).target then 1 else 0 := by
  unfold linkDec
  dsimp only
  by_cases hp : (s.links l).phantomized = true
  · rw [if_pos hp, objectDecPhantom_references, objectDecPhantom_count2]
    refine ⟨le_refl _, ?_⟩
    split_ifs <;> omega
  · rw [if_neg hp]
    exact objectDec_bounds s _ _ y

/-! ## The collect loop -/

theorem linkPhantomize_references (s : State) (l y : ℕ) :
    ((linkPhantomize s l).objects y).references ≤ (s.objects y).references := by
  unfold linkPhantomize
  dsimp only
  split_ifs
  · rfl
  · have hmark : ∀ (u : State) (g : Link → Link), (u.modifyLink l g).objects = u.objects :=
      fun _ _ => rfl
    have hstart : ((s.modifyObject (s.links l).target fun o =>
        { o with count2 := o.count2 + 1 }).objects y).references = (s.objects y).references := by
      rw [State.modifyObject_objects]
      split_ifs with hy
      · rw [hy]
        rfl
      · rfl
    rw [State.check_objects, hmark, references_congr (objectMergeCollectors_count _ _ _ y).1,
      State.check_objects, ← hstart]
    exact (linkDec_bounds _ l y).1

theorem phantomizeSnapshot_references (obj : ℕ) (s : State) (l y : ℕ) :
    ((phantomizeSnapshot obj s l).objects y).references ≤ (s.objects y).references := by
  unfold phantomizeSnapshot
  dsimp only
  split_ifs
  · rw [State.check_objects]
  · refine (linkPhantomize_references _ l y).trans_eq ?_
    simp only [State.check_objects]

theorem foldl_phantomizeSnapshot_references (obj : ℕ) (ls : List ℕ) (s : State) (y : ℕ) :
    ((ls.foldl (phantomizeSnapshot obj) s).objects y).references ≤ (s.objects y).references := by
  induction ls generalizing s with
  | nil => rfl
  | cons l ls ih => exact (ih _).trans (phantomizeSnapshot_references obj s l y)

theorem objectPhantomizeLinks_references (s : State) (obj y : ℕ) :
    ((objectPhantomizeLinks s obj).objects y).references ≤ (s.objects y).references := by
  rw [objectPhantomizeLinks_eq]
  have hfold := foldl_phantomizeSnapshot_references obj (s.objects obj).links.values
    (phantomizeStart s obj) y
  generalize (s.objects obj).links.values.foldl (phantomizeSnapshot obj) (phantomizeStart s obj) = u
    at hfold ⊢
  have hstart : ((phantomizeStart s obj).objects y).references = (s.objects y).references := by
    rw [phantomizeStart_objects]
    split_ifs with hy
    · rw [hy]
      rfl
    · rfl
  rw [hstart] at hfold
  refine le_of_eq_of_le ?_ hfold
  rw [State.modifyObject_objects]
  split_ifs with hy
  · rw [hy]
    rfl
  · rfl

/-- The claim of the list on the polled object is dropped. -/
theorem objectPhantomizeNode_references (s : State) (obj y : ℕ) :
    ((objectPhantomizeNode s obj).objects y).references ≤
      (s.objects y).references - if y = obj then 1 else 0 := by
  rw [objectPhantomizeNode_eq]
  have hcount := objectUpdateCollector_count s obj y
  generalize objectUpdateCollector s obj = s1 at hcount ⊢
  dsimp only
  have hdrop : ((s1.modifyObject obj fun o =>
      { o with count := Function.update o.count o.which (o.count o.which - 1) }).objects
        y).references = (s.objects y).references - if y = obj then 1 else 0 := by
    rw [State.modifyObject_objects, ← references_congr hcount]
    by_cases hy : y = obj
    · subst y
      rw [if_pos rfl, if_pos rfl]
      exact references_update (s1.objects obj) _ (-1)
    · rw [if_neg hy, if_neg hy, sub_zero]
  generalize s1.modifyObject obj (fun o =>
    { o with count := Function.update o.count o.which (o.count o.which - 1) }) = s2 at hdrop ⊢
  have hcheck := s2.check_objects (0 ≤ (s2.objects obj).count (s2.objects obj).which)
    (.assertFailed .phantomizeCount)
  generalize s2.check (0 ≤ (s2.objects obj).count (s2.objects obj).which)
    (.assertFailed .phantomizeCount) = s3 at hcheck ⊢
  rw [← hcheck] at hdrop
  have hflip : ((phantomizeFlip s3 obj).objects y).references = (s3.objects y).references := by
    unfold phantomizeFlip
    split_ifs
    · rw [State.modifyObject_objects]
      split_ifs with hy
      · rw [hy]
        rfl
      · rfl
    · rfl
  rw [← hdrop]
  split_ifs
  · exact le_refl _
  · exact hflip.le
  · exact (objectPhantomizeLinks_references _ obj y).trans_eq hflip

/-- The references of all objects. -/
def totalReferences (s : State) : ℤ := ∑ x ∈ Finset.range s.objectCount, (s.objects x).references

theorem totalReferences_phantomizeNode (s : State) {obj : ℕ} (hobj : obj < s.objectCount) :
    totalReferences (objectPhantomizeNode s obj) + 1 ≤ totalReferences s := by
  have hn : (objectPhantomizeNode s obj).objectCount = s.objectCount := by
    rcases objectPhantomizeNode_cases s obj with ⟨_, hf⟩ | ⟨_, hf, _⟩
    · exact hf.objectCount
    · exact hf.objectCount
  have hone : ∑ x ∈ Finset.range s.objectCount, (if x = obj then (1 : ℤ) else 0) = 1 := by
    rw [Finset.sum_ite_eq', if_pos (Finset.mem_range.mpr hobj)]
  have hsum : ∑ x ∈ Finset.range s.objectCount, ((objectPhantomizeNode s obj).objects x).references ≤
      ∑ x ∈ Finset.range s.objectCount, ((s.objects x).references - if x = obj then 1 else 0) :=
    Finset.sum_le_sum fun x _ => objectPhantomizeNode_references s obj x
  rw [Finset.sum_sub_distrib, hone] at hsum
  rw [totalReferences, totalReferences, hn]
  omega

/-! ## The clean loop -/

/-- The links in the tables of all objects. -/
def totalLinks (s : State) : ℤ :=
  ∑ x ∈ Finset.range s.objectCount, ((s.objects x).links.values.length : ℤ)

theorem totalLinks_frame {s s' : State} (h : LinkFrame s s') : totalLinks s' = totalLinks s := by
  rw [totalLinks, totalLinks, h.objectCount]
  apply Finset.sum_congr rfl
  intro x _
  rw [h.table]

theorem totalLinks_empty (s : State) {obj : ℕ} (hobj : obj < s.objectCount) :
    totalLinks (s.modifyObject obj emptyRecord) + (s.objects obj).links.values.length =
      totalLinks s := by
  have hrow : ∀ x, (((s.modifyObject obj emptyRecord).objects x).links.values.length : ℤ) =
      (s.objects x).links.values.length -
        if x = obj then ((s.objects obj).links.values.length : ℤ) else 0 := by
    intro x
    rw [State.modifyObject_objects]
    by_cases hx : x = obj
    · rw [if_pos hx, if_pos hx, emptyRecord_values, hx]
      simp
    · rw [if_neg hx, if_neg hx, sub_zero]
  have hn : (s.modifyObject obj emptyRecord).objectCount = s.objectCount := rfl
  rw [totalLinks, totalLinks, hn, Finset.sum_congr rfl fun x _ => hrow x, Finset.sum_sub_distrib,
    Finset.sum_ite_eq', if_pos (Finset.mem_range.mpr hobj)]
  omega

theorem totalCount2_congr {s s' : State} (hn : s'.objectCount = s.objectCount)
    (h : ∀ x, (s'.objects x).count2 = (s.objects x).count2) : totalCount2 s' = totalCount2 s := by
  rw [totalCount2, totalCount2, hn]
  exact Finset.sum_congr rfl fun x _ => h x

theorem totalCount2_linkDestroy (s : State) (l : ℕ) :
    totalCount2 (linkDestroy s l) ≤ totalCount2 s + 1 := by
  have hrow : ∀ x ∈ Finset.range s.objectCount, ((linkDestroy s l).objects x).count2 ≤
      (s.objects x).count2 + if x = (s.links l).target then 1 else 0 :=
    fun x _ => (linkDec_bounds s l x).2
  have hsum := Finset.sum_le_sum hrow
  rw [Finset.sum_add_distrib, Finset.sum_ite_eq'] at hsum
  rw [totalCount2, totalCount2, (linkDestroy_frame s l).objectCount]
  split_ifs at hsum <;> omega

theorem totalCount2_foldl_linkDestroy (ls : List ℕ) (s : State) :
    totalCount2 (ls.foldl linkDestroy s) ≤ totalCount2 s + ls.length := by
  induction ls generalizing s with
  | nil => simp
  | cons l ls ih =>
    have h1 := ih (linkDestroy s l)
    have h2 := totalCount2_linkDestroy s l
    rw [List.foldl_cons, List.length_cons]
    push_cast
    omega

theorem totalCount2_removeLinks (s : State) (obj : ℕ) :
    totalCount2 (objectRemoveLinks s obj) ≤
      totalCount2 s + (s.objects obj).links.values.length := by
  have hstart : totalCount2 (removeStart s obj) = totalCount2 s := by
    apply totalCount2_congr
    · simp [removeStart, State.modifyObject, State.emit]
    · intro x
      rw [removeStart_objects]
      split_ifs with hx
      · rw [hx]
      · rfl
  rw [objectRemoveLinks_eq, ← hstart]
  exact totalCount2_foldl_linkDestroy _ _

theorem totalCount2_decPhantom (s : State) {x : ℕ} (hx : x < s.objectCount) :
    totalCount2 (objectDecPhantom s x) = totalCount2 s - 1 := by
  rw [totalCount2, totalCount2, (objectDecPhantom_frame s x).objectCount]
  simp only [objectDecPhantom_count2, Finset.sum_sub_distrib]
  rw [Finset.sum_ite_eq', if_pos (Finset.mem_range.mpr hx)]

/-- A link that is destroyed may put its target in a collect list, for a phantom reference. -/
theorem objectCleanNode_total (s : State) {obj : ℕ} (hobj : obj < s.objectCount) :
    totalCount2 (objectCleanNode s obj) + totalLinks (objectCleanNode s obj) + 1 ≤
      totalCount2 s + totalLinks s := by
  have hf := (check_frame s (0 ≤ (s.objects obj).count false) (.assertFailed .cleanCount)).trans
    (check_frame _ (0 ≤ ((s.check (0 ≤ (s.objects obj).count false)
      (.assertFailed .cleanCount)).objects obj).count true) (.assertFailed .cleanCount))
  have hobjects : ((s.check (0 ≤ (s.objects obj).count false) (.assertFailed .cleanCount)).check
      (0 ≤ ((s.check (0 ≤ (s.objects obj).count false)
      (.assertFailed .cleanCount)).objects obj).count true) (.assertFailed .cleanCount)).objects =
      s.objects := by
    rw [State.check_objects, State.check_objects]
  unfold objectCleanNode
  dsimp only
  generalize (s.check (0 ≤ (s.objects obj).count false) (.assertFailed .cleanCount)).check
    (0 ≤ ((s.check (0 ≤ (s.objects obj).count false)
      (.assertFailed .cleanCount)).objects obj).count true) (.assertFailed .cleanCount) = s1
    at hf hobjects ⊢
  have hobj1 : obj < s1.objectCount := hobj.trans_eq hf.objectCount.symm
  have hcount2 : totalCount2 s1 = totalCount2 s :=
    totalCount2_congr hf.objectCount fun x => by rw [hobjects]
  have hlinks := totalLinks_frame hf.link
  split_ifs
  · rw [totalCount2_decPhantom s1 hobj1, totalLinks_frame (objectDecPhantom_frame s1 obj).link]
    omega
  · have hrem := objectRemoveLinks_frame s1 obj
    have h1 := totalCount2_removeLinks s1 obj
    have h2 := totalLinks_empty s1 hobj1
    rw [totalCount2_decPhantom _ (hobj1.trans_eq hrem.objectCount.symm),
      totalLinks_frame (objectDecPhantom_frame _ obj).link, totalLinks_frame hrem]
    omega

/-! ## What the layouts hold -/

theorem Layout.push_data_ne (d : Layout) {r q : ListRef} (o : ℕ) (h : q ≠ r) :
    (d.push r o).data q = d.data q :=
  Function.update_of_ne h _ _

theorem Layout.rebuild_data_ne (d : Layout) {c : ℕ} (xs : List ℕ) {q : ListRef}
    (h : q ≠ (c, .rebuild)) : (d.rebuild c xs).data q = d.data q :=
  Function.update_of_ne h _ _

theorem Layout.rebuild_data_self (d : Layout) (c : ℕ) (xs : List ℕ) :
    (d.rebuild c xs).data (c, .rebuild) = d.data (c, .rebuild) ++ xs :=
  Function.update_self ..

theorem Layout.poll_data_self (d : Layout) (r : ListRef) :
    (d.poll r).data r = (d.data r).tail :=
  Function.update_self ..

/-! ## Whole runs -/

/-- The iterations of the started run, to its return. -/
def runSteps : ℕ → State → Option State
  | n, s =>
    match s.running with
    | [] => some s
    | (c, loop) :: _ =>
      match n with
      | 0 => none
      | n + 1 => runSteps n (runIteration s 0 c loop)

/-- `collector_run` by the task at position `i`, without another thread in between. If an assertion
fails, the trace has it. -/
def collectorRun (n : ℕ) (s : State) (i c : ℕ) : Option State := runSteps n (collectorEnter s i c)

/-- A mutator call or a delete task. -/
def Action.whole : Action → Bool
  | .enter _ _ => false
  | .iterate _ _ _ => false
  | _ => true

/-- The states between whole mutator calls, delete tasks and calls of `collector_run`, where the
mutator calls meet the condition `ok`. -/
inductive WholeRun (ok : State → Action → Prop) : State → Prop where
  | start : WholeRun ok initial
  | call {s : State} {a : Action} (run : WholeRun ok s) (enabled : Enabled s a)
      (whole : a.whole = true) (meets : ok s a) : WholeRun ok (exec s a)
  | collect {s s' : State} {n i c : ℕ} (run : WholeRun ok s) (enabled : s.work[i]? = some (.run c))
      (returns : collectorRun n s i c = some s') : WholeRun ok s'

theorem runSteps_nil (n : ℕ) {s : State} (h : s.running = []) : runSteps n s = some s := by
  unfold runSteps
  rw [h]

theorem runSteps_cons (n : ℕ) {s : State} {c : ℕ} {loop : Loop} (h : s.running = [(c, loop)]) :
    runSteps (n + 1) s = runSteps n (runIteration s 0 c loop) := by
  rw [runSteps, h]

/-- The started run goes on, or has returned. -/
theorem runIteration_running {s : State} {c : ℕ} {loop : Loop} (h : s.running = [(c, loop)]) :
    (loop = .exit ∧ (runIteration s 0 c loop).running = []) ∨
    (loop ≠ .exit ∧ (s.safelist (c, loop.list)).data = [] ∧
      (runIteration s 0 c loop).running = [(c, loop.next)]) ∨
    (loop ≠ .exit ∧ (s.safelist (c, loop.list)).data ≠ [] ∧
      (runIteration s 0 c loop).running = [(c, loop)]) := by
  rcases runIteration_cases s 0 c loop with ⟨hloop, _, heq⟩ | ⟨hloop, _, heq⟩ | ⟨hloop, hd, heq⟩ |
    ⟨hloop, obj, rest, hd, heq⟩
  · refine .inl ⟨hloop, ?_⟩
    have hrun : (collectorDestroy (collectorTerminate s c) c).running = s.running :=
      (collectorSetForward_frame s c none).running
    rw [heq, hrun, h]
    rfl
  · refine .inl ⟨hloop, ?_⟩
    rw [heq, h]
    rfl
  · refine .inr (.inl ⟨hloop, hd, ?_⟩)
    rw [heq, h]
    rfl
  · refine .inr (.inr ⟨hloop, by simp [hd], ?_⟩)
    rw [heq, loopBody_running, (afterPoll_frame s c loop obj).running, h]
    rfl

/-- A step of the loops leads to a state of a run. -/
theorem runSteps_run {n : ℕ} {s s' : State} (run : Run anyStep initial s)
    (hone : s.running.length ≤ 1) (h : runSteps n s = some s') :
    Run anyStep initial s' ∧ s'.running = [] := by
  induction n generalizing s with
  | zero =>
    cases hrun : s.running with
    | nil =>
      rw [runSteps_nil 0 hrun] at h
      cases h
      exact ⟨run, hrun⟩
    | cons p ps =>
      rw [runSteps, hrun] at h
      cases h
  | succ n ih =>
    cases hrun : s.running with
    | nil =>
      rw [runSteps_nil _ hrun] at h
      cases h
      exact ⟨run, hrun⟩
    | cons p ps =>
      obtain ⟨c, loop⟩ := p
      have hps : s.running = [(c, loop)] := by
        rw [hrun] at hone ⊢
        rw [List.length_eq_zero_iff.mp (Nat.le_zero.mp (Nat.le_of_succ_le_succ hone))]
      rw [runSteps_cons n hps] at h
      have hstep : Run anyStep initial (runIteration s 0 c loop) :=
        run.step (a := .iterate 0 c loop) (by simp [Enabled, hps]) trivial
      refine ih hstep ?_ h
      rcases runIteration_running hps with ⟨_, he⟩ | ⟨_, _, he⟩ | ⟨_, _, he⟩ <;> simp [he]

theorem exec_running {s : State} {a : Action} (h : a.whole = true) :
    (exec s a).running = s.running := by
  cases a with
  | initStrong d => rfl
  | incStrong o => rfl
  | decStrong o => exact (objectDec_frame (s.dropClaim o) o _).running
  | set o f r =>
    rcases objectSet_cases s o f r with ⟨_, hf, _⟩ | ⟨heq, _⟩ | ⟨y, _, hf, _⟩
    · exact hf.running
    · exact congrArg State.running heq
    · exact hf.running
  | enter i c => cases h
  | iterate i c loop => cases h
  | delete i o => exact (objectRequestDeleteTaskRun_effect _ o).2.2.2.2.2

theorem collectorEnter_running {s : State} (h : s.running = []) (i c : ℕ) :
    (collectorEnter s i c).running = [] ∨ (collectorEnter s i c).running = [(c, .merged)] := by
  unfold collectorEnter
  dsimp only
  split_ifs
  · exact .inl h
  · right
    rw [h]
    rfl

theorem WholeRun.run {ok : State → Action → Prop} {s : State} (h : WholeRun ok s) :
    Run anyStep initial s ∧ s.running = [] := by
  induction h with
  | start => exact ⟨.start, rfl⟩
  | call _ he hwhole _ ih => exact ⟨ih.1.step he trivial, (exec_running hwhole).trans ih.2⟩
  | @collect s s' n i c _ he hr ih =>
    apply runSteps_run (ih.1.step (a := .enter i c) he trivial) ?_ hr
    rcases collectorEnter_running ih.2 i c with h | h <;> simp [exec, h]

theorem WholeRun.any {ok : State → Action → Prop} {s : State} (h : WholeRun ok s) :
    WholeRun anyStep s := by
  induction h with
  | start => exact .start
  | call _ he hwhole _ ih => exact ih.call he hwhole trivial
  | collect _ hi hr ih => exact ih.collect hi hr

/-! ## The measure -/

/-- Loops still to come. -/
def Loop.left : Loop → ℕ
  | .merged => 5
  | .collect => 4
  | .recovery => 3
  | .rebuild => 2
  | .clean => 1
  | .exit => 0

/-- A bound on the iterations left in a loop. -/
def remaining (s : State) (c : ℕ) : Loop → ℕ
  | .merged => (s.safelist (c, .merged)).data.length
  | .collect => (totalReferences s).toNat
  | .recovery => (s.safelist (c, .recovery)).data.length
  | .rebuild => ((s.safelist (c, .rebuild)).data.length + totalCount2 s).toNat
  | .clean => (totalCount2 s + totalLinks s).toNat
  | .exit => 0

namespace Sound
variable {s : State}

theorem totalReferences_nonneg {L : Ledger} (h : Sound s L) : 0 ≤ totalReferences s := by
  apply Finset.sum_nonneg
  intro x _
  exact add_nonneg (h.balance.count_nonneg x false) (h.balance.count_nonneg x true)

theorem totalCount2_nonneg {L : Ledger} (h : Sound s L) : 0 ≤ totalCount2 s :=
  Finset.sum_nonneg fun x _ => h.balance.count2_nonneg x

theorem totalLinks_nonneg (s : State) : 0 ≤ totalLinks s :=
  Finset.sum_nonneg fun _ _ => Int.natCast_nonneg _

section
variable {i c obj : ℕ} {rest : List ℕ}

theorem iterate_objects (loop : Loop) (hloop : loop ≠ .exit)
    (hd : (s.safelist (c, loop.list)).data = obj :: rest) :
    (Acid.exec s (.iterate i c loop)).objects =
        (Acid.loopBody (afterPoll s c loop obj) c loop obj).objects ∧
      (Acid.exec s (.iterate i c loop)).objectCount =
        (Acid.loopBody (afterPoll s c loop obj) c loop obj).objectCount := by
  change (Acid.runIteration s i c loop).objects = _ ∧ (Acid.runIteration s i c loop).objectCount = _
  rcases runIteration_cases s i c loop with ⟨hexit, _⟩ | ⟨hexit, _⟩ | ⟨_, hnil, _⟩ |
    ⟨_, obj', rest', hcons, heq⟩
  · exact absurd hexit hloop
  · exact absurd hexit hloop
  · rw [hd] at hnil
    cases hnil
  · rw [hd] at hcons
    cases hcons
    rw [heq]
    exact ⟨rfl, rfl⟩

/-- The objects that the loops poll are allocated, those of the rebuild list aside. -/
theorem polled_lt (h : Sound s (restLedger False False s)) (loop : Loop) (hr : loop.list ≠ .rebuild)
    (hd : (s.safelist (c, loop.list)).data = obj :: rest) : obj < s.objectCount := by
  have hpoll := h.poll hd rfl
  have hcur : (obj, c) ∈ ((restLedger False False s).polled loop.list (s.objects obj).which
      obj c).curated := by
    simp [Ledger.polled, hr]
  exact (hpoll.live_of_curated hcur).1.trans_eq (safelistPoll_frame s _).objectCount

theorem remaining_merged (h : Sound s (restLedger False False s))
    (hd : (s.safelist (c, .merged)).data = obj :: rest) :
    remaining (Acid.exec s (.iterate i c .merged)) c .merged < remaining s c .merged := by
  have hlay := layout_iterate s i c .merged (by simp) hd
  rw [h.layout_merged hd, layout_afterPoll .merged hd] at hlay
  have hdata := congrFun (congrArg Layout.data hlay) (c, .merged)
  rw [Layout.push_data_ne _ _ (by simp), Loop.list, Layout.poll_data_self] at hdata
  change ((Acid.exec s (.iterate i c .merged)).safelist (c, .merged)).data =
    (s.safelist (c, .merged)).data.tail at hdata
  rw [remaining, remaining, hdata, hd]
  exact Nat.lt_succ_self _

theorem remaining_collect (h : Sound s (restLedger False False s))
    (hi : s.running[i]? = some (c, .collect))
    (hd : (s.safelist (c, .collect)).data = obj :: rest) :
    remaining (Acid.exec s (.iterate i c .collect)) c .collect < remaining s c .collect := by
  have hafter : Sound (Acid.exec s (.iterate i c .collect)) _ :=
    h.exec hi (fun hf => hf.elim) fun hf => hf.elim
  obtain ⟨hobjects, hcount⟩ := iterate_objects (i := i) (c := c) .collect (by simp) hd
  have hlt := h.polled_lt .collect (by simp [Loop.list]) hd
  have hframe := afterPoll_frame s c .collect obj
  have hpolled : totalReferences (afterPoll s c .collect obj) = totalReferences s := by
    rw [totalReferences, totalReferences, afterPoll_objects, hframe.objectCount]
  have hnode := totalReferences_phantomizeNode (afterPoll s c .collect obj)
    (hlt.trans_eq hframe.objectCount.symm)
  have hbody : totalReferences (Acid.exec s (.iterate i c .collect)) =
      totalReferences (objectPhantomizeNode (afterPoll s c .collect obj) obj) := by
    rw [totalReferences, totalReferences, hobjects, hcount, Acid.loopBody,
      (safelistAdd_same _ _ _).objects, (safelistAdd_frame _ _ _).objectCount]
  have hpos := hafter.totalReferences_nonneg
  rw [remaining, remaining]
  omega

theorem remaining_recovery (h : Sound s (restLedger False False s))
    (hi : s.running[i]? = some (c, .recovery))
    (hd : (s.safelist (c, .recovery)).data = obj :: rest) :
    remaining (Acid.exec s (.iterate i c .recovery)) c .recovery < remaining s c .recovery := by
  obtain ⟨xs, hxs, _, _⟩ := h.layout_recover hi hd
  have hlay := layout_iterate s i c .recovery (by simp) hd
  rw [h.layout_recovery hi hd hxs, layout_afterPoll .recovery hd] at hlay
  have hdata := congrFun (congrArg Layout.data hlay) (c, .recovery)
  rw [Layout.push_data_ne _ _ (by simp), Layout.rebuild_data_ne _ _ (by simp), Loop.list,
    Layout.poll_data_self] at hdata
  change ((Acid.exec s (.iterate i c .recovery)).safelist (c, .recovery)).data =
    (s.safelist (c, .recovery)).data.tail at hdata
  rw [remaining, remaining, hdata, hd]
  exact Nat.lt_succ_self _

/-- Every object that joins the rebuild list uses up a phantom reference. -/
theorem remaining_rebuild (h : Sound s (restLedger False False s))
    (hi : s.running[i]? = some (c, .rebuild))
    (hd : (s.safelist (c, .rebuild)).data = obj :: rest) :
    remaining (Acid.exec s (.iterate i c .rebuild)) c .rebuild < remaining s c .rebuild := by
  have hafter : Sound (Acid.exec s (.iterate i c .rebuild)) _ :=
    h.exec hi (fun hf => hf.elim) fun hf => hf.elim
  obtain ⟨hobjects, hcount⟩ := iterate_objects (i := i) (c := c) .rebuild (by simp) hd
  obtain ⟨xs, hxs, hlen, _⟩ := h.layout_recover hi hd
  have hlay := layout_iterate s i c .rebuild (by simp) hd
  change _ = layout (objectRecoverNode (afterPoll s c .rebuild obj) obj c) at hlay
  rw [hxs, layout_afterPoll .rebuild hd] at hlay
  have hdata := congrFun (congrArg Layout.data hlay) (c, .rebuild)
  rw [Layout.rebuild_data_self, Loop.list, Layout.poll_data_self] at hdata
  change ((Acid.exec s (.iterate i c .rebuild)).safelist (c, .rebuild)).data =
    (s.safelist (c, .rebuild)).data.tail ++ xs at hdata
  have hbody : totalCount2 (Acid.exec s (.iterate i c .rebuild)) =
      totalCount2 (objectRecoverNode (afterPoll s c .rebuild obj) obj c) := by
    rw [totalCount2, totalCount2, hobjects, hcount]
    rfl
  have hpos := hafter.totalCount2_nonneg
  rw [remaining, remaining, hdata, hd, List.tail_cons, List.length_append, List.length_cons]
  push_cast
  omega

theorem remaining_clean (h : Sound s (restLedger False False s))
    (hi : s.running[i]? = some (c, .clean))
    (hd : (s.safelist (c, .clean)).data = obj :: rest) :
    remaining (Acid.exec s (.iterate i c .clean)) c .clean < remaining s c .clean := by
  have hafter : Sound (Acid.exec s (.iterate i c .clean)) _ :=
    h.exec hi (fun hf => hf.elim) fun hf => hf.elim
  obtain ⟨hobjects, hcount⟩ := iterate_objects (i := i) (c := c) .clean (by simp) hd
  have hlt := h.polled_lt .clean (by simp [Loop.list]) hd
  have hframe := afterPoll_frame s c .clean obj
  have hclean := objectCleanNode_total (afterPoll s c .clean obj)
    (hlt.trans_eq hframe.objectCount.symm)
  have hcount2 : totalCount2 (afterPoll s c .clean obj) = totalCount2 s :=
    totalCount2_congr hframe.objectCount fun x => by rw [afterPoll_objects]
  have hlinks := totalLinks_frame hframe.link
  have hbody2 : totalCount2 (Acid.exec s (.iterate i c .clean)) =
      totalCount2 (objectCleanNode (afterPoll s c .clean obj) obj) := by
    rw [totalCount2, totalCount2, hobjects, hcount]
    rfl
  have hbodyLinks : totalLinks (Acid.exec s (.iterate i c .clean)) =
      totalLinks (objectCleanNode (afterPoll s c .clean obj) obj) := by
    rw [totalLinks, totalLinks, hobjects, hcount]
    rfl
  have hpos2 := hafter.totalCount2_nonneg
  have hposLinks := totalLinks_nonneg (Acid.exec s (.iterate i c .clean))
  rw [remaining, remaining]
  omega

/-- An iteration that polls an object comes closer to the end of its loop. -/
theorem remaining_lt (h : Sound s (restLedger False False s)) {loop : Loop}
    (hi : s.running[i]? = some (c, loop)) (hloop : loop ≠ .exit)
    (hne : (s.safelist (c, loop.list)).data ≠ []) :
    remaining (Acid.exec s (.iterate i c loop)) c loop < remaining s c loop := by
  obtain ⟨obj, rest, hd⟩ := List.exists_cons_of_ne_nil hne
  cases loop with
  | merged => exact h.remaining_merged hd
  | collect => exact h.remaining_collect hi hd
  | recovery => exact h.remaining_recovery hi hd
  | rebuild => exact h.remaining_rebuild hi hd
  | clean => exact h.remaining_clean hi hd
  | exit => exact absurd rfl hloop

end

end Sound

theorem Loop.next_left {loop : Loop} (h : loop ≠ .exit) : loop.next.left < loop.left := by
  cases loop with
  | exit => exact absurd rfl h
  | _ => decide

/-- The iterations of a started run come to an end, whatever loop it is in: the loops to come
and the measure of the present one fall in lexicographic order. -/
theorem runSteps_returns {s : State} {c : ℕ} {loop : Loop} (run : Run anyStep initial s)
    (hrun : s.running = [(c, loop)]) : ∃ n s', ∀ m, n ≤ m → runSteps m s = some s' := by
  have hi : s.running[0]? = some (c, loop) := by simp [hrun]
  have hstep : Run anyStep initial (runIteration s 0 c loop) :=
    run.step (a := .iterate 0 c loop) hi trivial
  have hnext : (∃ n s', ∀ m, n ≤ m → runSteps m (runIteration s 0 c loop) = some s') →
      ∃ n s', ∀ m, n ≤ m → runSteps m s = some s' := by
    rintro ⟨n, s', h⟩
    refine ⟨n + 1, s', fun m hm => ?_⟩
    obtain ⟨k, rfl⟩ : ∃ k, m = k + 1 := ⟨m - 1, by omega⟩
    rw [runSteps_cons k hrun]
    exact h k (by omega)
  apply hnext
  rcases runIteration_running hrun with ⟨_, he⟩ | ⟨hloop, _, he⟩ | ⟨hloop, hne, he⟩
  · exact ⟨0, _, fun m _ => runSteps_nil m he⟩
  · have hleft := Loop.next_left hloop
    exact runSteps_returns hstep he
  · have hlt := run.anySound.remaining_lt hi hloop hne
    exact runSteps_returns hstep he
termination_by (loop.left, remaining s c loop)
decreasing_by
  · exact Prod.Lex.left _ _ hleft
  · exact Prod.Lex.right _ hlt

/-- The loops of a call of `collector_run` that nothing interrupts come to an end. -/
theorem WholeRun.collectorRun_ends {ok : State → Action → Prop} {s : State} (h : WholeRun ok s)
    {i c : ℕ} (hi : s.work[i]? = some (.run c)) :
    ∃ n s', ∀ m, n ≤ m → collectorRun m s i c = some s' := by
  have henter : Run anyStep initial (collectorEnter s i c) := h.run.1.step (a := .enter i c) hi trivial
  rcases collectorEnter_running h.run.2 i c with he | he
  · exact ⟨0, _, fun m _ => runSteps_nil m he⟩
  · exact runSteps_returns henter he

/-- More iterations than a call needs change nothing. -/
theorem runSteps_mono {n m : ℕ} (hle : n ≤ m) {s s' : State} (h : runSteps n s = some s') :
    runSteps m s = some s' := by
  induction n generalizing m s with
  | zero =>
    unfold runSteps at h
    split at h
    · rename_i hrun
      rw [runSteps_nil m hrun]
      exact h
    · cases h
  | succ n ih =>
    obtain ⟨k, rfl⟩ : ∃ k, m = k + 1 := ⟨m - 1, by omega⟩
    unfold runSteps at h ⊢
    split at h
    · exact h
    · exact ih (by omega) h

/-- A replay of calls, the test of whose condition succeeds. -/
theorem WholeRun.replay {ok : State → Action → Prop} {test : State → Action → Bool}
    (htest : ∀ s a, test s a = true → ok s a) {s : State} (run : WholeRun ok s) {as : List Action}
    (h : replayable (fun s a => a.whole && test s a) s as = true) : WholeRun ok (Acid.replay s as) := by
  induction as generalizing s with
  | nil => exact run
  | cons a as ih =>
    simp only [replayable, Bool.and_eq_true] at h
    exact ih (run.call (enabled_of_test h.1.1) h.1.2.1 (htest _ _ h.1.2.2)) h.2

end Acid

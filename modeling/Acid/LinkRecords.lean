import Acid.Flags

set_option autoImplicit false

/-!
# The records of links

A record is created by `object_set` and freed with the table that stores it. An
`object_set` that takes a record out of its table releases the reference of the
link and keeps the record.
-/
namespace Acid

theorem linkDestroy_freeLink (s : State) (k l : ℕ) :
    (linkDestroy s k).trace.count (.freeLink l) =
      s.trace.count (.freeLink l) + if k = l then 1 else 0 := by
  have hdec := linkDec_emits (P := fun e => e ≠ .freeLink l)
    (fun e he => by rintro rfl; cases he) s k (.freeLink l) (by simp)
  change ((.freeLink k :: (linkDec s k).trace) : List Event).count _ = _
  rw [List.count_cons, hdec]
  by_cases hk : k = l
  · simp [hk]
  · simp [hk]

theorem objectRemoveLinks_freeLink (s : State) (obj l : ℕ) :
    (objectRemoveLinks s obj).trace.count (.freeLink l) =
      s.trace.count (.freeLink l) + (s.objects obj).links.values.count l := by
  have hfold : ∀ (ls : List ℕ) (u : State), (ls.foldl linkDestroy u).trace.count (.freeLink l) =
      u.trace.count (.freeLink l) + ls.count l := by
    intro ls
    induction ls with
    | nil => exact fun u => rfl
    | cons k ls ih =>
      intro u
      rw [List.foldl_cons, ih, linkDestroy_freeLink, List.count_cons, add_assoc, add_comm (ls.count l)]
      simp
  have hstart : (removeStart s obj).trace.count (.freeLink l) = s.trace.count (.freeLink l) := by
    have h1 : Emits (fun e => e ≠ .freeLink l) s
        ((s.emit (.removeLinks obj)).modifyObject obj emptyRecord) :=
      (Emits.emit (by simp)).trans (.of_trace rfl)
    have hc : ∀ (u : State) (p : Prop) [Decidable p], Emits (fun e => e ≠ .freeLink l)
        u (u.check p (.assertFailed .removeCount)) := fun u p _ => Emits.check fun _ => by simp
    have h2 : Emits (fun e => e ≠ .freeLink l) s (removeStart s obj) :=
      (h1.trans (hc _ _)).trans (hc _ _)
    exact h2 _ (by simp)
  rw [objectRemoveLinks_eq, hfold, hstart]

/-- What the other events are, is not asked here. -/
theorem Emits.freeLink {s s' : State} (h : Emits Event.Minor s s') (l : ℕ) :
    s'.trace.count (.freeLink l) = s.trace.count (.freeLink l) :=
  h _ id

theorem objectCleanNode_freeLink (s : State) (obj l : ℕ) :
    (objectCleanNode s obj).trace.count (.freeLink l) = s.trace.count (.freeLink l) +
      if (s.objects obj).count false = 0 ∧ (s.objects obj).count true = 0 then
        (s.objects obj).links.values.count l else 0 := by
  have h1 : Emits Event.Minor s
      ((s.check (0 ≤ (s.objects obj).count false) (.assertFailed .cleanCount)).check
      (0 ≤ ((s.check (0 ≤ (s.objects obj).count false)
      (.assertFailed .cleanCount)).objects obj).count true) (.assertFailed .cleanCount)) :=
    (Emits.check fun _ => trivial).trans (Emits.check fun _ => trivial)
  have hobj1 : ((s.check (0 ≤ (s.objects obj).count false) (.assertFailed .cleanCount)).check
      (0 ≤ ((s.check (0 ≤ (s.objects obj).count false)
      (.assertFailed .cleanCount)).objects obj).count true) (.assertFailed .cleanCount)).objects =
      s.objects := by
    rw [State.check_objects, State.check_objects]
  have hdec := fun u : State => (objectDecPhantom_emits minor_of_basic u obj).freeLink l
  unfold objectCleanNode
  dsimp only
  generalize (s.check (0 ≤ (s.objects obj).count false) (.assertFailed .cleanCount)).check
    (0 ≤ ((s.check (0 ≤ (s.objects obj).count false)
      (.assertFailed .cleanCount)).objects obj).count true) (.assertFailed .cleanCount) = s1 at *
  rw [hobj1, hdec]
  by_cases hz : (s.objects obj).count false = 0 ∧ (s.objects obj).count true = 0
  · rw [if_neg (by simp [hz]), if_pos hz, objectRemoveLinks_freeLink, hobj1, h1.freeLink l]
  · rw [if_pos (by tauto), if_neg hz, h1.freeLink l, add_zero]

/-- The log of a step names the records it frees. -/
theorem exec_freeLink (s : State) (a : Action) (l : ℕ) :
    (exec s a).trace.count (.freeLink l) =
      s.trace.count (.freeLink l) + (freedBy s a).count l := by
  have hquiet : freedBy s a = [] → ¬ Ends s a (.freeLink l) →
      (exec s a).trace.count (.freeLink l) =
        s.trace.count (.freeLink l) + (freedBy s a).count l := by
    intro hnil hends
    rw [hnil, exec_minor s a _ (fun h => h.elim id hends)]
    simp
  cases a with
  | initStrong d => exact hquiet rfl id
  | incStrong o => exact hquiet rfl id
  | decStrong o => exact hquiet rfl id
  | set o f r => exact hquiet rfl id
  | enter i c => exact hquiet rfl id
  | delete i o =>
    have hdel := objectDel_emits (P := fun e => e ≠ .freeLink l)
      (fun e he => by rintro rfl; cases he)
      (objectRemoveLinks { s with work := s.work.eraseIdx i } o) o (.inl (by simp)) (by simp) (by simp)
      (.freeLink l) (by simp)
    exact hdel.trans (objectRemoveLinks_freeLink { s with work := s.work.eraseIdx i } o l)
  | iterate i c loop =>
    cases loop with
    | merged => exact hquiet rfl id
    | collect => exact hquiet rfl id
    | recovery => exact hquiet rfl id
    | rebuild => exact hquiet rfl id
    | exit =>
      refine hquiet rfl ?_
      rintro ⟨_, h⟩
      cases h
    | clean =>
      have hexec : exec s (.iterate i c .clean) = runIteration s i c .clean := rfl
      rw [hexec]
      rcases runIteration_cases s i c .clean with ⟨h, _⟩ | ⟨h, _⟩ | ⟨_, hd, heq⟩ |
        ⟨_, obj, rest, hd, heq⟩
      · cases h
      · cases h
      · rw [heq]
        simp only [Loop.list] at hd
        simp [freedBy, hd]
      · rw [heq]
        simp only [Loop.list] at hd
        have hobj := afterPoll_objects s c .clean obj
        have hclean := objectCleanNode_freeLink (afterPoll s c .clean obj) obj l
        rw [hobj, (afterPoll_emits minor_of_basic s c .clean obj).freeLink l] at hclean
        refine hclean.trans ?_
        simp only [freedBy, hd]
        split_ifs
        · rfl
        · simp

/-- The stored records after a step. -/
theorem HeapStep.inTable_iff {s s' : State} {ls ms : List ℕ} (hs : HeapStep s s' ls ms)
    (ht : Tables s) (l : ℕ) : InTable s' l ↔ (InTable s l ∧ l ∉ ls ∧ l ∉ ms) ∨
      (l = s.linkCount ∧ s'.linkCount = s.linkCount + 1) := by
  have hsame : s'.objectCount = s.objectCount → s'.linkCount = s.linkCount →
      (∀ o, (s'.objects o).links = (s.objects o).links) →
      (InTable s' l ↔ (InTable s l ∧ l ∉ [] ∧ l ∉ []) ∨
        (l = s.linkCount ∧ s'.linkCount = s.linkCount + 1)) := by
    intro ho hl htab
    simp [InTable, ho, hl, htab]
  have hmod : ∀ {obj : ℕ} {f : Object → Object}, SameHeap (s.modifyObject obj f) s' →
      (∀ a, (f a).links = a.links) → (InTable s' l ↔ (InTable s l ∧ l ∉ [] ∧ l ∉ []) ∨
        (l = s.linkCount ∧ s'.linkCount = s.linkCount + 1)) := by
    intro obj f heap hf
    refine hsame heap.objectCount heap.linkCount fun o => ?_
    rw [heap.table, State.modifyObject_objects]
    split_ifs with ho
    · rw [hf, ho]
    · rfl
  have hown : ∀ {o obj : ℕ}, l ∈ (s.objects o).links.values → l ∈ (s.objects obj).links.values →
      o = obj := fun h1 h2 => (ht.owned h1).2.symm.trans (ht.owned h2).2
  have hremoved : ∀ {obj : ℕ} {f : Object → Object}, SameHeap (s.modifyObject obj f) s' →
      (∀ a, (f a).links.values = []) →
      (InTable s' l ↔ (InTable s l ∧ l ∉ (s.objects obj).links.values ∧ l ∉ []) ∨
        (l = s.linkCount ∧ s'.linkCount = s.linkCount + 1)) := by
    intro obj f heap hf
    have hlc : s'.linkCount = s.linkCount := heap.linkCount
    have hoc : s'.objectCount = s.objectCount := heap.objectCount
    constructor
    · rintro ⟨o, ho, hl⟩
      rw [heap.table, State.modifyObject_objects] at hl
      split_ifs at hl with hoo
      · rw [hf] at hl
        cases hl
      · exact .inl ⟨⟨o, ho.trans_eq hoc, hl⟩, fun hm => hoo (hown hl hm), by simp⟩
    · rintro (⟨⟨o, ho, hl⟩, hn, _⟩ | ⟨_, hn⟩)
      · refine ⟨o, ho.trans_eq hoc.symm, ?_⟩
        rw [heap.table, State.modifyObject_objects, if_neg]
        · exact hl
        · rintro rfl
          exact hn hl
      · omega
  cases hs with
  | quiet heap links => exact hsame heap.objectCount heap.linkCount heap.table
  | init d heap links =>
    have hlc : s'.linkCount = s.linkCount := heap.linkCount
    have hoc : s'.objectCount = s.objectCount + 1 := heap.objectCount
    have htab : ∀ o, o ≠ s.objectCount → (s'.objects o).links = (s.objects o).links := by
      intro o ho
      rw [heap.table, initHeap]
      simp only [Function.update_of_ne ho]
    constructor
    · rintro ⟨o, ho, hl⟩
      by_cases hoo : o = s.objectCount
      · rw [heap.table, initHeap, hoo] at hl
        simp [values_new] at hl
      · rw [htab o hoo] at hl
        exact .inl ⟨⟨o, by omega, hl⟩, by simp, by simp⟩
    · rintro (⟨⟨o, ho, hl⟩, _⟩ | ⟨_, hn⟩)
      · refine ⟨o, by omega, ?_⟩
        rw [htab o (Nat.ne_of_lt ho)]
        exact hl
      · omega
  | clear obj f heap links =>
    have hlc : s'.linkCount = s.linkCount := heap.linkCount
    have hoc : s'.objectCount = s.objectCount := heap.objectCount
    have hrem := HashTable.mem_values_remove (ht.nodup obj) f l
    simp only [Option.mem_toList]
    constructor
    · rintro ⟨o, ho, hl⟩
      rw [heap.table, State.modifyObject_objects] at hl
      split_ifs at hl with hoo
      · have hl' := hrem.mp hl
        exact .inl ⟨⟨obj, by omega, hl'.1⟩, by simp, hl'.2⟩
      · refine .inl ⟨⟨o, ho.trans_eq hoc, hl⟩, by simp, fun hget => hoo (hown hl ?_)⟩
        exact ((s.objects obj).links.mem_values l).mpr
          ⟨f, ((s.objects obj).links.get_eq_some f l).mp hget⟩
    · rintro (⟨⟨o, ho, hl⟩, _, hn⟩ | ⟨_, hn⟩)
      · refine ⟨o, ho.trans_eq hoc.symm, ?_⟩
        rw [heap.table, State.modifyObject_objects]
        split_ifs with hoo
        · exact hrem.mpr ⟨hoo ▸ hl, hn⟩
        · exact hl
      · omega
  | link obj f x live named anew heap links =>
    have hlc : s'.linkCount = s.linkCount + 1 := heap.linkCount
    have hoc : s'.objectCount = s.objectCount := heap.objectCount
    have hadd := HashTable.mem_values_add (ht.nodup obj) f s.linkCount l
    simp only [Option.mem_toList]
    constructor
    · rintro ⟨o, ho, hl⟩
      rw [heap.table, linkAdded_objects] at hl
      split_ifs at hl with hoo
      · rcases hadd.mp hl with rfl | hl'
        · exact .inr ⟨rfl, hlc⟩
        · exact .inl ⟨⟨obj, live.1, hl'.1⟩, by simp, hl'.2⟩
      · refine .inl ⟨⟨o, ho.trans_eq hoc, hl⟩, by simp, fun hget => hoo (hown hl ?_)⟩
        exact ((s.objects obj).links.mem_values l).mpr
          ⟨f, ((s.objects obj).links.get_eq_some f l).mp hget⟩
    · rintro (⟨⟨o, ho, hl⟩, _, hn⟩ | ⟨rfl, _⟩)
      · refine ⟨o, ho.trans_eq hoc.symm, ?_⟩
        rw [heap.table, linkAdded_objects]
        split_ifs with hoo
        · exact hadd.mpr (.inr ⟨hoo ▸ hl, hn⟩)
        · exact hl
      · refine ⟨obj, live.1.trans_eq hoc.symm, ?_⟩
        rw [heap.table, linkAdded_objects, if_pos rfl]
        exact hadd.mpr (.inl rfl)
  | phantomize obj heap links => exact hmod heap fun _ => rfl
  | recover obj strong heap links => exact hmod heap fun _ => rfl
  | empty obj heap links => exact hremoved heap emptyRecord_values
  | delete obj heap links => exact hremoved heap deletedRecord_values

/-- The records that are freed after a step. -/
theorem HeapStep.freed_iff {s s' : State} {ls ms : List ℕ} (hs : HeapStep s s' ls ms)
    (hfresh : (s.links s.linkCount).freed = false) (l : ℕ) :
    (s'.links l).freed = true ↔ (s.links l).freed = true ∨ l ∈ ls := by
  have hremoved : ∀ obj, (freedLinks s obj l).freed = true ↔
      (s.links l).freed = true ∨ l ∈ (s.objects obj).links.values := by
    intro obj
    unfold freedLinks
    split_ifs with hm <;> simp [hm]
  cases hs with
  | quiet heap links => simp [links]
  | init d heap links => simp [links]
  | clear obj f heap links => simp [links]
  | link obj f x live named anew heap links =>
    rw [links]
    split_ifs with hl
    · simp [hl, hfresh, newLink]
    · simp
  | phantomize obj heap links =>
    rw [links]
    split_ifs <;> simp
  | recover obj strong heap links =>
    rw [links]
    split_ifs <;> simp
  | empty obj heap links => rw [links, hremoved]
  | delete obj heap links => rw [links, hremoved]

theorem HeapStep.linkCount_le {s s' : State} {ls ms : List ℕ} (hs : HeapStep s s' ls ms) :
    s.linkCount ≤ s'.linkCount ∧ s'.linkCount ≤ s.linkCount + 1 := by
  cases hs with
  | quiet heap => exact ⟨heap.linkCount.ge, heap.linkCount.le.trans (Nat.le_succ _)⟩
  | init d heap => exact ⟨heap.linkCount.ge, heap.linkCount.le.trans (Nat.le_succ _)⟩
  | clear obj f heap => exact ⟨heap.linkCount.ge, heap.linkCount.le.trans (Nat.le_succ _)⟩
  | link obj f x live named anew heap =>
    exact ⟨(Nat.le_succ _).trans_eq heap.linkCount.symm, heap.linkCount.le⟩
  | phantomize obj heap => exact ⟨heap.linkCount.ge, heap.linkCount.le.trans (Nat.le_succ _)⟩
  | recover obj strong heap => exact ⟨heap.linkCount.ge, heap.linkCount.le.trans (Nat.le_succ _)⟩
  | empty obj heap => exact ⟨heap.linkCount.ge, heap.linkCount.le.trans (Nat.le_succ _)⟩
  | delete obj heap => exact ⟨heap.linkCount.ge, heap.linkCount.le.trans (Nat.le_succ _)⟩

/-- A stored record is not freed, and the log names every freed record once. -/
structure LinkRecords (s : State) : Prop where
  fresh : ∀ l, s.linkCount ≤ l → (s.links l).freed = false
  stored : ∀ l, InTable s l → (s.links l).freed = false
  logged : ∀ l, s.trace.count (.freeLink l) = if (s.links l).freed then 1 else 0

theorem freedBy_inTable {s : State} {a : Action} {L : Ledger} (h : Sound s L) {l : ℕ}
    (hl : l ∈ freedBy s a) : InTable s l := by
  have hentry : ∀ o, l ∈ (s.objects o).links.values → InTable s l :=
    fun o ho => ⟨o, (h.live_of_entry ho).1, ho⟩
  unfold freedBy at hl
  split at hl
  · split at hl
    · cases hl
    · split_ifs at hl
      · exact hentry _ hl
      · cases hl
  · exact hentry _ hl
  · cases hl

theorem freedBy_nodup {s : State} (h : Tables s) (a : Action) : (freedBy s a).Nodup := by
  unfold freedBy
  split
  · split
    · exact List.nodup_nil
    · split_ifs
      · exact h.nodup _
      · exact List.nodup_nil
  · exact h.nodup _
  · exact List.nodup_nil

theorem LinkRecords.step {s : State} {a : Action} {L : Ledger} (h : LinkRecords s) (hs : Sound s L)
    (hL : L.refs = tableLinks s) (he : Enabled s a) : LinkRecords (exec s a) := by
  have hstep := exec_heapStep hs hL he
  have hfreed := hstep.freed_iff (h.fresh _ (le_refl _))
  have hfalse : ∀ l, (s.links l).freed = false → l ∉ freedBy s a →
      ((exec s a).links l).freed = false := by
    intro l h1 h2
    by_contra hne
    rw [Bool.not_eq_false, hfreed, h1] at hne
    exact hne.elim (by simp) h2
  constructor
  · intro l hl
    have hle := hstep.linkCount_le.1.trans hl
    refine hfalse l (h.fresh l hle) fun hm => ?_
    obtain ⟨o, _, ho⟩ := freedBy_inTable hs hm
    exact absurd (hs.tables.owned ho).1 (not_lt.mpr hle)
  · intro l hl
    rcases (hstep.inTable_iff hs.tables l).mp hl with ⟨h1, h2, _⟩ | ⟨rfl, _⟩
    · exact hfalse l (h.stored l h1) h2
    · refine hfalse _ (h.fresh _ (le_refl _)) fun hm => ?_
      obtain ⟨o, _, ho⟩ := freedBy_inTable hs hm
      exact absurd (hs.tables.owned ho).1 (lt_irrefl _)
  · intro l
    rw [exec_freeLink, h.logged]
    by_cases hm : l ∈ freedBy s a
    · rw [h.stored l (freedBy_inTable hs hm), (hfreed l).mpr (.inr hm),
        List.count_eq_one_of_mem (freedBy_nodup hs.tables a) hm]
      rfl
    · rw [List.count_eq_zero.mpr hm, add_zero]
      cases hf : (s.links l).freed with
      | false => rw [hfalse l hf hm]
      | true => rw [(hfreed l).mpr (.inl hf)]

/-- `object_set` takes no record out of its table. -/
def KeepsRecords (s : State) : Action → Prop
  | .set o f r => ∀ l, (s.objects o).links.get f = some l → r = some (s.links l).target
  | _ => True

theorem KeepsRecords.lostBy {s : State} {a : Action} (h : KeepsRecords s a) : lostBy s a = [] := by
  cases a with
  | set o f r =>
    refine List.filter_eq_nil_iff.mpr fun l hl => ?_
    simpa using h l (by simpa using hl)
  | initStrong d => rfl
  | incStrong o => rfl
  | decStrong o => rfl
  | enter i c => rfl
  | iterate i c loop => rfl
  | delete i o => rfl

section
variable {s : State}

theorem Run.linkRecords (run : Run anyStep initial s) : LinkRecords s := by
  induction run with
  | start =>
    refine ⟨fun _ _ => rfl, fun l hl => ?_, fun _ => rfl⟩
    obtain ⟨o, ho, _⟩ := hl
    cases ho
  | step run he _ ih => exact ih.step run.anySound rfl he

theorem Run.noLeak (run : Run KeepsRecords initial s) :
    ∀ l < s.linkCount, (s.links l).freed = false → InTable s l := by
  induction run with
  | start =>
    intro l hl
    cases hl
  | step run he hok ih =>
    rename_i u a
    have hany : Run anyStep initial u := run.mono fun _ _ _ => trivial
    have hs := hany.anySound
    have hstep := exec_heapStep hs rfl he
    have hfreed := hstep.freed_iff (hany.linkRecords.fresh _ (le_refl _))
    intro l hl hf
    rw [hstep.inTable_iff hs.tables, hok.lostBy]
    by_cases hlt : l < u.linkCount
    · left
      have hf' : ¬ ((u.links l).freed = true ∨ l ∈ freedBy u a) := by
        rw [← hfreed, hf]
        simp
      rw [not_or, Bool.not_eq_true] at hf'
      exact ⟨ih l hlt hf'.1, hf'.2, by simp⟩
    · right
      have := hstep.linkCount_le
      omega

end

/-- Every link record is accounted for, in the runs that take none out of its table; and in
any run no record is freed twice. -/
theorem run_linkRecords {s : State} :
    (Run KeepsRecords initial s →
      ∀ l, (l < s.linkCount ∧ (s.links l).freed = false) ↔
        ∃ o, Live s o ∧ l ∈ (s.objects o).links.values) ∧
    (Run anyStep initial s → ∀ l, s.trace.count (.freeLink l) ≤ 1) := by
  refine ⟨fun run l => ?_, fun run l => ?_⟩
  · have hany : Run anyStep initial s := run.mono fun _ _ _ => trivial
    constructor
    · rintro ⟨hl, hf⟩
      obtain ⟨o, _, ho⟩ := run.noLeak l hl hf
      exact ⟨o, hany.anySound.live_of_entry ho, ho⟩
    · rintro ⟨o, ho, hl⟩
      exact ⟨(hany.anySound.tables.owned hl).1, hany.linkRecords.stored l ⟨o, ho.1, hl⟩⟩
  · rw [run.linkRecords.logged]
    split_ifs <;> omega

/-- Two objects, and a field that is set and then cleared. -/
def clearedField : State :=
  replay initial [.initStrong false, .initStrong false, .set 0 0 (some 1), .set 0 0 none]

theorem run_leaks : ¬ ∀ s, Run anyStep initial s →
    ∀ l, (l < s.linkCount ∧ (s.links l).freed = false) ↔
      ∃ o, Live s o ∧ l ∈ (s.objects o).links.values := by
  intro h
  have run : Run anyStep initial clearedField := Run.replay (fun _ _ _ => trivial) .start
    (show replayable (fun _ _ => true) initial
      [.initStrong false, .initStrong false, .set 0 0 (some 1), .set 0 0 none] = true by
        decide +kernel)
  obtain ⟨o, ⟨ho, _⟩, hl⟩ := (h clearedField run 0).mp (by constructor <;> decide +kernel)
  have hall : ∀ o < clearedField.objectCount, 0 ∉ (clearedField.objects o).links.values := by
    decide +kernel
  exact hall o ho hl

/-- A test for `KeepsRecords`. -/
def keepsRecordsTest (s : State) : Action → Bool
  | .set o f r => ((s.objects o).links.get f).all fun l => r = some (s.links l).target
  | _ => true

theorem keepsRecords_of_test (s : State) (a : Action) (h : keepsRecordsTest s a = true) :
    KeepsRecords s a := by
  cases a with
  | set o f r =>
    intro l hl
    simpa [keepsRecordsTest, hl] using h
  | initStrong d => trivial
  | incStrong o => trivial
  | decStrong o => trivial
  | enter i c => trivial
  | iterate i c loop => trivial
  | delete i o => trivial

theorem run_linkRecords_selfLink :
    (∃ o, Live selfLink o ∧ 0 ∈ (selfLink.objects o).links.values) ∧
      selfLink.trace.count (.freeLink 0) ≤ 1 := by
  have run : Run KeepsRecords initial selfLink := Run.replay keepsRecords_of_test .start
    (show replayable keepsRecordsTest initial
      [.initStrong false, .set 0 0 (some 0), .decStrong 0] = true by decide +kernel)
  exact ⟨(run_linkRecords.1 run 0).mp (by constructor <;> decide +kernel),
    run_linkRecords.2 run_selfLink 0⟩

end Acid

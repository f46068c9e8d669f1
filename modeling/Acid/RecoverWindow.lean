import Acid.PhantomizeWindow

set_option autoImplicit false

/-!
# `object_recover_node`, section by section

The keys of the table are collected under the lock and looked up after its release,
with one variable for the link. A field that is cleared meanwhile leaves the variable
as it was.
-/
namespace Acid

/-- The local variables `rebuild` and `lk` of the call, and the heap around it. -/
structure RecoverWindow where
  heap : State
  rebuild : List ℕ
  lk : Option ℕ

/-- The section up to the first release of the lock. -/
def recoverSection (s : State) (obj : ℕ) : RecoverWindow :=
  let s := recoverUpdate s obj
  if 0 < (s.objects obj).count (s.objects obj).which then
    let s := recoverStart s obj
    ⟨s, (s.objects obj).links.entries.map Prod.fst, none⟩
  else ⟨s.check ((s.objects obj).count (!(s.objects obj).which) = 0) (.assertFailed .recoverWeak),
    [], none⟩

/-- One section for each key, which looks it up and rebuilds the link, and whole `object_set`
calls on `obj`. -/
def recovering (obj collector : ℕ) : Sectioned RecoverWindow (ℕ × Option ℕ) where
  advance w := match w.rebuild with
    | [] => none
    | key :: keys =>
      let p := recoverKey obj collector (w.heap, w.lk) key
      some ⟨p.1, keys, p.2⟩
  mayCall _ _ := True
  call w e := { w with heap := objectSet w.heap obj e.1 e.2 }

/-- The last section. -/
def recoverCheck (obj : ℕ) (w : RecoverWindow) : State :=
  w.heap.check ((w.heap.objects obj).count2 = 0 → (w.heap.objects obj).collector = none)
    (.assertFailed .recoverCollector)

theorem recovering_rest (obj c : ℕ) (w : RecoverWindow) :
    ((recovering obj c).rest w.rebuild.length w).heap =
      (w.rebuild.foldl (recoverKey obj c) (w.heap, w.lk)).1 := by
  obtain ⟨s, keys, lk⟩ := w
  induction keys generalizing s lk with
  | nil => rfl
  | cons key keys ih =>
    exact ih (recoverKey obj c (s, lk) key).1 (recoverKey obj c (s, lk) key).2

/-- Without calls in between, the sections are the whole of `object_recover_node`. -/
theorem objectRecoverNode_sections (s : State) (obj c : ℕ) :
    objectRecoverNode s obj c = recoverCheck obj ((recovering obj c).rest
      (recoverSection s obj).rebuild.length (recoverSection s obj)) := by
  have hkeys : objectRecoverNode s obj c =
      let s := recoverUpdate s obj
      let s := if 0 < (s.objects obj).count (s.objects obj).which then
          ((((recoverStart s obj).objects obj).links.entries.map Prod.fst).foldl
            (recoverKey obj c) (recoverStart s obj, none)).1
        else s.check ((s.objects obj).count (!(s.objects obj).which) = 0)
          (.assertFailed .recoverWeak)
      s.check ((s.objects obj).count2 = 0 → (s.objects obj).collector = none)
        (.assertFailed .recoverCollector) := rfl
  unfold recoverCheck
  rw [recovering_rest, hkeys]
  unfold recoverSection
  dsimp only
  split_ifs
  · rfl
  · rfl

/-- What holds between two sections. -/
structure RecoverWindow.Intact (w : RecoverWindow) (obj : ℕ) : Prop where
  nodup : (w.heap.objects obj).links.values.Nodup
  created : ∀ l ∈ (w.heap.objects obj).links.values, l < w.heap.linkCount
  unflagged : (w.heap.objects obj).phantomized = false
  pending : ∀ f l, (w.heap.objects obj).links.get f = some l →
    (w.heap.links l).phantomized = true → f ∈ w.rebuild

theorem recoverSection_intact {s : State} {obj : ℕ} (h : Tables s)
    (hpos : 0 < (s.objects obj).count (s.objects obj).which) :
    (recoverSection s obj).Intact obj := by
  have hf := recoverUpdate_frame s obj
  have hcount := recoverUpdate_count s obj obj
  rw [← hcount, ← hf.which] at hpos
  have hlc := hf.linkCount
  have htable := hf.table obj
  unfold recoverSection
  dsimp only
  rw [if_pos hpos]
  generalize recoverUpdate s obj = s1 at *
  have hrecord := recoverStart_objects s1 obj obj
  rw [if_pos rfl] at hrecord
  have hstart : (recoverStart s1 obj).linkCount = s1.linkCount := by
    simp [recoverStart, State.modifyObject]
  refine ⟨?_, fun l hl => ?_, ?_, fun f l hget _ => ?_⟩
  · rw [hrecord, htable]
    exact h.nodup obj
  · rw [hrecord, htable] at hl
    exact (h.owned hl).1.trans_eq (hstart.trans hlc).symm
  · rw [hrecord]
  · exact List.mem_map.mpr ⟨(f, l), (HashTable.get_eq_some _ f l).mp hget, rfl⟩

namespace RecoverWindow.Intact
variable {w : RecoverWindow} {obj c : ℕ}

/-- A lookup takes its key off the list: the link behind it is rebuilt, if there is one. -/
theorem lookup {key : ℕ} {keys : List ℕ} (h : w.Intact obj) (hw : w.rebuild = key :: keys) :
    Intact ⟨(recoverKey obj c (w.heap, w.lk) key).1, keys,
      (recoverKey obj c (w.heap, w.lk) key).2⟩ obj := by
  have hleft : ∀ f l, (w.heap.objects obj).links.get f = some l →
      (w.heap.links l).phantomized = true → f ≠ key → f ∈ keys := by
    intro f l hget hp hne
    have hm := h.pending f l hget hp
    rw [hw] at hm
    exact (List.mem_cons.mp hm).resolve_left hne
  unfold recoverKey
  dsimp only
  cases hor : ((w.heap.objects obj).links.get key).or w.lk with
  | none =>
    have hnone : (w.heap.objects obj).links.get key = none := by
      cases hget : (w.heap.objects obj).links.get key with
      | none => rfl
      | some l => simp [hget] at hor
    refine ⟨h.nodup, h.created, h.unflagged, fun f l hget hp => hleft f l hget hp ?_⟩
    rintro rfl
    change (w.heap.objects obj).links.get f = some l at hget
    rw [hnone] at hget
    cases hget
  | some k =>
    have hf := objectRebuildLink_frame c w.heap k
    have hlinks := objectRebuildLink_links w.heap k
    refine ⟨?_, fun l hl => ?_, ?_, fun f l hget hp => ?_⟩
    · dsimp only
      rw [hf.table]
      exact h.nodup
    · dsimp only at hl ⊢
      rw [hf.table] at hl
      rw [hf.linkCount]
      exact h.created l hl
    · exact (hf.phantomized obj).trans h.unflagged
    · dsimp only at hget hp
      rw [hf.table] at hget
      rw [hlinks] at hp
      split_ifs at hp with hlk
      refine hleft f l hget hp ?_
      rintro rfl
      rw [hget, Option.some_or] at hor
      cases hor
      exact hlk ⟨rfl, hp⟩

theorem edit {e : ℕ × Option ℕ} (h : w.Intact obj) : Intact ((recovering obj c).call w e) obj := by
  obtain ⟨f, r⟩ := e
  change Intact { w with heap := objectSet w.heap obj f r } obj
  rcases objectSet_cases w.heap obj f r with ⟨rfl, hf, hlinks⟩ | ⟨heq, _⟩ |
    ⟨x, rfl, hf, _, hlinks⟩
  · have htable : ((objectSet w.heap obj f none).objects obj).links =
        (w.heap.objects obj).links.remove f := by
      rw [hf.table, State.modifyObject_objects_self]
    refine ⟨?_, fun l hl => ?_, ?_, fun g l hget hp => ?_⟩
    · dsimp only
      rw [htable]
      exact HashTable.values_remove_nodup h.nodup f
    · dsimp only at hl
      rw [htable] at hl
      exact (h.created l ((HashTable.mem_values_remove h.nodup f l).mp hl).1).trans_eq
        hf.linkCount.symm
    · exact (hf.phantomized obj).trans (by rw [State.modifyObject_objects_self]; exact h.unflagged)
    · dsimp only at hget hp
      rw [htable, HashTable.get_eq_some, HashTable.mem_remove] at hget
      rw [hlinks] at hp
      exact h.pending g l ((HashTable.get_eq_some _ g l).mpr hget.1) hp
  · rw [heq]
    exact h
  · have htable : ((objectSet w.heap obj f (some x)).objects obj).links =
        (w.heap.objects obj).links.add f w.heap.linkCount := by
      rw [hf.table, linkAdded_objects, if_pos rfl]
    have hcount : (objectSet w.heap obj f (some x)).linkCount = w.heap.linkCount + 1 :=
      hf.linkCount
    refine ⟨?_, fun l hl => ?_, ?_, fun g l hget hp => ?_⟩
    · dsimp only
      rw [htable]
      exact HashTable.values_add_nodup h.nodup f fun hm => Nat.lt_irrefl _ (h.created _ hm)
    · dsimp only at hl ⊢
      rw [htable] at hl
      rcases (HashTable.mem_values_add h.nodup f w.heap.linkCount l).mp hl with rfl | ⟨hl, _⟩
      · omega
      · have := h.created l hl
        omega
    · exact (hf.phantomized obj).trans (by rw [linkAdded_objects, if_pos rfl]; exact h.unflagged)
    · dsimp only at hget hp
      rw [htable, HashTable.get_eq_some, HashTable.mem_add] at hget
      rw [hlinks] at hp
      split_ifs at hp with hl
      · simp [newLink, h.unflagged] at hp
      · rcases hget with heq | ⟨hold, _⟩
        · exact absurd (Prod.ext_iff.mp heq).2 hl
        · exact h.pending g l ((HashTable.get_eq_some _ g l).mpr hold) hp

end RecoverWindow.Intact

/-- No call clears a field whose key has been collected and not been looked up yet. -/
def KeepsKeys (obj : ℕ) (w : RecoverWindow) : Option (ℕ × Option ℕ) → Prop
  | some (f, none) => f ∈ w.rebuild → (w.heap.objects obj).links.get f = none
  | _ => True

/-- The keys still to be looked up are in the table. -/
def RecoverWindow.Present (w : RecoverWindow) (obj : ℕ) : Prop :=
  ∀ key ∈ w.rebuild, (w.heap.objects obj).links.get key ≠ none

theorem recoverSection_present (s : State) (obj : ℕ) : (recoverSection s obj).Present obj := by
  unfold recoverSection RecoverWindow.Present
  dsimp only
  split_ifs
  · intro key hkey
    obtain ⟨e, he, rfl⟩ := List.mem_map.mp hkey
    rw [(HashTable.get_eq_some _ e.1 e.2).mpr he]
    exact Option.some_ne_none _
  · intro key hkey
    cases hkey

namespace RecoverWindow.Present
variable {w w' : RecoverWindow} {obj c : ℕ} (h : w.Present obj)
include h

/-- A section rebuilds the link that the table has under its key, and no other one. -/
theorem section_eq (left : (recovering obj c).advance w = some w') : ∃ key keys l,
    w.rebuild = key :: keys ∧ (w.heap.objects obj).links.get key = some l ∧
      w' = ⟨objectRebuildLink c w.heap l, keys, some l⟩ := by
  cases hkeys : w.rebuild with
  | nil => simp [recovering, hkeys] at left
  | cons key keys =>
    simp only [recovering, hkeys, Option.some.injEq] at left
    obtain ⟨l, hl⟩ := Option.ne_none_iff_exists'.mp (h key (hkeys ▸ List.mem_cons_self ..))
    refine ⟨key, keys, l, rfl, hl, ?_⟩
    rw [← left]
    simp [recoverKey, hl]

theorem advance (left : (recovering obj c).advance w = some w') : w'.Present obj := by
  obtain ⟨key, keys, l, hkeys, _, rfl⟩ := h.section_eq left
  intro k hk
  rw [(objectRebuildLink_frame c w.heap l).table]
  exact h k (hkeys ▸ List.mem_cons_of_mem _ hk)

theorem call {e : ℕ × Option ℕ} (hok : KeepsKeys obj w (some e)) :
    ((recovering obj c).call w e).Present obj := by
  obtain ⟨f, r⟩ := e
  intro key hkey
  change key ∈ w.rebuild at hkey
  obtain ⟨l, hl⟩ := Option.ne_none_iff_exists'.mp (h key hkey)
  change ((objectSet w.heap obj f r).objects obj).links.get key ≠ none
  rcases objectSet_cases w.heap obj f r with ⟨rfl, hf, _⟩ | ⟨heq, _⟩ | ⟨x, rfl, hf, _, _⟩
  · have hne : key ≠ f := by
      rintro rfl
      rw [hok hkey] at hl
      cases hl
    have hentry := (HashTable.mem_remove (w.heap.objects obj).links f (key, l)).mpr
      ⟨(HashTable.get_eq_some _ key l).mp hl, hne⟩
    rw [hf.table, State.modifyObject_objects_self, (HashTable.get_eq_some _ key l).mpr hentry]
    exact Option.some_ne_none _
  · rw [heq, hl]
    exact Option.some_ne_none _
  · rw [hf.table, linkAdded_objects, if_pos rfl]
    by_cases hne : key = f
    · have hentry := (HashTable.mem_add (w.heap.objects obj).links f w.heap.linkCount
        (key, w.heap.linkCount)).mpr (.inl (by rw [hne]))
      rw [(HashTable.get_eq_some _ key _).mpr hentry]
      exact Option.some_ne_none _
    · have hentry := (HashTable.mem_add (w.heap.objects obj).links f w.heap.linkCount
        (key, l)).mpr (.inr ⟨(HashTable.get_eq_some _ key l).mp hl, hne⟩)
      rw [(HashTable.get_eq_some _ key _).mpr hentry]
      exact Option.some_ne_none _

end RecoverWindow.Present

theorem recoverLink_rebuild {s : State} {c l : ℕ}
    (ht : Event.assertFailed .recoverLink ∉ s.trace) :
    Event.assertFailed .recoverLink ∉ (objectRebuildLink c s l).trace := by
  have hemits : Emits (fun e => e ≠ .assertFailed .recoverLink) s (objectRebuildLink c s l) := by
    apply objectRebuildLink_emits
    rintro e he rfl
    cases he
  exact hemits.absent (fun hne => hne rfl) ht

theorem recoverLink_set {s : State} {obj f : ℕ} {r : Option ℕ}
    (ht : Event.assertFailed .recoverLink ∉ s.trace) :
    Event.assertFailed .recoverLink ∉ (objectSet s obj f r).trace := by
  have hemits : Emits (fun e => e ≠ .assertFailed .recoverLink) s (objectSet s obj f r) := by
    apply objectSet_emits
    · rintro e he rfl
      cases he
    · rintro a ha ⟨⟩
      cases ha
  exact hemits.absent (fun hne => hne rfl) ht

theorem recoverLink_section {s : State} {obj : ℕ}
    (ht : Event.assertFailed .recoverLink ∉ s.trace) :
    Event.assertFailed .recoverLink ∉ (recoverSection s obj).heap.trace := by
  have hupdate : Emits (fun e => e ≠ .assertFailed .recoverLink) s (recoverUpdate s obj) := by
    unfold recoverUpdate
    split_ifs
    · apply objectUpdateCollector_emits
      rintro e he rfl
      cases he
    · exact .refl s
  have hsection : Emits (fun e => e ≠ .assertFailed .recoverLink) (recoverUpdate s obj)
      (recoverSection s obj).heap := by
    unfold recoverSection
    dsimp only
    split_ifs
    · exact ((Emits.check fun _ => by simp).trans (Emits.check fun _ => by simp)).trans
        (.of_trace rfl)
    · exact Emits.check fun _ => by simp
  exact (hupdate.trans hsection).absent (fun hne => hne rfl) ht

theorem get_objectSet_none (s : State) (obj f : ℕ) :
    ((objectSet s obj f none).objects obj).links.get f = none := by
  rcases objectSet_cases s obj f none with ⟨_, hf, _⟩ | ⟨_, _, _, hr⟩ | ⟨_, hr, _⟩
  · rw [hf.table, State.modifyObject_objects_self, HashTable.get_eq_none]
    intro v hv
    exact ((HashTable.mem_remove _ f _).mp hv).2 rfl
  · cases hr
  · cases hr

/-- A key that is no longer in the table is looked up in vain, unless a call adds it again. -/
theorem recovering_misses {obj c f : ℕ} {keys : List ℕ} : ∀ {w : RecoverWindow}, w.rebuild = keys →
    f ∈ keys → (w.heap.objects obj).links.get f = none → ∃ n rest,
      ((recovering obj c).rest n w).rebuild = f :: rest ∧
        (((recovering obj c).rest n w).heap.objects obj).links.get f = none := by
  induction keys with
  | nil =>
    intro w _ hf _
    cases hf
  | cons key keys ih =>
    intro w hw hf hnone
    by_cases hkey : f = key
    · exact ⟨0, keys, by rw [hkey]; exact hw, hnone⟩
    · have htable : ((recoverKey obj c (w.heap, w.lk) key).1.objects obj).links =
          (w.heap.objects obj).links := by
        unfold recoverKey
        split
        · exact (objectRebuildLink_frame c _ _).table obj
        · rfl
      have hleft : (recovering obj c).advance w = some ⟨(recoverKey obj c (w.heap, w.lk) key).1, keys,
          (recoverKey obj c (w.heap, w.lk) key).2⟩ := by
        simp [recovering, hw]
      obtain ⟨n, rest, hn⟩ := ih (w := ⟨(recoverKey obj c (w.heap, w.lk) key).1, keys,
        (recoverKey obj c (w.heap, w.lk) key).2⟩) rfl ((List.mem_cons.mp hf).resolve_left hkey)
        (by rw [htable]; exact hnone)
      refine ⟨n + 1, rest, ?_⟩
      unfold Sectioned.rest
      rw [hleft]
      exact hn

/-- Recovering `obj` tolerates edits of its fields that clear none whose lookup is still to come.
A call that clears such a field makes the lookup fail, if no other one sets the field again. The
links that remain are recovered in any case. -/
theorem recoverNode_window {s : State} {obj c : ℕ} (h : Tables s)
    (hpos : 0 < (s.objects obj).count (s.objects obj).which)
    (ht : Event.assertFailed .recoverLink ∉ s.trace) {w : RecoverWindow} :
    (Interleaving (recovering obj c) (KeepsKeys obj) (recoverSection s obj) w →
      Event.assertFailed .recoverLink ∉ (recoverCheck obj w).trace ∧
      ∀ w', (recovering obj c).advance w = some w' → ∃ key keys l, w.rebuild = key :: keys ∧
        (w.heap.objects obj).links.get key = some l ∧
          w' = ⟨objectRebuildLink c w.heap l, keys, some l⟩) ∧
    (∀ f ∈ w.rebuild, ∃ n keys,
      ((recovering obj c).rest n ((recovering obj c).call w (f, none))).rebuild = f :: keys ∧
        (((recovering obj c).rest n ((recovering obj c).call w (f, none))).heap.objects obj).links.get f =
          none) ∧
    (Interleaving (recovering obj c) (fun _ _ => True) (recoverSection s obj) w → w.rebuild = [] →
      ∀ l ∈ ((recoverCheck obj w).objects obj).links.values,
        ((recoverCheck obj w).links l).phantomized = false) := by
  refine ⟨?_, fun f hf => recovering_misses rfl hf (get_objectSet_none w.heap obj f), ?_⟩
  · intro run
    have hw : w.Present obj ∧ Event.assertFailed .recoverLink ∉ w.heap.trace := by
      apply run.invariant fun w => w.Present obj ∧ Event.assertFailed .recoverLink ∉ w.heap.trace
      · exact ⟨recoverSection_present s obj, recoverLink_section ht⟩
      · rintro u u' ⟨hu, htu⟩ hleft _
        refine ⟨hu.advance hleft, ?_⟩
        obtain ⟨_, _, l, _, _, rfl⟩ := hu.section_eq hleft
        exact recoverLink_rebuild htu
      · rintro u e ⟨hu, htu⟩ _ hok
        exact ⟨hu.call hok, recoverLink_set htu⟩
    obtain ⟨hw, htw⟩ := hw
    have hemits : Emits (fun e => e ≠ .assertFailed .recoverLink) w.heap (recoverCheck obj w) :=
      Emits.check fun _ => by simp
    exact ⟨hemits.absent (fun hne => hne rfl) htw, fun w' hleft => hw.section_eq hleft⟩
  · intro run hnil l hl
    have hw : w.Intact obj := by
      apply run.invariant fun w => w.Intact obj
      · exact recoverSection_intact h hpos
      · intro u u' hu hleft _
        cases hkeys : u.rebuild with
        | nil => simp [recovering, hkeys] at hleft
        | cons key keys =>
          simp only [recovering, hkeys, Option.some.injEq] at hleft
          rw [← hleft]
          exact hu.lookup hkeys
      · intro u e hu _ _
        exact hu.edit
    unfold recoverCheck at hl ⊢
    rw [State.check_objects] at hl
    rw [State.check_links]
    obtain ⟨f, hf⟩ := ((w.heap.objects obj).links.mem_values l).mp hl
    by_contra hp
    have hpending := hw.pending f l ((HashTable.get_eq_some _ f l).mpr hf) (by simpa using hp)
    rw [hnil] at hpending
    cases hpending

/-- The chain after object `0` is phantomized, and polled again to be recovered. -/
def phantomChain : State :=
  afterPoll (replay chain [.iterate 0 0 .collect, .iterate 0 0 .collect]) 0 .recovery 0

theorem tables_phantomChain : Tables phantomChain := by
  have hrun : Run anyStep initial (replay chain [.iterate 0 0 .collect, .iterate 0 0 .collect]) :=
    Run.replay (fun _ _ _ => trivial) run_chain
      (show replayable (fun _ _ => true) chain
        [.iterate 0 0 .collect, .iterate 0 0 .collect] = true by decide +kernel)
  exact hrun.anySound.tables.frame (afterPoll_frame _ _ _ _)

/-- The collector `0` has phantomized object `0`, which has two fields. -/
def forkCalls : List Action := [.initStrong false, .initStrong false, .initStrong false,
  .initStrong false, .set 0 0 (some 1), .set 0 1 (some 3), .set 2 0 (some 0), .decStrong 0, .enter 0 0,
  .iterate 0 0 .merged, .iterate 0 0 .collect, .iterate 0 0 .collect]

def fork : State := afterPoll (replay initial forkCalls) 0 .recovery 0

theorem tables_fork : Tables fork := by
  have hrun : Run anyStep initial (replay initial forkCalls) := Run.replay (fun _ _ _ => trivial) .start
    (show replayable (fun _ _ => true) initial forkCalls = true by decide +kernel)
  exact hrun.anySound.tables.frame (afterPoll_frame _ _ _ _)

/-- Between the two lookups the field of the first one is cleared. -/
def forkWindow : RecoverWindow :=
  (recovering 0 0).rest 1 ((recovering 0 0).call
    ((recovering 0 0).rest 1 (recoverSection fork 0)) (0, none))

theorem recoverNode_window_fork :
    Event.assertFailed .recoverLink ∉ (recoverCheck 0 forkWindow).trace ∧
    ∀ l ∈ ((recoverCheck 0 forkWindow).objects 0).links.values,
      ((recoverCheck 0 forkWindow).links l).phantomized = false := by
  have hpos : 0 < (fork.objects 0).count (fork.objects 0).which := by decide +kernel
  have hwindow := recoverNode_window (c := 0) (w := forkWindow) tables_fork hpos (by decide +kernel)
  have hkeeps : Interleaving (recovering 0 0) (KeepsKeys 0) (recoverSection fork 0) forkWindow := by
    apply Interleaving.rest fun _ => trivial
    apply Interleaving.call (Interleaving.rest (fun _ => trivial) .start 1) trivial
    have hlooked : 0 ∉ ((recovering 0 0).rest 1 (recoverSection fork 0)).rebuild := by decide +kernel
    exact fun hmem => absurd hmem hlooked
  have hany : Interleaving (recovering 0 0) (fun _ _ => True) (recoverSection fork 0) forkWindow := by
    apply Interleaving.rest fun _ => trivial
    exact Interleaving.call (Interleaving.rest (fun _ => trivial) .start 1) trivial trivial
  exact ⟨(hwindow.1 hkeeps).1, hwindow.2.2 hany (by decide +kernel)⟩

/-- The only field is cleared in the window, before its key is looked up. -/
theorem recoverNode_window_cleared : ¬ ∀ (s : State) (obj c : ℕ) (w : RecoverWindow), Tables s →
    0 < (s.objects obj).count (s.objects obj).which →
    (s.objects obj).phantomizationComplete = true → Event.assertFailed .recoverLink ∉ s.trace →
    Interleaving (recovering obj c) (fun _ _ => True) (recoverSection s obj) w →
    Event.assertFailed .recoverLink ∉ (recoverCheck obj w).trace := by
  intro hall
  have hrun : Interleaving (recovering 0 0) (fun _ _ => True) (recoverSection phantomChain 0)
      ((recovering 0 0).rest 1 ((recovering 0 0).call (recoverSection phantomChain 0) (0, none))) := by
    apply Interleaving.rest (fun _ => trivial)
    exact Interleaving.call .start trivial trivial
  have h := hall phantomChain 0 0 _ tables_phantomChain (by decide +kernel) (by decide +kernel)
    (by decide +kernel) hrun
  revert h
  decide +kernel

end Acid

import Acid.SoundLinks
import Acid.Listing

set_option autoImplicit false

/-!
# Phantomizing, recovering and cleaning objects keep a state sound
-/
namespace Acid
open PointerForest Tally

theorem LinkFrame.runTasks_le {s s' : State} (h : LinkFrame s s') (c : ℕ) :
    runTasks s c ≤ runTasks s' c := by
  obtain ⟨ts, hts⟩ := h.work
  rw [runTasks, runTasks, h.running, ← hts, List.count_append]
  omega

namespace Sound
variable {s : State} {L : Ledger}

theorem alive_of_runs (h : Sound s L) {c : ℕ} (hc : 0 < runTasks s c) : Alive s c := by
  by_contra hn
  have := h.tasks.dead hn
  omega

/-- The record of one object changes, but not what its counts stand for. -/
theorem modifyRecord {f : Object → Object} {x : ℕ} (h : Sound s L)
    (hown : ∀ l ∈ (f (s.objects x)).links.values, l < s.linkCount ∧ (s.links l).src = x)
    (hnodup : (f (s.objects x)).links.values.Nodup)
    (hdead : ¬ Live s x → (s.objects x).links.entries = [] →
      (f (s.objects x)).links.entries = [])
    (hfreed : (f (s.objects x)).freed = (s.objects x).freed)
    (hcount : (f (s.objects x)).count = (s.objects x).count)
    (hcount2 : (f (s.objects x)).count2 = (s.objects x).count2)
    (hcol : (f (s.objects x)).collector = (s.objects x).collector)
    (hside : ∀ b, sideRefs (s.modifyObject x f) x b = sideRefs s x b)
    (hset : x ∈ L.settled → Settled (s.modifyObject x f) L.strict x) :
    Sound (s.modifyObject x f) L := by
  have hne : ∀ y, y ≠ x → (s.modifyObject x f).objects y = s.objects y :=
    fun y hy => s.modifyObject_objects_ne f hy
  have hx : (s.modifyObject x f).objects x = f (s.objects x) := s.modifyObject_objects_self x f
  have hall : ∀ {α : Type} (p : Object → α), p (f (s.objects x)) = p (s.objects x) →
      ∀ y, p ((s.modifyObject x f).objects y) = p (s.objects y) := by
    intro α p hp y
    by_cases hy : y = x
    · rw [hy, hx, hp]
    · rw [hne y hy]
  have hlive : ∀ y, Live (s.modifyObject x f) y ↔ Live s y := by
    intro y
    rw [Live, Live, hall Object.freed hfreed y]
    rfl
  constructor
  · constructor
    · intro o l hl
      by_cases ho : o = x
      · subst o
        rw [hx] at hl
        exact hown l hl
      · rw [hne o ho] at hl
        exact h.tables.owned hl
    · intro o
      by_cases ho : o = x
      · rw [ho, hx]
        exact hnodup
      · rw [hne o ho]
        exact h.tables.nodup o
  · exact h.refs
  · exact h.collectors.congr rfl rfl rfl (hall Object.collector hcol)
      (fun y _ hy => (hlive y).mpr hy) fun _ hm => hm
  · refine h.balance.transfer rfl (fun _ _ => ⟨rfl, rfl, rfl⟩) ?_ ?_
    · intro y b
      have hs : sideRefs (s.modifyObject x f) y b = sideRefs s y b := by
        by_cases hy : y = x
        · rw [hy, hside]
        · unfold sideRefs
          rw [hne y hy]
          rfl
      rw [hall Object.count hcount y, hs]
    · intro y
      rw [hall Object.count2 hcount2 y]
      rfl
  · exact h.classes.congr rfl rfl (hall Object.collector hcol) fun _ _ => rfl
  · exact h.tasks.congr (fun _ => rfl) rfl fun _ => Iff.rfl
  · refine h.deletes.congr rfl (hall Object.freed hfreed) ?_ (fun _ => rfl)
      (fun y _ => ⟨hall Object.count hcount y, hall Object.count2 hcount2 y⟩) (fun _ _ => rfl)
      (fun _ => rfl) (le_refl _) rfl rfl
    intro y hy hc ht
    refine ⟨hc, ?_⟩
    by_cases hyx : y = x
    · rw [hyx] at hy ht ⊢
      rw [hx]
      exact hdead hy ht
    · rw [hne y hyx]
      exact ht
  · intro y hy
    by_cases hyx : y = x
    · exact hyx ▸ hset (hyx ▸ hy)
    · refine (h.settled y hy).congr (hlive y).mp ?_ ?_ ?_ ?_ ?_ id
      · rw [hne y hyx]
      · rw [hne y hyx]
      · rw [hne y hyx]
      · rw [hne y hyx]
      · intro _ hn
        rw [hne y hyx]
        exact .inl hn
  · exact h.moved

/-- Flags and the side of an object may change where no count depends on them. -/
theorem reflag {f : Object → Object} {x : ℕ} (h : Sound s L)
    (hlinks : (f (s.objects x)).links = (s.objects x).links)
    (hfreed : (f (s.objects x)).freed = (s.objects x).freed)
    (hcount : (f (s.objects x)).count = (s.objects x).count)
    (hcount2 : (f (s.objects x)).count2 = (s.objects x).count2)
    (hcol : (f (s.objects x)).collector = (s.objects x).collector)
    (hside : ∀ b, sideRefs (s.modifyObject x f) x b = sideRefs s x b)
    (hset : x ∈ L.settled → Settled (s.modifyObject x f) L.strict x) :
    Sound (s.modifyObject x f) L := by
  apply h.modifyRecord _ _ _ hfreed hcount hcount2 hcol hside hset
  · rw [hlinks]
    exact fun l hl => h.tables.owned hl
  · rw [hlinks]
    exact h.tables.nodup x
  · rw [hlinks]
    exact fun _ ht => ht

/-- A change of the table alone. -/
theorem retable {f : HashTable ℕ → HashTable ℕ} {x : ℕ} (h : Sound s L)
    (hown : ∀ l ∈ (f (s.objects x).links).values, l < s.linkCount ∧ (s.links l).src = x)
    (hnodup : (f (s.objects x).links).values.Nodup)
    (hdead : ¬ Live s x → (s.objects x).links.entries = [] →
      (f (s.objects x).links).entries = []) :
    Sound (s.modifyObject x fun o => { o with links := f o.links }) L := by
  refine h.modifyRecord hown hnodup hdead rfl rfl rfl rfl (fun b => ?_) fun hx => ?_
  · simp [sideRefs, State.modifyObject, occurrences]
  · have hobj := s.modifyObject_objects_self x fun o => { o with links := f o.links }
    apply (h.settled x hx).congr
    · intro hl
      refine ⟨hl.1, ?_⟩
      rw [← hl.2, hobj]
    · rw [hobj]
    · rw [hobj]
    · rw [hobj]
    · rw [hobj]
    · intro _ hc
      rw [hobj]
      exact .inl hc
    · exact id

theorem recomplete (h : Sound s L) {x : ℕ} {b : Bool} :
    Sound (s.modifyObject x fun o => { o with phantomizationComplete := b }) L := by
  refine h.reflag rfl rfl rfl rfl rfl (fun a => ?_) fun hx => ?_
  · simp [sideRefs, State.modifyObject, occurrences]
  · have hobj := s.modifyObject_objects_self x fun o => { o with phantomizationComplete := b }
    apply (h.settled x hx).congr
    · intro hl
      refine ⟨hl.1, ?_⟩
      rw [← hl.2, hobj]
    · rw [hobj]
    · rw [hobj]
    · rw [hobj]
    · rw [hobj]
    · intro _ hc
      rw [hobj]
      exact .inl hc
    · exact id

/-- An object with a collector may be kept, if its phantomized links stay in its class. -/
theorem keep (h : Sound s L) {x : ℕ} (hx : (s.objects x).collector ≠ none)
    (hl : ∀ l ∈ L.refs, (s.links l).phantomized = true → (s.links l).src ≠ x) :
    Sound s { L with kept := insert x L.kept } where
  tables := h.tables
  refs := h.refs
  collectors := h.collectors
  balance := h.balance.ledger _ _
  classes := by
    refine ⟨h.classes.listed, h.classes.held, ?_, ?_⟩
    · intro y hy
      rcases hy with rfl | hy
      · exact hx
      · exact h.classes.kept hy
    · intro l hlr hp hs
      rcases hs with hs | hs
      · exact absurd hs (hl l hlr hp)
      · exact h.classes.linked hlr hp hs
  tasks := h.tasks
  deletes := h.deletes
  settled := h.settled
  moved := h.moved

/-- The side of an object without references on it may be flipped. -/
theorem flipWhich (h : Sound s L) {x : ℕ} (hz : (s.objects x).count (s.objects x).which = 0)
    (hx : x ∉ L.settled) : Sound (s.modifyObject x fun o => { o with which := !o.which }) L := by
  have hside : ∀ b, sideRefs s x b = 0 := by
    intro b
    by_cases hb : b = (s.objects x).which
    · have h1 := h.balance.count x b
      have h2 : 0 ≤ strongRefs s L.refs x b := tally_nonneg _ _
      have h3 := sideRefs_nonneg s x b
      rw [hb] at h1 h2 h3 ⊢
      omega
    · rw [sideRefs, if_neg hb]
  have hclaims := hside (s.objects x).which
  rw [sideRefs, if_pos rfl] at hclaims
  refine h.reflag rfl rfl rfl rfl rfl (fun b => ?_) fun hs => absurd hs hx
  rw [hside b, sideRefs]
  split_ifs
  · exact hclaims
  · rfl

theorem phantomizeSnapshot {obj l : ℕ} (h : Sound s L) (hl : l ∈ L.refs)
    (hsrc : Live s (s.links l).src) : Sound (Acid.phantomizeSnapshot obj s l) L := by
  unfold Acid.phantomizeSnapshot
  dsimp only
  have h1 := h.check ((s.objects obj).phantomized = true) (e := .assertFailed .phantomizeObject) rfl
  have hf := check_frame s ((s.objects obj).phantomized = true) (.assertFailed .phantomizeObject)
  generalize s.check ((s.objects obj).phantomized = true) (.assertFailed .phantomizeObject) = s1
    at h1 hf ⊢
  split_ifs
  · exact h1
  · have h2 := (h1.check ((s1.objects (s1.links l).src).phantomized = true)
      (e := .assertFailed .phantomizeSource) rfl)
    have hf2 := hf.trans (check_frame s1 ((s1.objects (s1.links l).src).phantomized = true)
      (.assertFailed .phantomizeSource))
    generalize s1.check ((s1.objects (s1.links l).src).phantomized = true)
      (.assertFailed .phantomizeSource) = s2 at h2 hf2 ⊢
    have hf3 := hf2.trans (check_frame s2 ((s2.objects (s1.links l).src).collector ≠ none)
      (.assertFailed .phantomizeSourceCollector))
    apply (h2.check _ rfl).linkPhantomize hl
    rw [hf3.live_iff, hf3.links]
    exact hsrc

theorem foldl_phantomizeSnapshot (h : Sound s L) (obj : ℕ) (ls : List ℕ)
    (hls : ∀ l ∈ ls, l ∈ L.refs ∧ Live s (s.links l).src) :
    Sound (ls.foldl (Acid.phantomizeSnapshot obj) s) L := by
  induction ls generalizing s with
  | nil => exact h
  | cons l ls ih =>
    obtain ⟨hl, hsrc⟩ := hls l (List.mem_cons_self ..)
    have hf := phantomizeSnapshot_frame obj s l
    apply ih (h.phantomizeSnapshot hl hsrc)
    intro k hk
    obtain ⟨h1, h2⟩ := hls k (List.mem_cons_of_mem _ hk)
    rw [hf.live_iff, hf.src]
    exact ⟨h1, h2⟩

end Sound

/-- The flags that `object_phantomize_node` sets before it turns to the links, -/
def phantomizeStart (s : State) (obj : ℕ) : State :=
  ((s.modifyObject obj fun o => { o with phantomized := true }).check
    (((s.modifyObject obj fun o => { o with phantomized := true }).objects obj).collector ≠ none)
    (.assertFailed .phantomizeCollector)).modifyObject obj fun o =>
    { o with phantomizationComplete := false }

theorem phantomizeStart_objects (s : State) (obj x : ℕ) : (phantomizeStart s obj).objects x =
    if x = obj then { s.objects obj with phantomized := true, phantomizationComplete := false }
    else s.objects x := by
  by_cases hx : x = obj
  · subst x
    simp [phantomizeStart]
  · rw [phantomizeStart, State.modifyObject_objects_ne _ _ hx, State.check_objects,
      State.modifyObject_objects_ne _ _ hx, if_neg hx]

theorem phantomizeStart_table (s : State) (obj x : ℕ) :
    ((phantomizeStart s obj).objects x).links = (s.objects x).links := by
  rw [phantomizeStart_objects]
  split_ifs with hx
  · rw [hx]
  · rfl

theorem objectPhantomizeLinks_eq (s : State) (obj : ℕ) :
    objectPhantomizeLinks s obj =
      ((s.objects obj).links.values.foldl (phantomizeSnapshot obj)
        (phantomizeStart s obj)).modifyObject obj fun o =>
        { o with phantomizationComplete := true } := by
  rw [← phantomizeStart_table s obj obj]
  rfl

/-- and the choice of the side. -/
def phantomizeFlip (s : State) (obj : ℕ) : State :=
  if 0 < (s.objects obj).count (!(s.objects obj).which) then
    s.modifyObject obj fun o => { o with which := !o.which }
  else s

theorem objectPhantomizeNode_eq (s : State) (obj : ℕ) :
    objectPhantomizeNode s obj =
      let s := (objectUpdateCollector s obj).modifyObject obj fun o =>
        { o with count := Function.update o.count o.which (o.count o.which - 1) }
      let s := s.check (0 ≤ (s.objects obj).count (s.objects obj).which)
        (.assertFailed .phantomizeCount)
      if 0 < (s.objects obj).count (s.objects obj).which then s
      else
        let s := phantomizeFlip s obj
        if (s.objects obj).phantomized then s else objectPhantomizeLinks s obj := rfl

theorem phantomizeFlip_links (s : State) (obj : ℕ) : (phantomizeFlip s obj).links = s.links := by
  unfold phantomizeFlip
  split_ifs <;> rfl

/-- A record whose side alone may differ. -/
theorem phantomizeFlip_spec (s : State) (obj : ℕ) :
    (∀ x, x ≠ obj → (phantomizeFlip s obj).objects x = s.objects x) ∧
    (∃ b, (phantomizeFlip s obj).objects obj = { s.objects obj with which := b }) ∧
    (0 ≤ (s.objects obj).count (!(s.objects obj).which) →
      ((phantomizeFlip s obj).objects obj).count ((phantomizeFlip s obj).objects obj).which = 0 →
      ((phantomizeFlip s obj).objects obj).count
        (!((phantomizeFlip s obj).objects obj).which) = 0) := by
  unfold phantomizeFlip
  split_ifs with hpos
  · refine ⟨fun x hx => s.modifyObject_objects_ne _ hx, ⟨_, s.modifyObject_objects_self obj _⟩, ?_⟩
    intro _ hz
    rw [s.modifyObject_objects_self] at hz
    dsimp only at hz
    omega
  · refine ⟨fun _ _ => rfl, ⟨_, rfl⟩, fun hn _ => ?_⟩
    omega

/-- The target of a link that is rebuilt. -/
theorem rebuildCount_target (s : State) (l : ℕ) :
    (rebuildCount s l).objects (s.links l).target =
      { s.objects (s.links l).target with
        count := Function.update (s.objects (s.links l).target).count (rebuildWhich s l)
          ((s.objects (s.links l).target).count (rebuildWhich s l) + 1)
        count2 := (s.objects (s.links l).target).count2 - 1 } := by
  unfold rebuildCount
  dsimp only
  rw [State.modifyObject_objects_self, State.modifyObject_objects_self]
  rfl

theorem rebuildCount_links (s : State) (l : ℕ) :
    (rebuildCount s l).links l = { s.links l with which := rebuildWhich s l } := by
  simp [rebuildCount, State.modifyObject, State.modifyLink]

/-- The parts of `object_recover_node`: the collector pointer -/
def recoverUpdate (s : State) (obj : ℕ) : State :=
  if (s.objects obj).collector ≠ none then objectUpdateCollector s obj else s

/-- and the flag. -/
def recoverStart (s : State) (obj : ℕ) : State :=
  ((s.check (¬ ((s.objects obj).phantomized = true ∧ (s.objects obj).phantomizationComplete = false))
      (.assertFailed .recoverWait)).check ((s.objects obj).phantomizationComplete = true)
      (.assertFailed .recoverComplete)).modifyObject obj fun o => { o with phantomized := false }

theorem recoverStart_objects (s : State) (obj x : ℕ) : (recoverStart s obj).objects x =
    if x = obj then { s.objects obj with phantomized := false } else s.objects x := by
  rw [recoverStart, State.modifyObject_objects, State.check_objects, State.check_objects]

theorem objectRecoverNode_eq (s : State) (obj c : ℕ) :
    objectRecoverNode s obj c =
      let s := recoverUpdate s obj
      let s := if 0 < (s.objects obj).count (s.objects obj).which then
          (s.objects obj).links.values.foldl (objectRebuildLink c) (recoverStart s obj)
        else s.check ((s.objects obj).count (!(s.objects obj).which) = 0)
          (.assertFailed .recoverWeak)
      s.check ((s.objects obj).count2 = 0 → (s.objects obj).collector = none)
        (.assertFailed .recoverCollector) := by
  have hfold : ∀ u : State, ((((recoverStart u obj).objects obj).links.entries.map
      Prod.fst).foldl (recoverKey obj c) (recoverStart u obj, none)).1 =
      (u.objects obj).links.values.foldl (objectRebuildLink c) (recoverStart u obj) := by
    intro u
    rw [foldl_recoverKey c _ _ none fun _ he => he, recoverStart_objects, if_pos rfl]
    rfl
  dsimp only
  rw [← hfold]
  rfl

theorem recoverUpdate_safelist (s : State) (obj : ℕ) (r : ListRef) :
    (recoverUpdate s obj).safelist r = s.safelist r := by
  unfold recoverUpdate objectUpdateCollector
  split_ifs
  · split
    · exact objectSetCollector_safelist s obj _ r
    · rfl
  · rfl

theorem recoverUpdate_count (s : State) (obj x : ℕ) :
    ((recoverUpdate s obj).objects x).count = (s.objects x).count := by
  unfold recoverUpdate objectUpdateCollector
  split_ifs
  · split
    · exact (objectSetCollector_count s obj _ x).1
    · rfl
  · rfl

theorem recoverUpdate_frame (s : State) (obj : ℕ) : Frame s (recoverUpdate s obj) := by
  unfold recoverUpdate
  split_ifs
  · exact objectUpdateCollector_frame s obj
  · exact .refl s

namespace Sound
variable {s : State} {L : Ledger}

/-- The object is kept from here on if it was not phantomized, as its links then were not. -/
theorem phantomizeLinks {obj : ℕ} {K : Set ℕ} (h : Sound s { L with settled := L.settled \ {obj} })
    (hlive : Live s obj) (hcol : (s.objects obj).collector ≠ none)
    (hzero : (s.objects obj).count (s.objects obj).which = 0 →
      (s.objects obj).count (!(s.objects obj).which) = 0)
    (hcount2 : 0 < (s.objects obj).count2)
    (hrefs : ∀ l ∈ (s.objects obj).links.values, l ∈ L.refs)
    (hflags : obj ∈ K → ∀ l ∈ L.refs, (s.links l).phantomized = true → (s.links l).src ≠ obj)
    (hK : K ⊆ insert obj L.kept) : Sound (objectPhantomizeLinks s obj) { L with kept := K } := by
  have h1 : Sound (s.modifyObject obj fun o => { o with phantomized := true })
      { L with settled := L.settled \ {obj} } := by
    refine h.reflag rfl rfl rfl rfl rfl (fun b => ?_) fun hx => absurd rfl hx.2
    simp [sideRefs, State.modifyObject, occurrences]
  have hobj := s.modifyObject_objects_self obj fun o => { o with phantomized := true }
  have h2 : Sound (s.modifyObject obj fun o => { o with phantomized := true }) L := by
    refine h1.settle (S := L.settled) fun y hy => ?_
    by_cases hyo : y = obj
    · subst y
      right
      intro _ hz
      rw [hobj] at hz ⊢
      exact ⟨.inr rfl, fun _ => ⟨hzero hz, .inr ⟨hcount2, hcol⟩⟩⟩
    · exact .inl ⟨hy, hyo⟩
  obtain ⟨M, hKM, hM⟩ : ∃ M, K ⊆ M ∧
      Sound (s.modifyObject obj fun o => { o with phantomized := true }) { L with kept := M } := by
    by_cases hk : obj ∈ K
    · refine ⟨_, hK, h2.keep ?_ (hflags hk)⟩
      rw [hobj]
      exact hcol
    · refine ⟨L.kept, fun x hx => ?_, h2⟩
      refine (hK hx).resolve_left ?_
      rintro rfl
      exact hk hx
  have h3 : Sound (phantomizeStart s obj) { L with kept := M } :=
    (hM.check _ rfl).recomplete (x := obj) (b := false)
  have h4 := h3.foldl_phantomizeSnapshot obj (s.objects obj).links.values ?_
  · rw [objectPhantomizeLinks_eq]
    exact (h4.recomplete (b := true)).weaken hKM (fun _ hx => hx)
  · intro l hl
    have hlinks : (phantomizeStart s obj).links = s.links := by
      simp [phantomizeStart, State.modifyObject]
    have hcount : (phantomizeStart s obj).objectCount = s.objectCount := by
      simp [phantomizeStart, State.modifyObject]
    rw [hlinks, (h.tables.owned hl).2]
    refine ⟨hrefs l hl, hlive.1.trans_eq hcount.symm, ?_⟩
    · rw [phantomizeStart_objects, if_pos rfl]
      exact hlive.2

/-- A side without references gives way to the other one, if this has any. -/
theorem phantomizeFlip (h : Sound s L) (obj : ℕ) (hx : obj ∉ L.settled)
    (hz : (s.objects obj).count (s.objects obj).which = 0) :
    Sound (Acid.phantomizeFlip s obj) L := by
  unfold Acid.phantomizeFlip
  split_ifs
  · exact h.flipWhich hz hx
  · exact h

/-- The collector takes back the strong reference of its list, and phantomizes the object
where this was the last one. -/
theorem phantomizeNode {obj c : ℕ} {K : Set ℕ}
    (h : Sound s { L with
      strong := (obj, (s.objects obj).which) :: L.strong
      curated := (obj, c) :: L.curated })
    (hrefs : ∀ l ∈ (s.objects obj).links.values, l ∈ L.refs)
    (hflags : obj ∈ K → (s.objects obj).phantomized = false →
      ∀ l ∈ L.refs, (s.links l).phantomized = true → (s.links l).src ≠ obj)
    (hK : ∀ x ∈ K, x ∈ L.kept ∨ (x = obj ∧ (s.objects obj).phantomized = false ∧
      ((objectPhantomizeNode s obj).objects obj).phantomized = true)) :
    Sound (objectPhantomizeNode s obj)
      { L with curated := (obj, c) :: L.curated, kept := K } := by
  have h1 := h.updateCollector (x := obj)
  have hf1 := objectUpdateCollector_frame s obj
  rw [objectPhantomizeNode_eq] at hK ⊢
  generalize objectUpdateCollector s obj = s1 at h1 hf1 hK ⊢
  rw [← hf1.which] at h1
  have h2 := Sound.takeStrong (L := { L with curated := (obj, c) :: L.curated }) h1
  have hf2 := hf1.trans (modifyObject_frame s1 obj (f := fun o =>
    { o with count := Function.update o.count o.which (o.count o.which - 1) }) rfl)
  generalize hs2 : s1.modifyObject obj (fun o =>
    { o with count := Function.update o.count o.which (o.count o.which - 1) }) = s2 at hf2 hK ⊢
  replace h2 : Sound s2 { L with
      curated := (obj, c) :: L.curated, settled := L.settled \ {obj} } := hs2 ▸ h2
  have hsettle : ∀ {u : State}, Sound u { L with
      curated := (obj, c) :: L.curated, settled := L.settled \ {obj} } →
      Settled u L.strict obj → Sound u { L with curated := (obj, c) :: L.curated } := by
    intro u hu hx
    refine hu.settle (S := L.settled) fun y hy => ?_
    by_cases hyo : y = obj
    · exact .inr (hyo ▸ hx)
    · exact .inl ⟨hy, hyo⟩
  have hnn := h2.balance.count_nonneg obj
  dsimp only at hK ⊢
  rw [State.check_pos _ (hnn _)] at hK ⊢
  by_cases hpos : 0 < (s2.objects obj).count (s2.objects obj).which
  · rw [if_pos hpos] at hK ⊢
    have hs := hsettle h2 fun _ hz => by omega
    refine hs.weaken (fun y hy => ?_) fun _ hy => hy
    rcases hK y hy with hy | ⟨_, hn, hy⟩
    · exact hy
    · rw [hf2.phantomized, hn] at hy
      cases hy
  · rw [if_neg hpos] at hK ⊢
    have hn := hnn (s2.objects obj).which
    have h3 := h2.phantomizeFlip obj (fun hx => hx.2 rfl) (by omega)
    have ⟨_, hrec, hzero⟩ := phantomizeFlip_spec s2 obj
    replace hzero := hzero (hnn _)
    have hlinks3 : (Acid.phantomizeFlip s2 obj).links = s.links := by
      rw [phantomizeFlip_links, hf2.links]
    have hlive3 : Live (Acid.phantomizeFlip s2 obj) obj := by
      apply h3.live_of_curated
      exact List.mem_cons_self ..
    generalize Acid.phantomizeFlip s2 obj = s3 at h3 hrec hzero hlinks3 hlive3 hK ⊢
    obtain ⟨b, hrec⟩ := hrec
    have hph : (s3.objects obj).phantomized = (s.objects obj).phantomized := by
      rw [hrec, ← hf2.phantomized]
    have htable : (s3.objects obj).links = (s.objects obj).links := by
      rw [hrec, ← hf2.table]
    have hcol : (s3.objects obj).collector ≠ none :=
      (h3.classes.held (List.mem_cons_self ..)).1.ne_none
    have hcount2 := h3.balance.count2_pos_of_curated (List.mem_cons_self ..)
    by_cases hp : (s3.objects obj).phantomized = true
    · rw [if_pos hp] at hK ⊢
      have hs := hsettle h3 fun _ hz => ⟨.inr hp, fun _ => ⟨hzero hz, .inr ⟨hcount2, hcol⟩⟩⟩
      refine hs.weaken (fun y hy => ?_) fun _ hy => hy
      rcases hK y hy with hy | ⟨_, hn, _⟩
      · exact hy
      · rw [hph, hn] at hp
        cases hp
    · rw [if_neg hp] at hK ⊢
      apply Sound.phantomizeLinks (L := { L with curated := (obj, c) :: L.curated }) h3 hlive3 hcol
        hzero hcount2
      · rw [htable]
        exact hrefs
      · rw [hlinks3]
        intro hk
        apply hflags hk
        rwa [hph, Bool.not_eq_true] at hp
      · intro y hy
        rcases hK y hy with hy | ⟨rfl, _, _⟩
        · exact .inr hy
        · exact .inl rfl

/-- The two counts move together, from the phantom side to the new label. -/
theorem rebuildCount {l : ℕ} (h : Sound s L) (hl : l ∈ L.refs)
    (hp : (s.links l).phantomized = true) :
    Sound (Acid.rebuildCount s l) { L with
      refs := L.refs.erase l
      strong := ((s.links l).target, rebuildWhich s l) :: L.strong
      settled := L.settled \ {(s.links l).target} } := by
  obtain ⟨hlive, hnd⟩ := h.live_of_link hl
  have h1 := (h.weaken (le_refl L.kept) (Set.sdiff_subset (t := {(s.links l).target}))).release hl
  rw [Ledger.inHand, if_pos hp, if_pos hp] at h1
  have h2 := h1.modifyLink (f := fun lk => { lk with which := rebuildWhich s l })
    (Finset.notMem_erase l L.refs) rfl
  have h3 := h2.giveStrong (x := (s.links l).target) (b := rebuildWhich s l) hlive hnd
    fun _ hx => absurd rfl hx.2
  have h4 := Sound.takePhantom (x := (s.links l).target) (L := { L with
    refs := L.refs.erase l
    strong := ((s.links l).target, rebuildWhich s l) :: L.strong
    settled := L.settled \ {(s.links l).target} }) h3
  exact h4.weaken (le_refl L.kept) fun x hx => ⟨hx, hx.2⟩

theorem rebuildQueue {c x : ℕ} (h : Sound s L) (hc : Alive s c) (hb : L.before = none) :
    Sound (Acid.rebuildQueue c s x) L := by
  unfold Acid.rebuildQueue
  split_ifs
  · apply Sound.add (n := .rebuild) (w := false) _ hc
    · intro hn
      cases hn
    · exact fun _ => hb
    · exact h
  · exact h

/-- A link is rebuilt. Its target must not lose its collector with the phantom reference if
it is kept, and a link to its own source must find a strong reference on a strict ledger. -/
theorem rebuildLink {c l : ℕ} (h : Sound s L) (hl : l ∈ L.refs) (hc : 0 < runTasks s c)
    (hkept : (s.links l).phantomized = true → (s.links l).target ∈ L.kept →
      (s.objects (s.links l).target).count2 ≠ 1)
    (hself : L.strict → (s.links l).target = (s.links l).src →
      (s.objects (s.links l).target).count (s.objects (s.links l).target).which ≠ 0)
    (hb : L.before = none) : Sound (objectRebuildLink c s l) L := by
  rw [objectRebuildLink_eq]
  dsimp only
  split_ifs with hp
  · obtain ⟨hlive, hnd⟩ := h.live_of_link hl
    have h1 := h.rebuildCount hl hp
    have hx := rebuildCount_target s l
    have hf1 := rebuildCount_frame s l
    have hl1 := rebuildCount_links s l
    have hrest := h.settled (s.links l).target
    have hw : L.strict → (s.links l).target ∈ L.settled →
        (s.objects (s.links l).target).count (s.objects (s.links l).target).which = 0 →
        rebuildWhich s l = (s.objects (s.links l).target).which := by
      intro hk hs hz
      unfold rebuildWhich
      dsimp only
      split_ifs with ht hph
      · exact absurd hz (hself hk ht)
      · rfl
      · have hph' := ((hrest hs hlive hz).1.resolve_left fun hm => hnd (.inl hm))
        exact absurd (.inl hph') hph
    generalize hxe : (s.links l).target = x at *
    have hn : 0 ≤ (s.objects x).count (s.objects x).which := h.balance.count_nonneg x _
    generalize rebuildWhich s l = w at *
    generalize Acid.rebuildCount s l = s1 at *
    have h2 : Sound (Acid.rebuildCollector s1 x) { L with
        refs := L.refs.erase l, strong := (x, w) :: L.strong, settled := L.settled \ {x} } := by
      unfold Acid.rebuildCollector
      split_ifs with hz
      · refine h1.setCollector (fun hn => absurd rfl hn) (fun d hd => by cases hd)
          (fun d _ => .inr ⟨rfl, hz⟩) (fun _ hk => ?_) fun _ _ hx => absurd rfl hx.2
        rw [hx] at hz
        dsimp only at hz
        have := hkept hp hk
        omega
      · exact h1
    have hf2 := hf1.trans (rebuildCollector_frame s1 x).link
    have hcount2 : ((Acid.rebuildCollector s1 x).objects x).count = (s1.objects x).count := by
      unfold Acid.rebuildCollector
      split_ifs
      · rw [(objectSetCollector_count s1 x none x).1]
      · rfl
    have hl2 : (Acid.rebuildCollector s1 x).links l = s1.links l := by
      rw [(rebuildCollector_frame s1 x).links]
    generalize Acid.rebuildCollector s1 x = s2 at *
    have h3 := h2.modifyLink (f := fun lk => { lk with phantomized := false })
      (Finset.notMem_erase l L.refs) rfl
    have hf3 := hf2.trans (modifyLink_frame s2 l (f := fun lk =>
      { lk with phantomized := false }) rfl rfl)
    have hl3 : (s2.modifyLink l fun lk => { lk with phantomized := false }).links l =
        { s.links l with which := w, phantomized := false } := by
      rw [State.modifyLink_links, if_pos rfl, hl2, hl1]
    have hx3 : ((s2.modifyLink l fun lk => { lk with phantomized := false }).objects x).count =
        (s1.objects x).count := hcount2
    generalize s2.modifyLink l (fun lk => { lk with phantomized := false }) = s3 at *
    have h4 : Sound s3 { L with settled := L.settled \ {x} } := by
      have hheld := Sound.hold (s := s3) (l := l) (L := { L with
        refs := L.refs.erase l, settled := L.settled \ {x} })
      rw [hl3, Ledger.inHand] at hheld
      dsimp only at hheld
      rw [Finset.insert_erase hl, hxe] at hheld
      apply hheld h3 (Finset.notMem_erase l L.refs)
      · exact (h.refs l hl).trans_eq hf3.linkCount.symm
      · intro hn
        cases hn
    have h5 : Sound s3 L := by
      refine h4.settle (S := L.settled) fun y hy => ?_
      by_cases hyx : y = x
      · subst y
        right
        intro _ hz
        rw [hx3, hf3.which, hx] at hz
        dsimp only at hz
        by_cases hside : w = (s.objects x).which
        · rw [hside, Function.update_self] at hz
          omega
        · rw [Function.update_of_ne (Ne.symm hside)] at hz
          have hph := (hrest hy hlive hz).1.resolve_left fun hm => hnd (.inl hm)
          rw [hf3.phantomized]
          exact ⟨.inr hph, fun hk => absurd (hw hk hy hz) hside⟩
      · exact .inl ⟨hy, hyx⟩
    rw [State.check_pos _ (h5.balance.count2_nonneg x)]
    exact h5.rebuildQueue (h5.alive_of_runs (hc.trans_le (hf3.runTasks_le c))) hb
  · exact h

theorem count2_of_listed (h : Sound s L) {l : ℕ} (hl : l ∈ L.refs)
    (hp : (s.links l).phantomized = true) (hx : Listed s (s.links l).target) :
    2 ≤ (s.objects (s.links l).target).count2 := by
  obtain ⟨r, hr, hm⟩ := hx
  have h1 := curation_pos (h.collectors.root_of_mem hm).2.1 hr hm
  have h2 := phantomRefs_pos hl hp
  rw [h.balance.count2]
  omega

theorem foldl_rebuildLink {c : ℕ} {ls : List ℕ} (h : Sound s L) (hls : ∀ l ∈ ls, l ∈ L.refs)
    (hc : 0 < runTasks s c)
    (hkept : ∀ l ∈ ls, (s.links l).target ∈ L.kept → Listed s (s.links l).target)
    (hself : L.strict → ∀ l ∈ ls, (s.links l).target = (s.links l).src →
      (s.objects (s.links l).target).count (s.objects (s.links l).target).which ≠ 0)
    (hb : L.before = none) : Sound (ls.foldl (objectRebuildLink c) s) L := by
  induction ls generalizing s with
  | nil => exact h
  | cons l ls ih =>
    have hl := hls l (List.mem_cons_self ..)
    have hf := objectRebuildLink_frame c s l
    have hstep : Sound (objectRebuildLink c s l) L := by
      apply h.rebuildLink hl hc
      · intro hp hk
        have := h.count2_of_listed hl hp (hkept l (List.mem_cons_self ..) hk)
        omega
      · exact fun hs => hself hs l (List.mem_cons_self ..)
      · exact hb
    apply ih hstep
    · exact fun k hk => hls k (List.mem_cons_of_mem _ hk)
    · exact hc.trans_le (hf.runTasks_le c)
    · intro k hk ht
      rw [hf.target] at ht ⊢
      exact objectRebuildLink_listed c s l (hkept k (List.mem_cons_of_mem _ hk) ht)
    · intro hs k hk ht
      rw [hf.target, hf.src] at ht
      rw [hf.target, hf.which]
      have h1 := hself hs k (List.mem_cons_of_mem _ hk) ht
      have h2 := h.balance.count_nonneg (s.links k).target
        (s.objects (s.links k).target).which
      have h3 := objectRebuildLink_count c s l (s.links k).target
        (s.objects (s.links k).target).which
      omega

theorem recoverStart {obj : ℕ} (h : Sound s L)
    (hpos : 0 < (s.objects obj).count (s.objects obj).which) :
    Sound (Acid.recoverStart s obj) { L with kept := L.kept \ {obj} } := by
  have hw := h.weaken (Set.sdiff_subset (t := {obj})) (le_refl L.settled)
  refine ((hw.check _ rfl).check _ rfl).reflag rfl rfl rfl rfl rfl (fun b => ?_) fun _ _ hz => ?_
  · simp [sideRefs, State.modifyObject, occurrences]
  · simp [State.modifyObject] at hz
    omega

/-- An object with a strong reference is recovered, and is not kept any longer. -/
theorem recoverNode {obj c : ℕ} {K : Set ℕ} (h : Sound s L)
    (hrefs : ∀ l ∈ (s.objects obj).links.values, l ∈ L.refs) (hc : 0 < runTasks s c)
    (hkept : 0 < (s.objects obj).count (s.objects obj).which →
      ∀ l ∈ (s.objects obj).links.values, (s.links l).target ∈ L.kept →
        (s.links l).target ≠ obj → Listed s (s.links l).target)
    (hK : ∀ x ∈ K, x ∈ L.kept ∧
      (x = obj → ((objectRecoverNode s obj c).objects obj).phantomized = true))
    (hb : L.before = none) : Sound (objectRecoverNode s obj c) { L with kept := K } := by
  have hf1 := recoverUpdate_frame s obj
  have hlist1 := recoverUpdate_safelist s obj
  have hcount1 := recoverUpdate_count s obj obj
  have h1 : Sound (recoverUpdate s obj) L := by
    unfold recoverUpdate
    split_ifs
    · exact h.updateCollector
    · exact h
  rw [objectRecoverNode_eq] at hK ⊢
  dsimp only at hK ⊢
  generalize recoverUpdate s obj = s1 at *
  by_cases hpos : 0 < (s1.objects obj).count (s1.objects obj).which
  · rw [if_pos hpos] at hK ⊢
    have h2 := h1.recoverStart hpos
    have hs2 := recoverStart_objects s1 obj
    have hlinks2 : (Acid.recoverStart s1 obj).links = s1.links := by
      simp [Acid.recoverStart, State.modifyObject]
    have hruns2 : runTasks (Acid.recoverStart s1 obj) c = runTasks s1 c := by
      simp [Acid.recoverStart, State.modifyObject, runTasks]
    have hlist2 : ∀ r, (Acid.recoverStart s1 obj).safelist r = s1.safelist r := by
      intro r
      simp [Acid.recoverStart, State.modifyObject, State.safelist]
    generalize Acid.recoverStart s1 obj = s2 at *
    have h3 : Sound ((s1.objects obj).links.values.foldl (objectRebuildLink c) s2)
        { L with kept := L.kept \ {obj} } := by
      apply h2.foldl_rebuildLink
      · rw [hf1.table]
        exact hrefs
      · rw [hruns2]
        exact hc.trans_le (hf1.link.runTasks_le c)
      · intro l hl hk
        rw [hf1.table] at hl
        rw [hlinks2, hf1.links] at hk ⊢
        rw [hcount1, hf1.which] at hpos
        obtain ⟨r, hr, hm⟩ := hkept hpos l hl hk.1 hk.2
        exact ⟨r, hr, by rwa [hlist2, hlist1]⟩
      · intro _ l hl ht
        rw [hlinks2, hf1.links] at ht ⊢
        rw [hf1.table] at hl
        rw [ht, (h.tables.owned hl).2, hs2, if_pos rfl]
        exact hpos.ne'
      · exact hb
    refine (h3.check _ rfl).weaken (fun x hx => ?_) fun _ hx => hx
    obtain ⟨hxk, hxp⟩ := hK x hx
    refine ⟨hxk, fun hxo => ?_⟩
    have hp := hxp hxo
    have hf := foldl_linkFrame (objectRebuildLink_frame c) (s1.objects obj).links.values s2
    rw [State.check_objects, hf.phantomized, hs2, if_pos rfl] at hp
    cases hp
  · rw [if_neg hpos]
    exact ((h1.check _ rfl).check _ rfl).weaken (fun x hx => (hK x hx).1) fun _ hx => hx

end Sound
end Acid

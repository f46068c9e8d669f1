import Acid.SoundObjects

set_option autoImplicit false

/-!
# Cleaning and deleting objects keep a state sound
-/
namespace Acid
open PointerForest Tally

theorem objectDecPhantom_count (s : State) (x y : ℕ) :
    ((objectDecPhantom s x).objects y).count = (s.objects y).count := by
  have hmod : ∀ (p : Prop) [Decidable p] (e : Event),
      (((s.modifyObject x fun o => { o with count2 := o.count2 - 1 }).check p e).objects y).count =
        (s.objects y).count := by
    intro p _ e
    rw [State.check_objects, State.modifyObject_objects]
    split_ifs with hy
    · rw [hy]
    · rfl
  unfold objectDecPhantom
  dsimp only
  split_ifs
  · exact hmod _ _
  · rw [(objectSetCollector_count _ x none y).1]
    exact hmod _ _
  · exact hmod _ _

theorem objectDec_count (s : State) (x : ℕ) (w : Bool) {y : ℕ} (hy : y ≠ x) :
    ((objectDec s x w).objects y).count = (s.objects y).count := by
  have hmod : ∀ (p : Prop) [Decidable p] (e : Event),
      (((s.modifyObject x fun o =>
        { o with count := Function.update o.count w (o.count w - 1) }).check p e).objects y).count =
        (s.objects y).count := by
    intro p _ e
    rw [State.check_objects, State.modifyObject_objects_ne _ _ hy]
  have hadd : ∀ (u : State) (c : ℕ), ((collectorAddObject u c x).objects y).count =
      (u.objects y).count := by
    intro u c
    unfold collectorAddObject
    dsimp only
    rw [(objectSetCollector_count _ x _ y).1, (safelistAdd_same _ _ _).objects,
      State.modifyObject_objects_ne _ _ hy, State.modifyObject_objects_ne _ _ hy]
  unfold objectDec
  dsimp only
  split_ifs
  · exact hmod _ _
  · split
    · rw [hadd, (Sound.ensureCollector_count _ x y).1]
      exact hmod _ _
    · rw [(Sound.ensureCollector_count _ x y).1]
      exact hmod _ _
  · exact hmod _ _

/-- A phantomized link leaves all strong and weak counts alone, another one only those of
other objects than its target. -/
theorem linkDec_count (s : State) (l : ℕ) {y : ℕ}
    (hy : (s.links l).phantomized = true ∨ y ≠ (s.links l).target) :
    ((linkDec s l).objects y).count = (s.objects y).count := by
  unfold linkDec
  dsimp only
  split_ifs with hp
  · exact objectDecPhantom_count s _ y
  · exact objectDec_count s _ _ (hy.resolve_left hp)

theorem linkDestroy_count (s : State) (l : ℕ) {y : ℕ}
    (hy : (s.links l).phantomized = true ∨ y ≠ (s.links l).target) :
    ((linkDestroy s l).objects y).count = (s.objects y).count :=
  linkDec_count s l hy

theorem foldl_linkDestroy_count {ls : List ℕ} (s : State) {y : ℕ}
    (hls : ∀ l ∈ ls, (s.links l).phantomized = true ∨ y ≠ (s.links l).target) :
    ((ls.foldl linkDestroy s).objects y).count = (s.objects y).count := by
  induction ls generalizing s with
  | nil => rfl
  | cons l ls ih =>
    have hsame : ∀ k, ((linkDestroy s l).links k).phantomized = (s.links k).phantomized := by
      intro k
      rw [linkDestroy_links]
      split_ifs with hk
      · rw [hk]
      · rfl
    rw [List.foldl_cons, ih]
    · exact linkDestroy_count s l (hls l (List.mem_cons_self ..))
    · intro k hk
      rw [hsame, (linkDestroy_frame s l).target]
      exact hls k (List.mem_cons_of_mem _ hk)

/-- A phantom reference is given back without a change of the lists. -/
theorem objectDecPhantom_safelist (s : State) (x : ℕ) (r : ListRef) :
    (objectDecPhantom s x).safelist r = s.safelist r := by
  have hcheck : ∀ (p : Prop) [Decidable p] (e : Event),
      ((s.modifyObject x fun o => { o with count2 := o.count2 - 1 }).check p e).safelist r =
        s.safelist r := by
    intro p _ e
    rw [State.safelist, State.check_collectors]
    rfl
  unfold objectDecPhantom
  dsimp only
  split_ifs
  · exact hcheck _ _
  · rw [objectSetCollector_safelist, hcheck]
  · exact hcheck _ _

theorem linkDestroy_listed {s : State} {l x : ℕ} (hp : (s.links l).phantomized = true)
    (hx : Listed s x) : Listed (linkDestroy s l) x := by
  obtain ⟨r, hr, hm⟩ := hx
  refine ⟨r, hr, ?_⟩
  have hdec : linkDec s l = objectDecPhantom s (s.links l).target := by
    unfold linkDec
    dsimp only
    rw [if_pos hp]
  change x ∈ ((linkDec s l).safelist r).data
  rw [hdec, objectDecPhantom_safelist]
  exact hm

/-- No link of the list takes the collector of a kept object that is still in use. -/
def AllSpare (s : State) (L : Ledger) (ls : List ℕ) : Prop :=
  (∀ l ∈ ls, (s.links l).phantomized = true → (s.links l).target ∉ L.kept) ∨
  ∀ l ∈ ls, (s.links l).phantomized = true ∧ ((s.links l).target ∈ L.kept →
    (∀ b, (s.objects (s.links l).target).count b = 0) ∨ Listed s (s.links l).target)

namespace Sound
variable {s : State} {L : Ledger}

theorem foldl_linkDestroy {ls : List ℕ} (h : Sound s L) (hnd : ls.Nodup)
    (hls : ∀ l ∈ ls, l ∈ L.refs) (hspare : AllSpare s L ls) :
    Sound (ls.foldl Acid.linkDestroy s) { L with refs := L.refs \ ls.toFinset } := by
  induction ls generalizing s L with
  | nil => simpa using h
  | cons l ls ih =>
    obtain ⟨hnot, hnd'⟩ := List.nodup_cons.mp hnd
    have hf := linkDestroy_frame s l
    have hsame : ∀ k, ((Acid.linkDestroy s l).links k).phantomized = (s.links k).phantomized := by
      intro k
      rw [linkDestroy_links]
      split_ifs with hk
      · rw [hk]
      · rfl
    have hl := List.mem_cons_self (a := l) (l := ls)
    have hstep : Sound (Acid.linkDestroy s l) { L with refs := L.refs.erase l } := by
      apply h.linkDestroy (hls l hl)
      intro hp hone hb hk
      obtain ⟨b, hb⟩ := hb
      rcases hspare with hs | hs
      · exact hs l hl hp hk
      · rcases (hs l hl).2 hk with hz | hlisted
        · exact hb (hz b)
        · have := h.count2_of_listed (hls l hl) hp hlisted
          omega
    have hrefs : L.refs \ (l :: ls).toFinset = L.refs.erase l \ ls.toFinset := by
      rw [List.toFinset_cons, Finset.sdiff_insert, Finset.erase_sdiff_comm]
    rw [List.foldl_cons, hrefs]
    apply ih hstep hnd'
    · intro k hk
      refine Finset.mem_erase.mpr ⟨?_, hls k (List.mem_cons_of_mem _ hk)⟩
      rintro rfl
      exact hnot hk
    · rcases hspare with hs | hs
      · left
        intro k hk
        rw [hsame, hf.target]
        exact hs k (List.mem_cons_of_mem _ hk)
      · right
        intro k hk
        rw [hsame, hf.target, linkDestroy_count s l (.inl (hs l hl).1)]
        obtain ⟨hp, ht⟩ := hs k (List.mem_cons_of_mem _ hk)
        exact ⟨hp, fun hm => (ht hm).imp id (linkDestroy_listed (hs l hl).1)⟩

end Sound

/-- The part of `object_remove_links` before its loop. -/
def removeStart (s : State) (obj : ℕ) : State :=
  let s := s.emit (.removeLinks obj)
  let s := s.modifyObject obj fun o => { o with links := o.links.removeAll }
  let s := s.check ((s.objects obj).count false = 0) (.assertFailed .removeCount)
  s.check ((s.objects obj).count true = 0) (.assertFailed .removeCount)

theorem objectRemoveLinks_eq (s : State) (obj : ℕ) :
    objectRemoveLinks s obj = (s.objects obj).links.values.foldl linkDestroy (removeStart s obj) :=
  rfl

theorem removeStart_objects (s : State) (obj x : ℕ) : (removeStart s obj).objects x =
    if x = obj then { s.objects obj with links := (s.objects obj).links.removeAll }
    else s.objects x := by
  rw [removeStart, State.check_objects, State.check_objects, State.modifyObject_objects]
  rfl

theorem removeStart_links (s : State) (obj : ℕ) : (removeStart s obj).links = s.links := by
  rw [removeStart, State.check_links, State.check_links]
  rfl

theorem objectRemoveLinks_count (s : State) (obj : ℕ) {y : ℕ}
    (hy : ∀ l ∈ (s.objects obj).links.values,
      (s.links l).phantomized = true ∨ y ≠ (s.links l).target) :
    ((objectRemoveLinks s obj).objects y).count = (s.objects y).count := by
  rw [objectRemoveLinks_eq, foldl_linkDestroy_count, removeStart_objects]
  · split_ifs with hx
    · rw [hx]
    · rfl
  · rw [removeStart_links]
    exact hy

namespace Sound
variable {s : State} {L : Ledger}

theorem removeStart (h : Sound s L) (obj : ℕ) : Sound (Acid.removeStart s obj) L := by
  have hempty : ((s.objects obj).links.removeAll).values = [] := by
    rw [HashTable.values, HashTable.entries_removeAll]
    rfl
  have htable := (h.emit (e := .removeLinks obj) rfl).retable (x := obj)
    (f := HashTable.removeAll) (by
      intro l hl
      change l ∈ ((s.objects obj).links.removeAll).values at hl
      rw [hempty] at hl
      cases hl) (by
      change ((s.objects obj).links.removeAll).values.Nodup
      rw [hempty]
      exact List.nodup_nil) fun _ _ => HashTable.entries_removeAll _
  exact (htable.check _ rfl).check _ rfl

theorem removeLinks {obj : ℕ} (h : Sound s L)
    (hrefs : ∀ l ∈ (s.objects obj).links.values, l ∈ L.refs)
    (hspare : AllSpare s L (s.objects obj).links.values) :
    Sound (objectRemoveLinks s obj)
      { L with refs := L.refs \ (s.objects obj).links.values.toFinset } := by
  rw [objectRemoveLinks_eq]
  apply (h.removeStart obj).foldl_linkDestroy (h.tables.nodup obj) hrefs
  rcases hspare with hs | hs
  · left
    rw [removeStart_links]
    exact hs
  · right
    intro l hl
    rw [removeStart_links]
    refine ⟨(hs l hl).1, fun hk => ((hs l hl).2 hk).imp (fun hz b => ?_) fun hlisted => ?_⟩
    · have hb := hz b
      rw [removeStart_objects]
      split_ifs with hx
      · rwa [hx] at hb
      · exact hb
    · obtain ⟨r, hr, hm⟩ := hlisted
      refine ⟨r, hr, ?_⟩
      rw [State.safelist, Acid.removeStart, State.check_collectors, State.check_collectors]
      exact hm

/-- The polled object gives its phantom reference back, with its links if it is not in use. -/
theorem cleanNode {obj c : ℕ} (h : Sound s { L with curated := (obj, c) :: L.curated })
    (hrefs : ∀ l ∈ (s.objects obj).links.values, l ∈ L.refs)
    (hspare : (∀ b, (s.objects obj).count b = 0) → AllSpare s L (s.objects obj).links.values)
    (hkept : obj ∈ L.kept → (∀ b, (s.objects obj).count b = 0) ∨ 2 ≤ (s.objects obj).count2) :
    Sound (objectCleanNode s obj) { L with
      refs := if ∀ b, (s.objects obj).count b = 0 then
        L.refs \ (s.objects obj).links.values.toFinset else L.refs } := by
  have hnn := h.balance.count_nonneg obj
  unfold objectCleanNode
  dsimp only
  rw [State.check_pos _ (hnn false), State.check_pos _ (hnn true)]
  by_cases hz : ∀ b, (s.objects obj).count b = 0
  · rw [if_neg (by simp [hz]), if_pos hz]
    have h1 := h.removeLinks hrefs (hspare hz)
    have hcount : ((objectRemoveLinks s obj).objects obj).count = (s.objects obj).count := by
      apply objectRemoveLinks_count
      intro l hl
      by_contra hne
      push Not at hne
      obtain ⟨hp, ht⟩ := hne
      have := h.balance.count_pos_of_link (hrefs l hl) (by simpa using hp)
      rw [← ht, hz] at this
      exact lt_irrefl _ this
    apply Sound.decPhantom (L := { L with
      refs := L.refs \ (s.objects obj).links.values.toFinset })
    · exact Sound.uncurate (L := { L with
        refs := L.refs \ (s.objects obj).links.values.toFinset }) h1
    · rintro _ ⟨b, hb⟩
      rw [hcount] at hb
      exact absurd (hz b) hb
  · have huse : (s.objects obj).count false ≠ 0 ∨ (s.objects obj).count true ≠ 0 := by
      by_contra hne
      push Not at hne
      exact hz fun b => by cases b <;> tauto
    rw [if_pos huse, if_neg hz]
    apply Sound.decPhantom h.uncurate
    intro hone _ hk
    rcases hkept hk with hz' | htwo
    · exact hz hz'
    · omega

end Sound

/-- The record that `object_del` leaves to the destructor. -/
def disownRecord (o : Object) : Object := { o with links := .new, magic := 0 }

/-- `object_del` before the destructor. -/
def delStart (s : State) (obj : ℕ) : State :=
  let s := s.emit (.objectDel obj)
  let s := objectSetCollector s obj none
  let s := s.check ((s.objects obj).links.size = 0) (.assertFailed .delLinks)
  s.modifyObject obj disownRecord

/-- The end of `object_del`: the destructor runs and the record is freed. -/
def objectFree (s : State) (obj : ℕ) : State :=
  let s := if (s.objects obj).dtor then s.emit (.dtor obj) else s
  let s := s.modifyObject obj fun o => { o with freed := true }
  { s with acidCollectCount := s.acidCollectCount + 1 }

theorem objectDel_eq (s : State) (obj : ℕ) : objectDel s obj = objectFree (delStart s obj) obj :=
  rfl

theorem objectFree_objects (s : State) (obj x : ℕ) : (objectFree s obj).objects x =
    if x = obj then { s.objects obj with freed := true } else s.objects x := by
  have hs : (if (s.objects obj).dtor then s.emit (.dtor obj) else s).objects = s.objects := by
    split_ifs <;> rfl
  unfold objectFree
  dsimp only
  change ((if (s.objects obj).dtor then s.emit (.dtor obj) else s).modifyObject obj fun o =>
    { o with freed := true }).objects x = _
  rw [State.modifyObject_objects, hs]

/-- Nothing else changes, but for the trace and a counter. -/
theorem objectFree_rest (s : State) (obj : ℕ) :
    (objectFree s obj).objectCount = s.objectCount ∧ (objectFree s obj).links = s.links ∧
    (objectFree s obj).linkCount = s.linkCount ∧
    (objectFree s obj).collectors = s.collectors ∧
    (objectFree s obj).numCollector = s.numCollector ∧ (objectFree s obj).work = s.work ∧
    (objectFree s obj).running = s.running ∧ (objectFree s obj).claims = s.claims ∧
    (objectFree s obj).acidWorldCount = s.acidWorldCount ∧
    (objectFree s obj).acidCollectCount = s.acidCollectCount + 1 ∧
    ((objectFree s obj).trace = s.trace ∨ (objectFree s obj).trace = .dtor obj :: s.trace) := by
  unfold objectFree
  dsimp only
  split_ifs
  · exact ⟨rfl, rfl, rfl, rfl, rfl, rfl, rfl, rfl, rfl, rfl, .inr rfl⟩
  · exact ⟨rfl, rfl, rfl, rfl, rfl, rfl, rfl, rfl, rfl, rfl, .inl rfl⟩

namespace Sound
variable {s : State} {L : Ledger}

theorem claims_eq_zero (h : Sound s L) {x : ℕ} (hz : (s.objects x).count (s.objects x).which = 0) :
    s.claims x = 0 := by
  by_contra hne
  exact (h.balance.count_pos_of_claim (Nat.pos_of_ne_zero hne)).ne' hz

/-- The object of a delete task is freed at its end. -/
theorem free {obj : ℕ} (h : Sound s { L with deleting := obj :: L.deleting })
    (hcol : (s.objects obj).collector = none) (htable : (s.objects obj).links.entries = []) :
    Sound (objectFree s obj) { L with settled := insert obj L.settled } := by
  obtain ⟨hlive, hc, hc2⟩ := h.deletes.pending (x := obj) (.inr (List.mem_cons_self ..))
  have hobj := objectFree_objects s obj
  obtain ⟨hn, hlinks, hlc, hcs, hnc, hwork, hrun, hclaims, hworld, hcollect, htrace⟩ :=
    objectFree_rest s obj
  generalize objectFree s obj = s' at *
  have hall : ∀ {α : Type} (p : Object → α),
      p { s.objects obj with freed := true } = p (s.objects obj) →
      ∀ y, p (s'.objects y) = p (s.objects y) := by
    intro α p hp y
    rw [hobj]
    split_ifs with hy
    · rw [hp, hy]
    · rfl
  have hlive' : ∀ y, Live s' y ↔ Live s y ∧ y ≠ obj := by
    intro y
    rw [Live, Live, hn, hobj]
    split_ifs with hy
    · simp [hy]
    · simp [hy]
  have hzero : s.claims obj = 0 := h.claims_eq_zero (hc _)
  have hocc : ∀ n x, occurrences s' n x = occurrences s n x := by
    intro n x
    apply occurrences_congr hnc
    intro r
    rw [State.safelist, State.safelist, hcs]
  constructor
  · constructor
    · intro o l hl
      rw [hall Object.links rfl] at hl
      rw [hlc, hlinks]
      exact h.tables.owned hl
    · intro o
      rw [hall Object.links rfl]
      exact h.tables.nodup o
  · intro l hl
    rw [hlc]
    exact h.refs l hl
  · refine h.collectors.congr hcs hnc hn (hall Object.collector rfl) ?_ ?_
    · intro x hx hl
      refine (hlive' x).mpr ⟨hl, ?_⟩
      rintro rfl
      exact hx hcol
    · intro c hm
      rcases htrace with ht | ht
      · rwa [ht] at hm
      · rw [ht, List.mem_cons] at hm
        exact hm.resolve_left (by simp)
  · have hbal : Balance s { L with settled := insert obj L.settled } :=
      ⟨h.balance.count, h.balance.count2⟩
    refine hbal.congr (hall Object.count rfl) (hall Object.count2 rfl)
      (hall Object.which rfl) (fun l _ => ?_) hclaims (hocc _) fun x => ?_
    · rw [hlinks]
      exact ⟨rfl, rfl, rfl⟩
    · unfold curation
      rw [hocc, hocc, hocc, hocc]
  · have hcl : Classes s { L with settled := insert obj L.settled } :=
      ⟨h.classes.listed, h.classes.held, h.classes.kept, h.classes.linked⟩
    exact hcl.congr hnc hcs (hall Object.collector rfl) fun l _ => by rw [hlinks]
  · exact h.tasks.congr (fun _ => by rw [hwork]) hrun fun c => by rw [Alive, Alive, hnc, hcs]
  · have honce := h.deletes.once obj
    rw [List.count_cons_self] at honce
    have htr : ∀ e : Event, e ≠ .dtor obj → s'.trace.count e = s.trace.count e := by
      intro e he
      rcases htrace with ht | ht
      · rw [ht]
      · rw [ht, List.count_cons_of_ne (Ne.symm he)]
    have hdoom : ∀ x, Doomed s' L.deleting x → x ≠ obj := by
      rintro x hx rfl
      rcases hx with hx | hx
      · rw [hwork] at hx
        have := List.count_pos_iff.mpr hx
        omega
      · have := List.count_pos_iff.mpr hx
        omega
    refine ⟨?_, ?_, ?_, ?_, ?_, ?_, ?_, ?_, ?_, ?_, ?_⟩
    · intro x hx
      have hne := hdoom x hx
      have hp := h.deletes.pending (x := x) (hx.imp (by rw [hwork]; exact id)
        (List.mem_cons_of_mem _))
      rw [hlive', hall Object.count rfl, hall Object.count2 rfl]
      exact ⟨⟨hp.1, hne⟩, hp.2⟩
    · intro x
      have h1 := h.deletes.once x
      have h2 := (List.sublist_cons_self obj L.deleting).count_le x
      rw [hwork]
      exact (Nat.add_le_add_left h2 _).trans h1
    · intro x hx
      rw [hlive', not_and_or, not_not] at hx
      rw [hall Object.count rfl, hall Object.count2 rfl, hclaims, hall Object.links rfl]
      rcases hx with hx | rfl
      · exact h.deletes.dead hx
      · exact ⟨hc, hc2, hzero, htable⟩
    · intro x hx
      rw [hn]
      by_cases hxo : x = obj
      · exact hxo ▸ hlive.1
      · rw [hobj, if_neg hxo] at hx
        exact h.deletes.freed_lt hx
    · intro x
      have h1 := h.deletes.requested x
      rw [htr _ (by simp), hwork, hobj]
      by_cases hxo : x = obj
      · subst x
        rw [List.count_cons_self, hlive.2] at h1
        simpa [Nat.add_assoc] using h1
      · rw [List.count_cons_of_ne (Ne.symm hxo)] at h1
        rw [if_neg hxo]
        exact h1
    · intro x
      have h1 := h.deletes.dtors x
      rw [hobj]
      by_cases hxo : x = obj
      · subst x
        rw [hlive.2] at h1
        rcases htrace with ht | ht
        · rw [ht]
          simp at h1 ⊢
          omega
        · rw [ht, List.count_cons_self]
          simp at h1 ⊢
          omega
      · rw [if_neg hxo, htr _ (by simpa using hxo)]
        exact h1
    · intro c
      rw [htr _ (by simp), hcs]
      exact h.deletes.destroyed c
    · intro c hd
      rw [hcs] at hd
      rw [hnc]
      exact h.deletes.destroyed_lt hd
    · rw [hworld, hn]
      exact h.deletes.world
    · have hch := tally_change (S := Finset.range s.objectCount) (i := obj)
        (p := fun x => (s.objects x).freed = true) (q := fun x => (s'.objects x).freed = true)
        (Finset.mem_range.mpr hlive.1) (by intro y hy; rw [hobj, if_neg hy])
      rw [hn, hch, hcollect, hobj, if_pos rfl, hlive.2]
      have := h.deletes.collected
      push_cast
      simp
      omega
    · intro a ha hm
      have hz : s.trace.count (.assertFailed a) = 0 :=
        List.count_eq_zero.mpr (h.deletes.faults a ha)
      rw [← htr _ (by simp), List.count_eq_zero] at hz
      exact hz hm
  · intro x hx hl hz
    obtain ⟨hl, hne⟩ := (hlive' x).mp hl
    rw [hall Object.count rfl, hall Object.which rfl] at hz
    have hset := h.settled x (hx.resolve_left hne)
    exact (hset.congr (fun _ => hl) (by rw [hall Object.count rfl])
      (by rw [hall Object.count2 rfl]) (by rw [hall Object.which rfl])
      (by rw [hall Object.phantomized rfl])
      (fun _ hcn => .inl (by rw [hall Object.collector rfl]; exact hcn))
      (by rw [hwork]; exact id)) ((hlive' x).mpr ⟨hl, hne⟩)
      (by rw [hall Object.count rfl, hall Object.which rfl]; exact hz)
  · rw [layout_congr hnc hcs]
    exact h.moved

theorem del {obj : ℕ} (h : Sound s { L with deleting := obj :: L.deleting })
    (hset : obj ∉ L.settled) (hkept : obj ∉ L.kept) :
    Sound (objectDel s obj) { L with settled := insert obj L.settled } := by
  obtain ⟨_, _, hc2⟩ := h.deletes.pending (x := obj) (.inr (List.mem_cons_self ..))
  have h1 := (h.emit (e := .objectDel obj) rfl).setCollector (x := obj) (c := none)
    (fun hn => absurd rfl hn) (fun d hd => by cases hd) (fun _ _ => .inr ⟨rfl, hc2⟩)
    (fun _ => hkept) fun _ _ hx => absurd hx hset
  have hcol := objectSetCollector_collector (s.emit (.objectDel obj)) obj none obj
  rw [if_pos rfl] at hcol
  rw [objectDel_eq, delStart]
  generalize objectSetCollector (s.emit (.objectDel obj)) obj none = s1 at h1 hcol
  have h2 := h1.check ((s1.objects obj).links.size = 0) (e := .assertFailed .delLinks) rfl
  rw [← s1.check_objects ((s1.objects obj).links.size = 0) (.assertFailed .delLinks)] at hcol
  generalize s1.check ((s1.objects obj).links.size = 0) (.assertFailed .delLinks) = s2 at h2 hcol
  have hnew : (HashTable.new : HashTable ℕ).values = [] := by
    rw [HashTable.values, HashTable.entries_new]
    rfl
  apply Sound.free
  · refine h2.modifyRecord ?_ ?_ (fun _ _ => HashTable.entries_new) rfl rfl rfl rfl (fun b => ?_)
      fun hx => absurd hx hset
    · intro l hl
      change l ∈ (HashTable.new : HashTable ℕ).values at hl
      rw [hnew] at hl
      cases hl
    · change (HashTable.new : HashTable ℕ).values.Nodup
      rw [hnew]
      exact List.nodup_nil
    · simp [sideRefs, State.modifyObject, occurrences, disownRecord]
  · rw [State.modifyObject_objects_self]
    exact hcol
  · rw [State.modifyObject_objects_self]
    exact HashTable.entries_new

/-- The delete task. -/
theorem requestDeleteTaskRun {obj : ℕ}
    (h : Sound s { L with deleting := obj :: L.deleting, settled := L.settled \ {obj} })
    (hrefs : ∀ l ∈ (s.objects obj).links.values, l ∈ L.refs)
    (hspare : AllSpare s L (s.objects obj).links.values) (hkept : obj ∉ L.kept) :
    Sound (objectRequestDeleteTaskRun s obj)
      { L with refs := L.refs \ (s.objects obj).links.values.toFinset } := by
  have h1 := h.removeLinks hrefs hspare
  have h2 := Sound.del (L := { L with
    refs := L.refs \ (s.objects obj).links.values.toFinset
    settled := L.settled \ {obj} }) h1 (fun hx => hx.2 rfl) hkept
  refine h2.weaken (le_refl L.kept) fun x hx => ?_
  by_cases hxo : x = obj
  · exact .inl hxo
  · exact .inr ⟨hx, hxo⟩

end Sound

/-- A queued task taken from its place. -/
theorem count_eraseIdx {ts : List Task} {i : ℕ} {t : Task} (h : ts[i]? = some t) (u : Task) :
    ts.count u = (ts.eraseIdx i).count u + if u = t then 1 else 0 := by
  obtain ⟨hi, ht⟩ := List.getElem?_eq_some_iff.mp h
  have hp := (List.getElem_cons_eraseIdx_perm hi).count_eq u
  rw [ht, List.count_cons] at hp
  rw [← hp]
  congr 1
  by_cases hu : u = t
  · simp [hu]
  · simp [hu, Ne.symm hu]

namespace Sound
variable {s : State} {L : Ledger}

theorem takeDelete (h : Sound s L) {i obj : ℕ} (hi : s.work[i]? = some (.delete obj)) :
    Sound { s with work := s.work.eraseIdx i }
      { L with deleting := obj :: L.deleting, settled := L.settled \ {obj} } := by
  have hcount := count_eraseIdx hi
  have hmem : ∀ x, x ≠ obj → .delete x ∈ s.work → .delete x ∈ s.work.eraseIdx i := by
    intro x hx hm
    have h1 := hcount (.delete x)
    have h2 := List.count_pos_iff.mpr hm
    rw [if_neg (by simpa using hx)] at h1
    exact List.count_pos_iff.mp (by omega)
  constructor
  · exact ⟨h.tables.owned, h.tables.nodup⟩
  · exact h.refs
  · exact h.collectors.congr rfl rfl rfl (fun _ => rfl) (fun _ _ hx => hx) fun _ hm => hm
  · exact ⟨h.balance.count, h.balance.count2⟩
  · exact ⟨h.classes.listed, h.classes.held, h.classes.kept, h.classes.linked⟩
  · refine h.tasks.congr (fun c => ?_) rfl fun _ => Iff.rfl
    have := hcount (.run c)
    rw [if_neg (by simp)] at this
    exact this.symm
  · refine ⟨?_, ?_, h.deletes.dead, h.deletes.freed_lt, ?_, h.deletes.dtors,
      h.deletes.destroyed, h.deletes.destroyed_lt, h.deletes.world, h.deletes.collected,
      h.deletes.faults⟩
    · intro x hx
      apply h.deletes.pending
      rcases hx with hx | hx
      · exact .inl (List.mem_of_mem_eraseIdx hx)
      · rcases List.mem_cons.mp hx with rfl | hx
        · exact .inl (List.mem_of_getElem? hi)
        · exact .inr hx
    · intro x
      have h1 := h.deletes.once x
      have h2 := hcount (.delete x)
      by_cases hx : x = obj
      · subst x
        rw [if_pos rfl] at h2
        rw [List.count_cons_self]
        change (s.work.eraseIdx i).count _ + _ ≤ 1
        omega
      · rw [if_neg (by simpa using hx)] at h2
        rw [List.count_cons_of_ne (Ne.symm hx)]
        change (s.work.eraseIdx i).count _ + _ ≤ 1
        omega
    · intro x
      have h1 := h.deletes.requested x
      have h2 := hcount (.delete x)
      by_cases hx : x = obj
      · subst x
        rw [if_pos rfl] at h2
        rw [List.count_cons_self]
        change s.trace.count _ =
          (s.work.eraseIdx i).count _ + _ + if (s.objects obj).freed = true then 1 else 0
        omega
      · rw [if_neg (by simpa using hx)] at h2
        rw [List.count_cons_of_ne (Ne.symm hx)]
        change s.trace.count _ =
          (s.work.eraseIdx i).count _ + _ + if (s.objects x).freed = true then 1 else 0
        omega
  · intro x hx
    exact (h.settled x hx.1).congr id rfl rfl rfl rfl (fun _ => .inl) (hmem x hx.2)
  · exact h.moved

end Sound
end Acid

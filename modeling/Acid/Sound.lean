import Acid.Balance

set_option autoImplicit false

/-!
# What holds between any two operations

`Sound s L` gathers the invariants that no condition on the run is needed for,
in the form they take while a step holds the references of the ledger `L`.
-/
namespace Acid
open PointerForest Tally

/-- The collector of `x` has the final root of `c`. -/
def InClass (s : State) (x c : ℕ) : Prop :=
  ∃ d, (s.objects x).collector = some d ∧ collectorUpdate s d = collectorUpdate s c

structure Tables (s : State) : Prop where
  owned : ∀ {o l}, l ∈ (s.objects o).links.values → l < s.linkCount ∧ (s.links l).src = o
  nodup : ∀ o, (s.objects o).links.values.Nodup

structure Classes (s : State) (L : Ledger) : Prop where
  listed : ∀ {r : ListRef} {x}, r.2 ≠ .rebuild → x ∈ (s.safelist r).data → InClass s x r.1
  held : ∀ {x c}, (x, c) ∈ L.curated → InClass s x c ∧ Alive s c
  kept : ∀ {x}, x ∈ L.kept → (s.objects x).collector ≠ none
  linked : ∀ {l}, l ∈ L.refs → (s.links l).phantomized = true → (s.links l).src ∈ L.kept →
    ∃ c, InClass s (s.links l).src c ∧ InClass s (s.links l).target c

/-- The queued and started run tasks of a collector. -/
def runTasks (s : State) (c : ℕ) : ℕ := s.work.count (.run c) + s.running.countP (·.1 = c)

structure Tasks (s : State) : Prop where
  alive : ∀ {c}, Alive s c → runTasks s c = 1
  dead : ∀ {c}, ¬ Alive s c → runTasks s c = 0

/-- The assertions that a count is not negative. -/
def Assertion.negative : Assertion → Bool
  | .decCount | .decPhantomCount | .phantomizeCount | .rebuildCount | .cleanCount => true
  | _ => false

/-- Events that no invariant counts. -/
def Event.harmless : Event → Bool
  | .requestDelete _ | .dtor _ | .collectorDestroy _ | .counterUnderflow _ => false
  | .assertFailed a => !a.negative
  | _ => true

/-- A delete task for `x` is queued, or runs as `D` says. -/
def Doomed (s : State) (D : List ℕ) (x : ℕ) : Prop := .delete x ∈ s.work ∨ x ∈ D

structure Deletes (s : State) (D : List ℕ) : Prop where
  pending : ∀ {x}, Doomed s D x → Live s x ∧ (∀ b, (s.objects x).count b = 0) ∧
    (s.objects x).count2 = 0
  once : ∀ x, s.work.count (.delete x) + D.count x ≤ 1
  dead : ∀ {x}, ¬ Live s x → (∀ b, (s.objects x).count b = 0) ∧ (s.objects x).count2 = 0 ∧
    s.claims x = 0 ∧ (s.objects x).links.entries = []
  freed_lt : ∀ {x}, (s.objects x).freed = true → x < s.objectCount
  requested : ∀ x, s.trace.count (.requestDelete x) =
    s.work.count (.delete x) + D.count x + if (s.objects x).freed then 1 else 0
  dtors : ∀ x, s.trace.count (.dtor x) ≤ if (s.objects x).freed then 1 else 0
  destroyed : ∀ c, s.trace.count (.collectorDestroy c) =
    if (s.collectors c).destroyed then 1 else 0
  destroyed_lt : ∀ {c}, (s.collectors c).destroyed = true → c < s.numCollector
  world : s.acidWorldCount = s.objectCount
  collected : (s.acidCollectCount : ℤ) =
    tally (Finset.range s.objectCount) fun x => (s.objects x).freed = true
  faults : ∀ a : Assertion, a.negative → Event.assertFailed a ∉ s.trace

/-- Between operations an object without a strong reference is phantomized or waits for its
delete task. With `K` it has no weak reference either, and is curated unless it waits. -/
def Settled (s : State) (K : Prop) (x : ℕ) : Prop :=
  Live s x → (s.objects x).count (s.objects x).which = 0 →
    (.delete x ∈ s.work ∨ (s.objects x).phantomized = true) ∧
    (K → (s.objects x).count (!(s.objects x).which) = 0 ∧
      (.delete x ∈ s.work ∨ (0 < (s.objects x).count2 ∧ (s.objects x).collector ≠ none)))

structure Sound (s : State) (L : Ledger) : Prop where
  tables : Tables s
  refs : ∀ l ∈ L.refs, l < s.linkCount
  collectors : Collectors s
  balance : Balance s L
  classes : Classes s L
  tasks : Tasks s
  deletes : Deletes s L.deleting
  settled : ∀ x ∈ L.settled, Settled s L.strict x
  moved : ∀ d ∈ L.before, Moves d (layout s)

theorem InClass.congr {s s' : State} {x c : ℕ} (h : InClass s x c)
    (hn : s'.numCollector = s.numCollector) (hf : s'.forward = s.forward)
    (hx : (s'.objects x).collector = (s.objects x).collector) : InClass s' x c := by
  obtain ⟨d, hd, hdc⟩ := h
  refine ⟨d, hx.trans hd, ?_⟩
  rw [collectorUpdate_congr hn hf, collectorUpdate_congr hn hf, hdc]

theorem inClass_self {s : State} {x c : ℕ} (h : (s.objects x).collector = some c) :
    InClass s x c :=
  ⟨c, h, rfl⟩

theorem InClass.ne_none {s : State} {x c : ℕ} (h : InClass s x c) :
    (s.objects x).collector ≠ none := by
  obtain ⟨d, hd, _⟩ := h
  simp [hd]

theorem Tables.frame {s s' : State} (h : Tables s) (hf : Frame s s') : Tables s' := by
  constructor
  · intro o l hl
    rw [hf.table] at hl
    rw [hf.linkCount, hf.links]
    exact h.owned hl
  · intro o
    rw [hf.table]
    exact h.nodup o

theorem Classes.congr {s s' : State} {L : Ledger} (h : Classes s L)
    (hn : s'.numCollector = s.numCollector) (hc : s'.collectors = s.collectors)
    (hobj : ∀ x, (s'.objects x).collector = (s.objects x).collector)
    (hlinks : ∀ l ∈ L.refs, s'.links l = s.links l) : Classes s' L := by
  have hf : s'.forward = s.forward := forward_eq_of_collectors hc
  have hin : ∀ {x c}, InClass s x c → InClass s' x c := fun hi => hi.congr hn hf (hobj _)
  refine ⟨?_, ?_, ?_, ?_⟩
  · intro r x hr hx
    rw [State.safelist, hc] at hx
    exact hin (h.listed hr hx)
  · intro x c hx
    refine ⟨hin (h.held hx).1, ?_⟩
    rw [Alive, hn, hc]
    exact (h.held hx).2
  · intro x hx
    rw [hobj]
    exact h.kept hx
  · intro l hl hp hs
    rw [hlinks l hl] at hp hs ⊢
    obtain ⟨c, h1, h2⟩ := h.linked hl hp hs
    exact ⟨c, hin h1, hin h2⟩

theorem Tasks.congr {s s' : State} (h : Tasks s)
    (hwork : ∀ c, s'.work.count (.run c) = s.work.count (.run c))
    (hrun : s'.running = s.running) (halive : ∀ c, Alive s' c ↔ Alive s c) : Tasks s' := by
  have hr : ∀ c, runTasks s' c = runTasks s c := by
    intro c
    rw [runTasks, runTasks, hwork, hrun]
  constructor
  · intro c hc
    rw [hr]
    exact h.alive ((halive c).mp hc)
  · intro c hc
    rw [hr]
    exact h.dead fun ha => hc ((halive c).mpr ha)

theorem doomed_congr {s s' : State} {D : List ℕ} {x : ℕ} (h : s'.work = s.work) :
    Doomed s' D x ↔ Doomed s D x := by
  rw [Doomed, Doomed, h]

/-- Only the fields named here matter, and for most objects only some of them. -/
theorem Deletes.congr {s s' : State} {D : List ℕ} (h : Deletes s D)
    (hobj : s'.objectCount = s.objectCount)
    (hfreed : ∀ x, (s'.objects x).freed = (s.objects x).freed)
    (hdead : ∀ x, ¬ Live s x → s.claims x = 0 → (s.objects x).links.entries = [] →
      s'.claims x = 0 ∧ (s'.objects x).links.entries = [])
    (hwork : ∀ x, s'.work.count (.delete x) = s.work.count (.delete x))
    (hcounts : ∀ x, Doomed s D x ∨ ¬ Live s x →
      (s'.objects x).count = (s.objects x).count ∧ (s'.objects x).count2 = (s.objects x).count2)
    (htrace : ∀ e : Event, e.harmless = false → s'.trace.count e = s.trace.count e)
    (hdes : ∀ c, (s'.collectors c).destroyed = (s.collectors c).destroyed)
    (hn : s.numCollector ≤ s'.numCollector) (hworld : s'.acidWorldCount = s.acidWorldCount)
    (hcollect : s'.acidCollectCount = s.acidCollectCount) : Deletes s' D := by
  have hlive : ∀ x, Live s' x ↔ Live s x := by
    intro x
    rw [Live, Live, hobj, hfreed]
  have hmem : ∀ x, Doomed s' D x ↔ Doomed s D x := by
    intro x
    apply or_congr_left
    rw [← List.count_pos_iff, ← List.count_pos_iff, hwork]
  refine ⟨?_, ?_, ?_, ?_, ?_, ?_, ?_, ?_, ?_, ?_, ?_⟩
  · intro x hx
    have hx' := (hmem x).mp hx
    rw [(hcounts x (.inl hx')).1, (hcounts x (.inl hx')).2, hlive]
    exact h.pending hx'
  · intro x
    rw [hwork]
    exact h.once x
  · intro x hx
    rw [hlive] at hx
    obtain ⟨h1, h2, h3, h4⟩ := h.dead hx
    rw [(hcounts x (.inr hx)).1, (hcounts x (.inr hx)).2]
    exact ⟨h1, h2, hdead x hx h3 h4⟩
  · intro x hx
    rw [hfreed] at hx
    rw [hobj]
    exact h.freed_lt hx
  · intro x
    rw [htrace _ rfl, hwork, hfreed]
    exact h.requested x
  · intro x
    rw [htrace _ rfl, hfreed]
    exact h.dtors x
  · intro c
    rw [htrace _ rfl, hdes]
    exact h.destroyed c
  · intro c hc
    rw [hdes] at hc
    exact (h.destroyed_lt hc).trans_le hn
  · rw [hworld, hobj]
    exact h.world
  · rw [hcollect, h.collected, hobj]
    exact (tally_congr fun x _ => by rw [hfreed]).symm
  · intro a ha hm
    have hz : s.trace.count (.assertFailed a) = 0 := List.count_eq_zero.mpr (h.faults a ha)
    rw [← htrace _ (by simp [Event.harmless, ha]), List.count_eq_zero] at hz
    exact hz hm

theorem Deletes.frame {s s' : State} {D : List ℕ} (h : Deletes s D) (hf : Frame s s')
    (hwork : ∀ x, s'.work.count (.delete x) = s.work.count (.delete x))
    (hcounts : ∀ x, Doomed s D x ∨ ¬ Live s x →
      (s'.objects x).count = (s.objects x).count ∧ (s'.objects x).count2 = (s.objects x).count2)
    (htrace : ∀ e : Event, e.harmless = false → s'.trace.count e = s.trace.count e)
    (hdes : ∀ c, (s'.collectors c).destroyed = (s.collectors c).destroyed)
    (hn : s.numCollector ≤ s'.numCollector) : Deletes s' D := by
  apply h.congr hf.objectCount hf.freed _ hwork hcounts htrace hdes hn hf.acidWorldCount
    hf.acidCollectCount
  intro x _ hc ht
  rw [hf.claims, hf.table]
  exact ⟨hc, ht⟩

theorem Settled.congr {s s' : State} {K : Prop} {x : ℕ} (h : Settled s K x)
    (hlive : Live s' x → Live s x)
    (hcount : (s'.objects x).count = (s.objects x).count)
    (hcount2 : (s'.objects x).count2 = (s.objects x).count2)
    (hwhich : (s'.objects x).which = (s.objects x).which)
    (hph : (s'.objects x).phantomized = (s.objects x).phantomized)
    (hcol : K → (s.objects x).collector ≠ none → (s'.objects x).collector ≠ none ∨
      (s.objects x).count (s.objects x).which ≠ 0)
    (hwork : .delete x ∈ s.work → .delete x ∈ s'.work) : Settled s' K x := by
  intro hl hz
  rw [hcount, hwhich] at hz
  obtain ⟨h1, h2⟩ := h (hlive hl) hz
  rw [hcount, hwhich, hph, hcount2]
  refine ⟨h1.imp hwork id, fun hk => ⟨(h2 hk).1, ?_⟩⟩
  rcases (h2 hk).2 with h3 | ⟨h3, h4⟩
  · exact .inl (hwork h3)
  · exact .inr ⟨h3, (hcol hk h4).resolve_right fun hne => hne hz⟩

namespace Sound
variable {s : State} {L : Ledger}

theorem live_of_count (h : Sound s L) {x : ℕ} {b : Bool} (hx : (s.objects x).count b ≠ 0) :
    Live s x := by
  by_contra hn
  exact hx ((h.deletes.dead hn).1 b)

theorem live_of_count2 (h : Sound s L) {x : ℕ} (hx : (s.objects x).count2 ≠ 0) : Live s x := by
  by_contra hn
  exact hx (h.deletes.dead hn).2.1

theorem not_pending_of_count (h : Sound s L) {x : ℕ} {b : Bool}
    (hx : (s.objects x).count b ≠ 0) : ¬ Doomed s L.deleting x :=
  fun hp => hx ((h.deletes.pending hp).2.1 b)

theorem not_pending_of_count2 (h : Sound s L) {x : ℕ} (hx : (s.objects x).count2 ≠ 0) :
    ¬ Doomed s L.deleting x :=
  fun hp => hx (h.deletes.pending hp).2.2

/-- The target of a link that counts is live and not about to be deleted. -/
theorem live_of_link (h : Sound s L) {l : ℕ} (hl : l ∈ L.refs) :
    Live s (s.links l).target ∧ ¬ Doomed s L.deleting (s.links l).target := by
  cases hp : (s.links l).phantomized with
  | false =>
    have hc := (h.balance.count_pos_of_link hl hp).ne'
    exact ⟨h.live_of_count hc, h.not_pending_of_count hc⟩
  | true =>
    have hc := (h.balance.count2_pos_of_link hl hp).ne'
    exact ⟨h.live_of_count2 hc, h.not_pending_of_count2 hc⟩

theorem live_of_curated (h : Sound s L) {x c : ℕ} (hx : (x, c) ∈ L.curated) : Live s x :=
  h.live_of_count2 (h.balance.count2_pos_of_curated hx).ne'

theorem emit (h : Sound s L) {e : Event} (he : e.harmless = true) : Sound (s.emit e) L where
  tables := ⟨h.tables.owned, h.tables.nodup⟩
  refs := h.refs
  collectors := h.collectors.emit (by rintro c rfl; cases he)
  balance := ⟨h.balance.count, h.balance.count2⟩
  classes := h.classes.congr rfl rfl (fun _ => rfl) fun _ _ => rfl
  tasks := h.tasks.congr (fun _ => rfl) rfl fun _ => Iff.rfl
  deletes := h.deletes.frame (emit_frame s e) (fun _ => rfl) (fun _ _ => ⟨rfl, rfl⟩)
    (by
      intro e' he'
      have hne : ¬ e = e' := by
        rintro rfl
        rw [he] at he'
        cases he'
      exact (List.count_cons).trans (by simp [hne]))
    (fun _ => rfl) (le_refl _)
  settled := h.settled
  moved := h.moved

theorem check (h : Sound s L) (p : Prop) [Decidable p] {e : Event} (he : e.harmless = true) :
    Sound (s.check p e) L := by
  unfold State.check
  split_ifs
  · exact h
  · exact h.emit he

/-- Fewer objects need to be settled, and fewer to be kept. -/
theorem weaken (h : Sound s L) {K S : Set ℕ} (hk : K ⊆ L.kept) (hs : S ⊆ L.settled) :
    Sound s { L with kept := K, settled := S } where
  tables := h.tables
  refs := h.refs
  collectors := h.collectors
  balance := h.balance.ledger K S
  classes := ⟨h.classes.listed, h.classes.held, fun hx => h.classes.kept (hk hx),
    fun hl hp hsrc => h.classes.linked hl hp (hk hsrc)⟩
  tasks := h.tasks
  deletes := h.deletes
  settled := fun x hx => h.settled x (hs hx)
  moved := h.moved

theorem settle (h : Sound s L) {S : Set ℕ} (hs : ∀ x ∈ S, x ∈ L.settled ∨ Settled s L.strict x) :
    Sound s { L with settled := S } where
  tables := h.tables
  refs := h.refs
  collectors := h.collectors
  balance := h.balance.ledger L.kept S
  classes := ⟨h.classes.listed, h.classes.held, h.classes.kept, h.classes.linked⟩
  tasks := h.tasks
  deletes := h.deletes
  settled := fun x hx => (hs x hx).elim (h.settled x) id
  moved := h.moved

/-- A change of the counts of one object that leaves the rest of its record alone. -/
theorem recount {f : Object → Object} {x : ℕ} {L' : Ledger} (h : Sound s L)
    (hf : ∀ o, (f o).shape = o.shape) (hcol : ∀ o, (f o).collector = o.collector)
    (hrefs : L'.refs = L.refs) (hcur : ∀ p ∈ L'.curated, p ∈ L.curated)
    (hkept : L'.kept = L.kept) (hdel : L'.deleting = L.deleting)
    (hbal : Balance (s.modifyObject x f) L') (hlive : Live s x) (hp : ¬ Doomed s L.deleting x)
    (hstrict : L'.strict = L.strict) (hbefore : L'.before = L.before)
    (hset : ∀ y ∈ L'.settled, y ≠ x → y ∈ L.settled)
    (hx : x ∈ L'.settled → Settled (s.modifyObject x f) L.strict x) : Sound (s.modifyObject x f) L' := by
  have hframe : Frame s (s.modifyObject x f) := modifyObject_frame s x (hf _)
  have hobj : ∀ y, y ≠ x → (s.modifyObject x f).objects y = s.objects y :=
    fun y hy => s.modifyObject_objects_ne f hy
  have hcols : ∀ y, ((s.modifyObject x f).objects y).collector = (s.objects y).collector := by
    intro y
    rw [s.modifyObject_objects]
    split_ifs with hy
    · rw [hcol, hy]
    · rfl
  have hcl : Classes (s.modifyObject x f) L := h.classes.congr rfl rfl hcols fun _ _ => rfl
  refine ⟨h.tables.frame hframe, ?_, ?_, hbal, ?_, ?_, ?_, ?_, ?_⟩
  · rw [hrefs]
    exact h.refs
  · exact h.collectors.congr rfl rfl rfl hcols
      (fun y _ hy => (hframe.live_iff y).mpr hy) fun _ hm => hm
  · refine ⟨hcl.listed, fun hm => hcl.held (hcur _ hm), ?_, ?_⟩
    · rw [hkept]
      exact hcl.kept
    · rw [hkept, hrefs]
      exact hcl.linked
  · exact h.tasks.congr (fun _ => rfl) rfl fun _ => Iff.rfl
  · rw [hdel]
    refine h.deletes.frame hframe (fun _ => rfl) ?_ (fun _ _ => rfl) (fun _ => rfl) (le_refl _)
    intro y hy
    have hne : y ≠ x := by
      rintro rfl
      exact hy.elim hp fun hn => hn hlive
    rw [hobj y hne]
    exact ⟨rfl, rfl⟩
  · intro y hy
    rw [hstrict]
    by_cases hne : y = x
    · exact hne ▸ hx (hne ▸ hy)
    · have hyo := hobj y hne
      refine (h.settled y (hset y hy hne)).congr ?_ ?_ ?_ ?_ ?_ ?_ id
      · exact (hframe.live_iff y).mp
      · rw [hyo]
      · rw [hyo]
      · rw [hyo]
      · rw [hyo]
      · intro _ hn
        rw [hyo]
        exact .inl hn
  · rw [hbefore]
    exact h.moved

section
variable {x : ℕ} {b : Bool}

theorem giveStrong (h : Sound s L) (hlive : Live s x) (hp : ¬ Doomed s L.deleting x)
    (hset : L.strict → x ∈ L.settled → b = (s.objects x).which ∨
      (s.objects x).count (s.objects x).which ≠ 0) :
    Sound (s.modifyObject x fun o => { o with count := Function.update o.count b (o.count b + 1) })
      { L with strong := (x, b) :: L.strong } := by
  refine h.recount (fun _ => rfl) (fun _ => rfl) rfl (fun _ => id) rfl rfl
    (h.balance.giveStrong x b) hlive hp rfl rfl (fun _ hy _ => hy) ?_
  intro hx _ hz
  have hn := h.balance.count_nonneg x b
  simp only [State.modifyObject_objects_self] at hz ⊢
  by_cases hb : b = (s.objects x).which
  · rw [← hb, Function.update_self] at hz
    omega
  · rw [Function.update_of_ne (Ne.symm hb)] at hz
    obtain ⟨h1, _⟩ := h.settled x hx hlive hz
    exact ⟨h1, fun hk => ((hset hk hx).elim hb fun hne => hne hz).elim⟩

theorem takeStrong (h : Sound s { L with strong := (x, b) :: L.strong }) :
    Sound (s.modifyObject x fun o => { o with count := Function.update o.count b (o.count b - 1) })
      { L with settled := L.settled \ {x} } := by
  have hc := h.balance.count_pos_of_hand.ne'
  exact h.recount (fun _ => rfl) (fun _ => rfl) rfl (fun _ => id) rfl rfl
    ((h.balance.takeStrong x b).ledger _ _) (h.live_of_count hc) (h.not_pending_of_count hc)
    rfl rfl (fun _ hy _ => hy.1) fun hx => absurd rfl hx.2

theorem givePhantom (h : Sound s L) (hlive : Live s x) (hp : ¬ Doomed s L.deleting x) :
    Sound (s.modifyObject x fun o => { o with count2 := o.count2 + 1 })
      { L with phantom := x :: L.phantom } := by
  refine h.recount (fun _ => rfl) (fun _ => rfl) rfl (fun _ => id) rfl rfl
    (h.balance.givePhantom x) hlive hp rfl rfl (fun _ hy _ => hy) ?_
  intro hx _ hz
  simp only [State.modifyObject_objects_self] at hz ⊢
  obtain ⟨h1, h2⟩ := h.settled x hx hlive hz
  refine ⟨h1, fun hk => ⟨(h2 hk).1, (h2 hk).2.imp id ?_⟩⟩
  intro hc
  exact ⟨by omega, hc.2⟩

theorem takePhantom (h : Sound s { L with phantom := x :: L.phantom }) :
    Sound (s.modifyObject x fun o => { o with count2 := o.count2 - 1 })
      { L with settled := L.settled \ {x} } := by
  have hc := h.balance.count2_pos_of_hand.ne'
  exact h.recount (fun _ => rfl) (fun _ => rfl) rfl (fun _ => id) rfl rfl
    ((h.balance.takePhantom x).ledger _ _) (h.live_of_count2 hc) (h.not_pending_of_count2 hc)
    rfl rfl (fun _ hy _ => hy.1) fun hx => absurd rfl hx.2

end
end Sound
end Acid

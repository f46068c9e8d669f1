import Acid.ObjectEffect

set_option autoImplicit false

/-!
# The iterations and the end of `collector_run` keep a state sound
-/
namespace Acid
open PointerForest Tally

namespace Sound
variable {s : State} {L : Ledger}

/-- A task of a collector may move between the queue and the started runs. -/
theorem requeue (h : Sound s L) (ts : List Task) (rs : List (ℕ × Loop))
    (hdel : ∀ x, ts.count (.delete x) = s.work.count (.delete x))
    (hruns : ∀ c, ts.count (.run c) + rs.countP (·.1 = c) = runTasks s c) :
    Sound { s with work := ts, running := rs } L where
  tables := ⟨h.tables.owned, h.tables.nodup⟩
  refs := h.refs
  collectors := h.collectors.congr rfl rfl rfl (fun _ => rfl) (fun _ _ hx => hx) fun _ hm => hm
  balance := ⟨h.balance.count, h.balance.count2⟩
  classes := h.classes.congr rfl rfl (fun _ => rfl) fun _ _ => rfl
  tasks := ⟨fun hc => (hruns _).trans (h.tasks.alive hc), fun hc => (hruns _).trans (h.tasks.dead hc)⟩
  deletes := h.deletes.congr rfl (fun _ => rfl) (fun _ _ hc ht => ⟨hc, ht⟩) hdel
    (fun _ _ => ⟨rfl, rfl⟩) (fun _ _ => rfl) (fun _ => rfl) (le_refl _) rfl rfl
  settled := by
    intro x hx
    refine (h.settled x hx).congr id rfl rfl rfl rfl (fun _ => .inl) fun hm => ?_
    have h1 := List.count_pos_iff.mpr hm
    rw [← hdel] at h1
    exact List.count_pos_iff.mp h1
  moved := h.moved

/-- The entry check. -/
theorem enter (h : Sound s L) {i c : ℕ} (hi : s.work[i]? = some (.run c)) :
    Sound (collectorEnter s i c) L := by
  have hcount := count_eraseIdx hi
  have hdel : ∀ x, (s.work.eraseIdx i).count (.delete x) = s.work.count (.delete x) := by
    intro x
    have h1 := hcount (.delete x)
    rw [if_neg (by simp)] at h1
    exact h1.symm
  unfold collectorEnter
  dsimp only
  split_ifs
  · refine h.requeue (s.work.eraseIdx i ++ [.run c]) _ (fun x => ?_) fun d => ?_
    · rw [List.count_append, hdel]
      simp
    · have h1 := hcount (.run d)
      rw [List.count_append, List.count_singleton, runTasks, h1]
      by_cases hd : d = c
      · simp [hd]
      · simp [hd, Ne.symm hd]
  · refine h.requeue _ (s.running ++ [(c, .merged)]) hdel fun d => ?_
    have h1 := hcount (.run d)
    rw [List.countP_append, List.countP_singleton, runTasks, h1]
    by_cases hd : d = c
    · simp [hd]
      omega
    · simp [hd, Ne.symm hd]

/-- A started run goes on to another loop. -/
theorem proceed (h : Sound s L) {i c : ℕ} {loop next : Loop}
    (hi : s.running[i]? = some (c, loop)) :
    Sound { s with running := s.running.set i (c, next) } L := by
  refine h.requeue s.work _ (fun _ => rfl) fun d => ?_
  obtain ⟨hlt, hget⟩ := List.getElem?_eq_some_iff.mp hi
  have hset := List.countP_set (p := fun r : ℕ × Loop => decide (r.1 = d)) (l := s.running)
    (a := (c, next)) hlt
  rw [hget] at hset
  have hpos : c = d → 0 < s.running.countP fun r => decide (r.1 = d) := by
    intro hd
    exact List.countP_pos_iff.mpr ⟨(c, loop), hget ▸ List.getElem_mem hlt, by simp [hd]⟩
  rw [runTasks, hset]
  by_cases hd : c = d
  · have := hpos hd
    simp [hd] at this ⊢
    omega
  · simp [hd]

end Sound

/-- The phantomized objects. -/
def ghosts (s : State) : Set ℕ := {x | Live s x ∧ (s.objects x).phantomized = true}

/-- What holds references between two steps; with `G` no phantomized object may lose its
collector, and `K` makes the ledger strict. -/
def restLedger (G K : Prop) (s : State) : Ledger where
  refs := tableLinks s
  kept := {x | G ∧ x ∈ ghosts s}
  settled := Set.univ
  strict := K

theorem ghosts_frame {s s' : State} (h : Frame s s') : ghosts s' = ghosts s := by
  ext x
  simp only [ghosts, Set.mem_ofPred_eq, h.live_iff, h.phantomized]

theorem restLedger_frame {s s' : State} (h : Frame s s') (G K : Prop) :
    restLedger G K s' = restLedger G K s := by
  rw [restLedger, restLedger, ghosts_frame h, tableLinks_congr h.graph]

theorem objectPhantomizeNode_graph (s : State) (obj : ℕ) :
    SameGraph s (objectPhantomizeNode s obj) := by
  rcases objectPhantomizeNode_cases s obj with ⟨_, hf⟩ | ⟨_, hf, _⟩
  · exact hf.graph
  · exact (modifyObject_graph s obj rfl rfl).trans hf.graph

theorem objectRecoverNode_graph (s : State) (obj c : ℕ) :
    SameGraph s (objectRecoverNode s obj c) := by
  rcases objectRecoverNode_cases s obj c with ⟨_, hf⟩ | ⟨_, hf, _⟩
  · exact hf.graph
  · exact (modifyObject_graph s obj rfl rfl).trans hf.graph

theorem ghosts_phantomizeNode {s : State} {obj x : ℕ} (hx : x ∈ ghosts (objectPhantomizeNode s obj)) :
    x ∈ ghosts s ∨ (x = obj ∧ (s.objects obj).phantomized = false ∧
      ((objectPhantomizeNode s obj).objects obj).phantomized = true) := by
  obtain ⟨hl, hp⟩ := hx
  rcases objectPhantomizeNode_cases s obj with ⟨_, hf⟩ | ⟨_, hf, _⟩
  · rw [hf.live_iff] at hl
    rw [hf.phantomized] at hp
    exact .inl ⟨hl, hp⟩
  · have hlive : Live s x := by
      refine ⟨hl.1.trans_eq hf.objectCount, ?_⟩
      have hfr := hl.2
      rw [hf.freed, State.modifyObject_objects] at hfr
      split_ifs at hfr with hxo
      · rw [hxo]
        exact hfr
      · exact hfr
    by_cases hxo : x = obj
    · cases hq : (s.objects obj).phantomized with
      | true => exact .inl ⟨hlive, hxo ▸ hq⟩
      | false => exact .inr ⟨hxo, hq ▸ rfl, hxo ▸ hp⟩
    · rw [hf.phantomized, State.modifyObject_objects_ne _ _ hxo] at hp
      exact .inl ⟨hlive, hp⟩

theorem ghosts_recoverNode {s : State} {obj c x : ℕ} (hx : x ∈ ghosts (objectRecoverNode s obj c)) :
    x ∈ ghosts s ∧ (x = obj → ((objectRecoverNode s obj c).objects obj).phantomized = true) := by
  obtain ⟨hl, hp⟩ := hx
  refine ⟨?_, fun hxo => hxo ▸ hp⟩
  rcases objectRecoverNode_cases s obj c with ⟨_, hf⟩ | ⟨_, hf, _⟩
  · rw [hf.live_iff] at hl
    rw [hf.phantomized] at hp
    exact ⟨hl, hp⟩
  · rw [hf.phantomized, State.modifyObject_objects] at hp
    rw [hf.live_iff] at hl
    split_ifs at hp with hxo
    · cases hp
    · refine ⟨⟨hl.1, ?_⟩, hp⟩
      have hfr := hl.2
      rwa [State.modifyObject_objects_ne _ _ hxo] at hfr

/-- The links in tables when one table has been emptied. -/
theorem tableLinks_drop {s s' : State} {obj : ℕ} (h : Tables s)
    (ho : s'.objectCount = s.objectCount) (hl : s'.linkCount = s.linkCount)
    (hne : ∀ o, o ≠ obj → (s'.objects o).links = (s.objects o).links)
    (hobj : (s'.objects obj).links.values = []) :
    tableLinks s' = tableLinks s \ (s.objects obj).links.values.toFinset := by
  ext l
  simp only [tableLinks, Finset.mem_sdiff, Finset.mem_filter, Finset.mem_range, InTable, ho, hl,
    List.mem_toFinset]
  constructor
  · rintro ⟨hlt, o, hlo, hlv⟩
    have hoo : o ≠ obj := by
      rintro rfl
      rw [hobj] at hlv
      cases hlv
    rw [hne o hoo] at hlv
    refine ⟨⟨hlt, o, hlo, hlv⟩, fun hm => hoo ?_⟩
    rw [← (h.owned hlv).2, (h.owned hm).2]
  · rintro ⟨⟨hlt, o, hlo, hlv⟩, hm⟩
    have hoo : o ≠ obj := by
      rintro rfl
      exact hm hlv
    exact ⟨hlt, o, hlo, by rwa [hne o hoo]⟩

theorem tableLinks_cleanNode {s : State} (h : Tables s) (obj : ℕ) :
    tableLinks (objectCleanNode s obj) =
      if ∀ b, (s.objects obj).count b = 0 then
        tableLinks s \ (s.objects obj).links.values.toFinset else tableLinks s := by
  rcases objectCleanNode_cases s obj with ⟨⟨b, hb⟩, hf⟩ | ⟨hz, hf, _⟩
  · rw [if_neg fun hz => hb (hz b), tableLinks_congr hf.graph]
  · rw [if_pos hz]
    apply tableLinks_drop h hf.objectCount hf.linkCount
    · intro o ho
      rw [hf.table, State.modifyObject_objects_ne _ _ ho]
    · rw [hf.table, State.modifyObject_objects_self, HashTable.values]
      simp [emptyRecord]

theorem tableLinks_delete {s : State} (h : Tables s) (obj : ℕ) :
    tableLinks (objectRequestDeleteTaskRun s obj) =
      tableLinks s \ (s.objects obj).links.values.toFinset := by
  obtain ⟨hshape, _, hn, hl, _, _⟩ := objectRequestDeleteTaskRun_effect s obj
  have htable : ∀ o, ((objectRequestDeleteTaskRun s obj).objects o).links =
      ((s.modifyObject obj deletedRecord).objects o).links := by
    intro o
    change (Object.shape _).links = _
    rw [hshape]
    rfl
  apply tableLinks_drop h hn hl
  · intro o ho
    rw [htable, State.modifyObject_objects_ne _ _ ho]
  · rw [htable, State.modifyObject_objects_self, HashTable.values]
    simp [deletedRecord, disownRecord]

theorem ghosts_cleanNode {s : State} {obj x : ℕ} (hx : x ∈ ghosts (objectCleanNode s obj)) :
    x ∈ ghosts s := by
  obtain ⟨hl, hp⟩ := hx
  rcases objectCleanNode_cases s obj with ⟨_, hf⟩ | ⟨_, hf, _⟩
  · rw [hf.live_iff] at hl
    rw [hf.phantomized] at hp
    exact ⟨hl, hp⟩
  · have hall : ∀ y, ((s.modifyObject obj emptyRecord).objects y).freed = (s.objects y).freed ∧
        ((s.modifyObject obj emptyRecord).objects y).phantomized = (s.objects y).phantomized := by
      intro y
      rw [State.modifyObject_objects]
      split_ifs with hy
      · rw [hy]
        exact ⟨rfl, rfl⟩
      · exact ⟨rfl, rfl⟩
    rw [hf.live_iff] at hl
    rw [hf.phantomized, (hall x).2] at hp
    exact ⟨⟨hl.1, (hall x).1 ▸ hl.2⟩, hp⟩

theorem AllSpare.congr {s s' : State} {L L' : Ledger} {ls : List ℕ} (h : AllSpare s L ls)
    (hl : s'.links = s.links) (ho : s'.objects = s.objects)
    (hlist : ∀ y, Listed s y → (∀ b, (s.objects y).count b = 0) ∨ Listed s' y)
    (hk : L'.kept ⊆ L.kept) : AllSpare s' L' ls := by
  unfold AllSpare at *
  rw [hl, ho]
  rcases h with h | h
  · exact .inl fun l hl hp hm => h l hl hp (hk hm)
  · exact .inr fun l hl => ⟨(h l hl).1, fun hm => ((h l hl).2 (hk hm)).elim .inl (hlist _)⟩

/-- What a step must find if phantomized objects are to keep their collectors. -/
def Guarded (s : State) : Action → Prop
  | .set o f _ => ∀ l, (s.objects o).links.get f = some l → (s.links l).phantomized = true →
      (s.links l).target ∈ ghosts s → 2 ≤ (s.objects (s.links l).target).count2
  | .iterate _ c loop => ∀ obj rest, (s.safelist (c, loop.list)).data = obj :: rest →
      match loop with
      | .collect => (s.objects obj).phantomized = false →
          ∀ l ∈ tableLinks s, (s.links l).phantomized = true → (s.links l).src ≠ obj
      | .recovery | .rebuild => 0 < (s.objects obj).count (s.objects obj).which →
          ∀ l ∈ (s.objects obj).links.values, (s.links l).target ∈ ghosts s →
            (s.links l).target ≠ obj → Listed s (s.links l).target
      | .clean => ((∀ b, (s.objects obj).count b = 0) →
          AllSpare s { kept := ghosts s } (s.objects obj).links.values) ∧
          (obj ∈ ghosts s → (∀ b, (s.objects obj).count b = 0) ∨ 2 ≤ (s.objects obj).count2)
      | _ => True
  | .delete _ o => AllSpare s { kept := ghosts s } (s.objects o).links.values
  | _ => True

namespace Sound
variable {s : State} {G K : Prop}

/-- An object with the phantom reference of its collector in hand goes to a list. -/
theorem enlist {u : State} {L : Ledger} {obj c : ℕ} {n : ListName} (hn : n = .recovery ∨ n = .clean)
    (h : Sound u { L with curated := (obj, c) :: L.curated }) : Sound (safelistAdd u (c, n) obj) L := by
  have halive := (h.classes.held (List.mem_cons_self ..)).2
  refine Sound.add (n := n) (w := false) ?_ halive (fun hc => ?_) fun hb => ?_
  · rcases hn with rfl | rfl
    · exact h
    · exact h
  · subst hc
    rcases hn with hn | hn <;> cases hn
  · subst hb
    rcases hn with hn | hn <;> cases hn

theorem restLedger_add {u : State} (G K : Prop) (r : ListRef) (obj : ℕ) :
    restLedger G K (safelistAdd u r obj) = restLedger G K u :=
  restLedger_frame (safelistAdd_frame u r obj) G K

/-- An iteration that polls `obj`; `u` is the state after the poll. -/
theorem loopBody (h : Sound s (restLedger G K s)) {i c : ℕ} {loop : Loop}
    (hi : s.running[i]? = some (c, loop)) (hloop : loop ≠ .exit) {obj : ℕ} {rest : List ℕ}
    (hd : (s.safelist (c, loop.list)).data = obj :: rest)
    (hG : G → Guarded s (.iterate i c loop)) {u : State}
    (hu : u = (safelistPoll s (c, loop.list)).1.check
      (((safelistPoll s (c, loop.list)).1.objects obj).freed = false) (.useAfterFree obj)) :
    Sound (Acid.loopBody u c loop obj) (restLedger G K (Acid.loopBody u c loop obj)) := by
  have hf : Frame s u := by
    rw [hu]
    exact (safelistPoll_frame s _).trans (check_frame _ _ _)
  have hobj : u.objects = s.objects := by
    rw [hu, State.check_objects, (safelistPoll_same s _).objects]
  have hpoll : Sound u ((restLedger G K s).polled loop.list (s.objects obj).which obj c) := by
    rw [hu]
    exact (h.poll hd rfl).check _ rfl
  have hlisted : ∀ y, Listed s y → y ≠ obj → Listed u y := by
    rintro y ⟨r, hr, hm⟩ hne
    refine ⟨r, hr, ?_⟩
    rw [hu, State.safelist, State.check_collectors]
    exact safelistPoll_mem hd hm hne
  have hruns : 0 < runTasks u c := by
    refine lt_of_lt_of_le ?_ (hf.link.runTasks_le c)
    have hm := List.mem_of_getElem? hi
    have hp : 0 < s.running.countP fun p => p.1 = c :=
      List.countP_pos_iff.mpr ⟨(c, loop), hm, by simp⟩
    exact Nat.add_pos_right _ hp
  have hL := restLedger_frame hf G K
  have hrefs : ∀ l ∈ (u.objects obj).links.values, l ∈ (restLedger G K s).refs := by
    intro l hl
    rw [hobj] at hl
    exact h.mem_tableLinks.mpr ⟨obj, hl⟩
  cases loop with
  | merged =>
    unfold Acid.loopBody
    dsimp only
    rw [restLedger_add, hL]
    exact Sound.enlist (.inl rfl) hpoll
  | collect =>
    unfold Acid.loopBody
    dsimp only
    rw [restLedger_add]
    apply Sound.enlist (.inl rfl)
    have hgraph := tableLinks_congr (hf.graph.trans (objectPhantomizeNode_graph u obj))
    have hrest : ({ restLedger G K (objectPhantomizeNode u obj) with
        curated := (obj, c) :: (restLedger G K (objectPhantomizeNode u obj)).curated } : Ledger) =
        { restLedger G K s with
          curated := (obj, c) :: (restLedger G K s).curated
          kept := {x | G ∧ x ∈ ghosts (objectPhantomizeNode u obj)} } := by
      simp only [restLedger, hgraph]
    rw [hrest]
    apply Sound.phantomizeNode (L := restLedger G K s)
    · rw [hobj]
      exact hpoll
    · exact hrefs
    · intro hk hp
      rw [hobj] at hp
      rw [hf.links]
      exact hG hk.1 obj rest hd hp
    · intro x hx
      rcases ghosts_phantomizeNode hx.2 with hx' | hx'
      · left
        have hgh : x ∈ (restLedger G K u).kept := ⟨hx.1, hx'⟩
        rwa [hL] at hgh
      · exact .inr hx'
  | recovery =>
    unfold Acid.loopBody
    dsimp only
    rw [restLedger_add]
    apply Sound.enlist (.inr rfl)
    have hgraph := tableLinks_congr (hf.graph.trans (objectRecoverNode_graph u obj c))
    have hrest : ({ restLedger G K (objectRecoverNode u obj c) with
        curated := (obj, c) :: (restLedger G K (objectRecoverNode u obj c)).curated } : Ledger) =
        { restLedger G K s with
          curated := (obj, c) :: (restLedger G K s).curated
          kept := {x | G ∧ x ∈ ghosts (objectRecoverNode u obj c)} } := by
      simp only [restLedger, hgraph]
    rw [hrest]
    apply Sound.recoverNode (L := { restLedger G K s with
      curated := (obj, c) :: (restLedger G K s).curated }) hpoll hrefs hruns
    · rw [hobj, hf.links]
      intro hpos l hl hk hne
      exact hlisted _ (hG hk.1 obj rest hd hpos l hl hk.2 hne) hne
    · intro x hx
      obtain ⟨hx', hxo⟩ := ghosts_recoverNode hx.2
      have hgh : x ∈ (restLedger G K u).kept := ⟨hx.1, hx'⟩
      rw [hL] at hgh
      exact ⟨hgh, hxo⟩
    · rfl
  | rebuild =>
    unfold Acid.loopBody
    dsimp only
    have hgraph := tableLinks_congr (hf.graph.trans (objectRecoverNode_graph u obj c))
    have hrest : restLedger G K (objectRecoverNode u obj c) =
        { restLedger G K s with kept := {x | G ∧ x ∈ ghosts (objectRecoverNode u obj c)} } := by
      simp only [restLedger, hgraph]
    rw [hrest]
    apply Sound.recoverNode (L := restLedger G K s) hpoll hrefs hruns
    · rw [hobj, hf.links]
      intro hpos l hl hk hne
      exact hlisted _ (hG hk.1 obj rest hd hpos l hl hk.2 hne) hne
    · intro x hx
      obtain ⟨hx', hxo⟩ := ghosts_recoverNode hx.2
      have hgh : x ∈ (restLedger G K u).kept := ⟨hx.1, hx'⟩
      rw [hL] at hgh
      exact ⟨hgh, hxo⟩
    · rfl
  | clean =>
    unfold Acid.loopBody
    dsimp only
    have hspare : (∀ b, (u.objects obj).count b = 0) →
        AllSpare u (restLedger G K s) (u.objects obj).links.values := by
      intro hz
      by_cases hg : G
      · rw [hobj] at hz ⊢
        refine ((hG hg obj rest hd).1 hz).congr hf.links hobj (fun y hy => ?_) fun _ hx => hx.2
        by_cases hyo : y = obj
        · rw [hyo]
          exact .inl hz
        · exact .inr (hlisted y hy hyo)
      · left
        intro l _ _ hk
        exact hg hk.1
    have hkept : obj ∈ (restLedger G K s).kept →
        (∀ b, (u.objects obj).count b = 0) ∨ 2 ≤ (u.objects obj).count2 := by
      intro hk
      rw [hobj]
      exact (hG hk.1 obj rest hd).2 hk.2
    have hclean := Sound.cleanNode (L := restLedger G K s) hpoll hrefs hspare hkept
    have htables : (if ∀ b, (u.objects obj).count b = 0 then
        (restLedger G K s).refs \ (u.objects obj).links.values.toFinset else
        (restLedger G K s).refs) = tableLinks (objectCleanNode u obj) := by
      rw [tableLinks_cleanNode (h.tables.frame hf) obj, tableLinks_congr hf.graph]
      rfl
    rw [htables] at hclean
    refine hclean.weaken (fun x hx => ?_) fun _ hx => hx
    have hgh : x ∈ (restLedger G K u).kept := ⟨hx.1, ghosts_cleanNode hx.2⟩
    rwa [hL] at hgh
  | exit => exact absurd rfl hloop

end Sound
end Acid

import Acid.Sound

set_option autoImplicit false

/-!
# Collector pointers, lists and merges keep a state sound
-/
namespace Acid
open PointerForest Tally

/-- The ledger after `o` is polled from the list `n` of `c`; `w` is its side. -/
def Ledger.polled (L : Ledger) (n : ListName) (w : Bool) (o c : ℕ) : Ledger :=
  { L with
    strong := if n = .collect then (o, w) :: L.strong else L.strong
    curated := if n = .rebuild then L.curated else (o, c) :: L.curated }

theorem layout_eq {s s' : State} (hn : s'.numCollector = s.numCollector)
    (hf : s'.forward = s.forward) (hd : ∀ r, (s'.safelist r).data = (s.safelist r).data) :
    layout s' = layout s := by
  have hdata : (fun r => (s'.safelist r).data) = fun r => (s.safelist r).data := funext hd
  have hroot : collectorUpdate s' = collectorUpdate s := funext (collectorUpdate_congr hn hf)
  rw [layout, hdata, hroot]
  rfl

theorem layout_congr {s s' : State} (hn : s'.numCollector = s.numCollector)
    (hc : s'.collectors = s.collectors) : layout s' = layout s := by
  apply layout_eq hn (forward_eq_of_collectors hc)
  intro r
  rw [State.safelist, hc, State.safelist]

theorem layout_push (s : State) (r : ListRef) (o : ℕ) :
    layout (safelistPush s r o) = (layout s).push r o := by
  have hroot : collectorUpdate (safelistPush s r o) = collectorUpdate s := by
    have hforward : (safelistPush s r o).forward = s.forward := by
      funext b
      rw [State.forward, safelistPush_eq, State.modifyCollector_collectors]
      split_ifs with hb
      · rw [hb]
        rfl
      · rfl
    funext a
    exact collectorUpdate_congr (by rw [safelistPush_eq]; rfl) hforward a
  have hdata : (fun q => ((safelistPush s r o).safelist q).data) =
      Function.update (fun q => (s.safelist q).data) r ((s.safelist r).data ++ [o]) := by
    funext q
    have hstore : ∀ p, (counterIncStore s r.1).safelist p = s.safelist p := by
      intro p
      rw [State.safelist, counterIncStore, State.modifyCollector_collectors]
      split_ifs with hp
      · rw [State.safelist, hp]
      · rfl
    rw [safelistPush, State.modifySafelist_safelist, hstore, hstore, Function.update_apply]
    split_ifs <;> rfl
  rw [layout, hroot, hdata]
  rfl

namespace Sound
variable {s s' : State} {L L' : Ledger}

/-- What is left to show for an operation that counts nothing and queues nothing. -/
theorem quiet (h : Sound s L) (hf : Frame s s') (hwork : s'.work = s.work)
    (hcount : ∀ x, (s'.objects x).count = (s.objects x).count)
    (hcount2 : ∀ x, (s'.objects x).count2 = (s.objects x).count2)
    (htrace : s'.trace = s.trace) (hn : s'.numCollector = s.numCollector)
    (hdes : ∀ c, (s'.collectors c).destroyed = (s.collectors c).destroyed)
    (hrefs : L'.refs = L.refs) (hset : L'.settled = L.settled)
    (hdel : L'.deleting = L.deleting) (hstrict : L'.strict = L.strict)
    (hcol : L.strict → ∀ x ∈ L.settled, (s.objects x).collector ≠ none →
      (s'.objects x).collector ≠ none ∨ (s.objects x).count (s.objects x).which ≠ 0)
    (hcs : Collectors s') (hbal : Balance s' L') (hcl : Classes s' L')
    (hmoved : ∀ d ∈ L'.before, Moves d (layout s')) : Sound s' L' := by
  have halive : ∀ c, Alive s' c ↔ Alive s c := fun c => by rw [Alive, Alive, hn, hdes]
  refine ⟨h.tables.frame hf, ?_, hcs, hbal, hcl, ?_, ?_, ?_, hmoved⟩
  · rw [hrefs, hf.linkCount]
    exact h.refs
  · exact h.tasks.congr (fun _ => by rw [hwork]) hf.running halive
  · rw [hdel]
    exact h.deletes.frame hf (fun _ => by rw [hwork]) (fun x _ => ⟨hcount x, hcount2 x⟩)
      (fun _ _ => by rw [htrace]) hdes (le_of_eq hn.symm)
  · intro x hx
    rw [hset] at hx
    rw [hstrict]
    refine (h.settled x hx).congr (hf.live_iff x).mp (hcount x) (hcount2 x) (hf.which x)
      (hf.phantomized x) (fun hk => hcol hk x hx) ?_
    rw [hwork]
    exact id

/-- A collector pointer may be set, moved inside its class, or cleared when nothing
curates the object. -/
theorem setCollector (h : Sound s L) {x : ℕ} {c : Option ℕ} (hx : c ≠ none → Live s x)
    (hc : ∀ d, c = some d → Alive s d)
    (hclass : ∀ d, (s.objects x).collector = some d →
      (∃ e, c = some e ∧ collectorUpdate s e = collectorUpdate s d) ∨
      (c = none ∧ (s.objects x).count2 = 0))
    (hkept : c = none → x ∉ L.kept)
    (hset : L.strict → c = none → x ∈ L.settled → (s.objects x).count (s.objects x).which ≠ 0) :
    Sound (objectSetCollector s x c) L := by
  have hframe := objectSetCollector_frame s x c
  have hcs := h.collectors.setCollector hx hc
  rw [objectSetCollector_eq h.collectors] at hframe hcs ⊢
  have hobj : ∀ y, y ≠ x → Function.update s.objects x { s.objects x with collector := c } y =
      s.objects y := fun y hy => Function.update_of_ne hy _ _
  have hin : ∀ {y a}, InClass s y a → (y ≠ x ∨ (s.objects x).count2 ≠ 0 ∨ c ≠ none) →
      InClass { s with
        objects := Function.update s.objects x { s.objects x with collector := c }
        collectors := fun d =>
          { s.collectors d with
            refCount := (s.collectors d).refCount + (if c = some d then 1 else 0) -
              (if (s.objects x).collector = some d then 1 else 0) } } y a := by
    intro y a hi hy
    obtain ⟨d, hd, hda⟩ := hi
    by_cases hyx : y = x
    · subst y
      rcases hclass d hd with ⟨e, rfl, he⟩ | ⟨hn, hz⟩
      · exact ⟨e, by simp, he.trans hda⟩
      · rcases hy with hy | hy | hy
        · exact absurd rfl hy
        · exact absurd hz hy
        · exact absurd hn hy
    · refine ⟨d, ?_, hda⟩
      dsimp only
      rw [hobj y hyx]
      exact hd
  refine h.quiet hframe rfl ?_ ?_ rfl rfl (fun _ => rfl) rfl rfl rfl rfl ?_ hcs ?_ ?_ h.moved
  · intro y
    by_cases hy : y = x
    · subst y; simp
    · dsimp only; rw [hobj y hy]
  · intro y
    by_cases hy : y = x
    · subst y; simp
    · dsimp only; rw [hobj y hy]
  · intro hk y hy hn
    by_cases hyx : y = x
    · subst y
      cases c with
      | none => exact .inr (hset hk rfl hy)
      | some d => exact .inl (by simp)
    · dsimp only
      rw [hobj y hyx]
      exact .inl hn
  · refine h.balance.congr ?_ ?_ ?_ (fun _ _ => ⟨rfl, rfl, rfl⟩) rfl (fun _ => rfl) fun _ => rfl
    · intro y
      by_cases hy : y = x
      · subst y; simp
      · dsimp only; rw [hobj y hy]
    · intro y
      by_cases hy : y = x
      · subst y; simp
      · dsimp only; rw [hobj y hy]
    · intro y
      by_cases hy : y = x
      · subst y; simp
      · dsimp only; rw [hobj y hy]
  · have hz : ∀ y, (s.objects y).count2 ≠ 0 → y ≠ x ∨ (s.objects x).count2 ≠ 0 ∨ c ≠ none := by
      intro y hy
      by_cases hyx : y = x
      · exact .inr (.inl (hyx ▸ hy))
      · exact .inl hyx
    refine ⟨?_, ?_, ?_, ?_⟩
    · intro r y hr hy
      have hi := h.classes.listed hr hy
      have hrn := (h.collectors.root_of_mem hy).2.1
      have hcur := curation_pos hrn hr hy
      have h1 : 0 ≤ phantomRefs s L.refs y := tally_nonneg _ _
      have h2 := h.balance.count2 y
      exact hin hi (hz y (by omega))
    · intro y a hy
      obtain ⟨hi, ha⟩ := h.classes.held hy
      exact ⟨hin hi (hz y (h.balance.count2_pos_of_curated hy).ne'), ha⟩
    · intro y hy
      by_cases hyx : y = x
      · subst y
        cases c with
        | none => exact absurd hy (hkept rfl)
        | some d => simp
      · dsimp only
        rw [hobj y hyx]
        exact h.classes.kept hy
    · intro l hl hp hs
      obtain ⟨a, h1, h2⟩ := h.classes.linked hl hp hs
      refine ⟨a, hin h1 ?_, hin h2 (hz _ (h.balance.count2_pos_of_link hl hp).ne')⟩
      by_cases hsx : (s.links l).src = x
      · right; right
        intro hn
        exact hkept hn (hsx ▸ hs)
      · exact .inl hsx

end Sound

theorem Balance.polled {s : State} {L : Ledger} (h : Balance s L) {c : ℕ} {n : ListName} {o : ℕ}
    {rest : List ℕ} (hc : c < s.numCollector) (hd : (s.safelist (c, n)).data = o :: rest) :
    Balance (s.modifyCollector c fun k => k.setData n rest)
      (L.polled n (s.objects o).which o c) := by
  have hocc := occurrences_setData s hc n
  refine h.transfer rfl (fun _ _ => ⟨rfl, rfl, rfl⟩) ?_ ?_
  · intro x b
    have hx := hocc .collect rest x
    have hobj : (s.modifyCollector c fun k => k.setData n rest).objects = s.objects := rfl
    have hcl : (s.modifyCollector c fun k => k.setData n rest).claims = s.claims := rfl
    simp only [hd, List.count_cons] at hx
    simp only [sideRefs, Ledger.polled, hobj, hcl, hx]
    cases n with
    | collect =>
      by_cases hox : o = x
      · subst hox
        by_cases hb : b = (s.objects o).which
        · simp [hb]
          ring
        · simp [hb, Ne.symm hb]
      · simp [hox]
    | merged => simp
    | recovery => simp
    | rebuild => simp
    | clean => simp
  · intro x
    have hobj : (s.modifyCollector c fun k => k.setData n rest).objects = s.objects := rfl
    simp only [curation, hocc, hd, List.count_cons, Ledger.polled, hobj]
    by_cases hox : o = x
    · cases n <;> simp [hox] <;> ring
    · cases n <;> simp [hox]

/-- An addition lands in its own list or in the one this is routed to. -/
theorem Balance.added {s : State} {L : Ledger} {c d : ℕ} {n m : ListName} {w : Bool} {o : ℕ}
    (h : Balance s (L.polled n w o c)) (hd : d < s.numCollector) (hm : m = n ∨ m = route n)
    (hw : n = .collect → w = (s.objects o).which) : Balance (safelistPush s (d, m) o) L := by
  have hocc := fun n' x => occurrences_push s (r := (d, m)) hd n' o x
  have hobj : (safelistPush s (d, m) o).objects = s.objects := rfl
  have hcl : (safelistPush s (d, m) o).claims = s.claims := rfl
  refine h.transfer rfl (fun _ _ => ⟨rfl, rfl, rfl⟩) ?_ ?_
  · intro x b
    simp only [sideRefs, hobj, hcl, hocc, Ledger.polled]
    cases n with
    | collect =>
      have hmc : m = .collect := by simpa [route] using hm
      have hw' := hw rfl
      subst hmc hw'
      by_cases hox : o = x
      · subst hox
        by_cases hb : b = (s.objects o).which
        · simp [hb]
          ring
        · simp [hb, Ne.symm hb]
      · simp [hox]
    | merged =>
      have hmc : m = .merged := by simpa [route] using hm
      simp [hmc]
    | recovery => rcases hm with rfl | rfl <;> simp [route]
    | rebuild =>
      have hmc : m = .rebuild := by simpa [route] using hm
      simp [hmc]
    | clean => rcases hm with rfl | rfl <;> simp [route]
  · intro x
    simp only [curation, hocc, hobj, Ledger.polled]
    by_cases hox : o = x
    · cases n <;> rcases hm with rfl | rfl <;> simp [hox, route] <;> ring
    · cases n <;> simp [hox]

namespace Sound
variable {s : State} {L : Ledger}

theorem poll (h : Sound s L) {r : ListRef} {o : ℕ} {rest : List ℕ}
    (hd : (s.safelist r).data = o :: rest) (hb : L.before = none) :
    Sound (safelistPoll s r).1 (L.polled r.2 (s.objects o).which o r.1) := by
  have hmem : o ∈ (s.safelist r).data := by simp [hd]
  obtain ⟨hroot, halive⟩ := h.collectors.root_of_mem hmem
  have hcs := h.collectors.poll r
  have hframe := safelistPoll_frame s r
  rw [safelistPoll_eq (h.collectors.store r.1) hd] at hcs hframe ⊢
  dsimp only at hcs hframe ⊢
  have hf : (s.modifyCollector r.1 fun k => k.setData r.2 rest).forward = s.forward := by
    funext a
    by_cases ha : a = r.1
    · subst ha; simp [State.forward, State.modifyCollector, Collector.setData]
    · simp [State.forward, State.modifyCollector, ha]
  have hdes : ∀ a, ((s.modifyCollector r.1 fun k => k.setData r.2 rest).collectors a).destroyed =
      (s.collectors a).destroyed := by
    intro a
    by_cases ha : a = r.1
    · subst ha; simp [State.modifyCollector, Collector.setData]
    · simp [State.modifyCollector, ha]
  have hal : ∀ a, Alive (s.modifyCollector r.1 fun k => k.setData r.2 rest) a ↔ Alive s a := by
    intro a
    rw [Alive, Alive, hdes]
    exact Iff.rfl
  have hin : ∀ {y a}, InClass s y a →
      InClass (s.modifyCollector r.1 fun k => k.setData r.2 rest) y a :=
    fun hi => hi.congr rfl hf rfl
  refine h.quiet hframe rfl (fun _ => rfl) (fun _ => rfl) rfl rfl hdes rfl rfl rfl rfl
    (fun _ _ _ hn => .inl hn) hcs (h.balance.polled halive.1 hd) ?_ fun d hm => by
      rw [Ledger.polled, hb] at hm
      cases hm
  refine ⟨?_, ?_, fun hy => h.classes.kept hy, ?_⟩
  · intro q y hq hy
    refine hin (h.classes.listed hq ?_)
    by_cases hqr : q = r
    · subst hqr
      have hy' : y ∈ rest := by
        simpa [State.safelist, State.modifyCollector, Collector.setData] using hy
      rw [hd]
      exact List.mem_cons_of_mem _ hy'
    · have hsame : ((s.modifyCollector r.1 fun k => k.setData r.2 rest).safelist q).data =
          (s.safelist q).data := by
        by_cases h1 : q.1 = r.1
        · have h2 : q.2 ≠ r.2 := fun h2 => hqr (Prod.ext h1 h2)
          simp [State.safelist, State.modifyCollector, Collector.setData, h1, h2]
        · simp [State.safelist, State.modifyCollector, h1]
      rwa [hsame] at hy
  · intro y a hy
    unfold Ledger.polled at hy
    by_cases hn : r.2 = .rebuild
    · rw [if_pos hn] at hy
      exact ⟨hin (h.classes.held hy).1, (hal a).mpr (h.classes.held hy).2⟩
    · rw [if_neg hn] at hy
      rcases List.mem_cons.mp hy with hy | hy
      · cases hy
        exact ⟨hin (h.classes.listed hn hmem), (hal _).mpr halive⟩
      · exact ⟨hin (h.classes.held hy).1, (hal a).mpr (h.classes.held hy).2⟩
  · intro l hl hp hs
    obtain ⟨a, h1, h2⟩ := h.classes.linked hl hp hs
    exact ⟨a, hin h1, hin h2⟩

theorem add {c o : ℕ} {n : ListName} {w : Bool} (h : Sound s (L.polled n w o c))
    (halive : Alive s c) (hw : n = .collect → w = (s.objects o).which)
    (hb : n = .rebuild → L.before = none) : Sound (safelistAdd s (c, n) o) L := by
  have hcs := h.collectors.add (r := (c, n)) o halive
  have hframe := safelistAdd_frame s (c, n) o
  have hroot := h.collectors.update_isRoot c
  have hra := h.collectors.update_alive halive
  rw [h.collectors.safelistAdd_eq] at hcs hframe ⊢
  dsimp only at hcs hframe ⊢
  generalize hmdef : (if s.forward c = none then n else route n) = m at hcs hframe ⊢
  have hm : m = n ∨ m = route n := by
    rw [← hmdef]
    split_ifs
    · exact .inl rfl
    · exact .inr rfl
  have hpush := safelistPush_eq s (collectorUpdate s c, m) o
  have hf : (safelistPush s (collectorUpdate s c, m) o).forward = s.forward := by
    funext a
    rw [hpush]
    by_cases ha : a = collectorUpdate s c
    · simp [State.forward, State.modifyCollector, Collector.setData, ha]
    · simp [State.forward, State.modifyCollector, ha]
  have hdes : ∀ a, ((safelistPush s (collectorUpdate s c, m) o).collectors a).destroyed =
      (s.collectors a).destroyed := by
    intro a
    rw [hpush]
    by_cases ha : a = collectorUpdate s c
    · simp [State.modifyCollector, Collector.setData, ha]
    · simp [State.modifyCollector, ha]
  have hal : ∀ a, Alive (safelistPush s (collectorUpdate s c, m) o) a ↔ Alive s a := by
    intro a
    rw [Alive, Alive, hdes]
    exact Iff.rfl
  have hin : ∀ {y a}, InClass s y a → InClass (safelistPush s (collectorUpdate s c, m) o) y a :=
    fun hi => hi.congr rfl hf rfl
  have hmoved : ∀ d ∈ L.before, Moves d (layout (safelistPush s (collectorUpdate s c, m) o)) := by
    intro d hd
    have hn : n ≠ .rebuild := by
      rintro rfl
      rw [hb rfl] at hd
      cases hd
    have hmn : m ≠ .rebuild := by
      rcases hm with rfl | rfl
      · exact hn
      · cases n <;> simp_all [route]
    rw [layout_push]
    exact (h.moved d hd).push o hmn (h.collectors.update_idem c)
  refine h.quiet hframe rfl (fun _ => rfl) (fun _ => rfl) rfl rfl hdes rfl rfl rfl rfl
    (fun _ _ _ hn => .inl hn) hcs (h.balance.added hra.1 hm hw) ?_ hmoved
  refine ⟨?_, ?_, fun hy => h.classes.kept hy, ?_⟩
  · intro q y hq hy
    have hcase : y ∈ (s.safelist q).data ∨ (q = (collectorUpdate s c, m) ∧ y = o) := by
      rw [hpush] at hy
      by_cases h1 : q.1 = collectorUpdate s c
      · by_cases h2 : q.2 = m
        · have hy' : y ∈ (s.safelist q).data ∨ y = o := by
            simpa [State.safelist, State.modifyCollector, Collector.setData, h1, h2] using hy
          exact hy'.imp id fun h3 => ⟨Prod.ext h1 h2, h3⟩
        · left
          simpa [State.safelist, State.modifyCollector, Collector.setData, h1, h2] using hy
      · left
        simpa [State.safelist, State.modifyCollector, h1] using hy
    rcases hcase with hy | ⟨rfl, rfl⟩
    · exact hin (h.classes.listed hq hy)
    · have hn : n ≠ .rebuild := by
        rintro rfl
        exact hq (by simpa [route] using hm)
      have hheld := (h.classes.held (x := y) (c := c) (by simp [Ledger.polled, hn])).1
      obtain ⟨d, hd, hdc⟩ := hheld
      refine hin ⟨d, hd, ?_⟩
      rw [hdc, h.collectors.update_idem]
  · intro y a hy
    have hy' : (y, a) ∈ (L.polled n w o c).curated := by
      unfold Ledger.polled
      dsimp only
      split_ifs
      · exact hy
      · exact List.mem_cons_of_mem _ hy
    exact ⟨hin (h.classes.held hy').1, (hal a).mpr (h.classes.held hy').2⟩
  · intro l hl hp hs
    obtain ⟨a, h1, h2⟩ := h.classes.linked hl hp hs
    exact ⟨a, hin h1, hin h2⟩

end Sound
end Acid

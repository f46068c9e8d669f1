import Acid.SoundTasks

set_option autoImplicit false

/-!
# The end of a collector keeps a state sound
-/
namespace Acid
open PointerForest Tally

/-- The state without the collector `c`. -/
def retire (s : State) (c : ℕ) : State :=
  collectorDestroy (collectorTerminate s c) c

namespace Collectors
variable {s : State} (h : Collectors s)
include h

theorem follower_pos {a d : ℕ} (had : s.forward a = some d) : 0 < (s.collectors d).refCount := by
  have hp : 0 < followers s d := tally_pos (Finset.mem_range.mpr (h.forward_alive had).1.1) had
  have hh : 0 ≤ holders s d := tally_nonneg _ _
  rw [h.ref]
  omega

theorem retire_eq (c : ℕ) :
    retire s c =
      { s with
        collectors := Function.update (fun e =>
            { s.collectors e with
              refCount := (s.collectors e).refCount - if s.forward c = some e then 1 else 0 }) c
          { s.collectors c with
            refCount := (s.collectors c).refCount - if s.forward c = some c then 1 else 0
            lists := fun _ => {}
            forward := none
            destroyed := true }
        trace := .collectorDestroy c :: s.trace } := by
  have hter : collectorTerminate s c =
      { s with
        collectors := Function.update (fun e =>
            { s.collectors e with
              refCount := (s.collectors e).refCount - if s.forward c = some e then 1 else 0 }) c
          { s.collectors c with
            refCount := (s.collectors c).refCount - if s.forward c = some c then 1 else 0
            forward := none } } := by
    unfold collectorTerminate collectorSetForward
    by_cases hf : none = s.forward c
    · have hn : (s.collectors c).forward = none := hf.symm
      have hsame : ({ s.collectors c with forward := none } : Collector) = s.collectors c := by
        rw [← hn]
      rw [if_pos hf, ← hf]
      simp [hsame]
    · rw [if_neg hf, counterRepoint_eq fun d hd => h.follower_pos hd]
      simp [State.modifyCollector]
  rw [retire, hter]
  simp [collectorDestroy, State.modifyCollector, State.emit]

theorem retire_forward (c : ℕ) : (retire s c).forward = Function.update s.forward c none := by
  funext a
  rw [State.forward, h.retire_eq]
  by_cases ha : a = c
  · simp [ha]
  · simp [ha, State.forward]

theorem retire_alive (c a : ℕ) : Alive (retire s c) a ↔ Alive s a ∧ a ≠ c := by
  rw [Alive, Alive, h.retire_eq]
  by_cases ha : a = c
  · simp [ha]
  · simp [ha]

variable {c : ℕ} (hdone : counterDone s c = true)
include hdone

/-- Nothing refers to a collector whose counters are zero, and it holds nothing. -/
theorem unused : (∀ x, (s.objects x).collector ≠ some c) ∧ (∀ a, s.forward a ≠ some c) ∧
    ∀ n, (s.safelist (c, n)).data = [] := by
  simp only [counterDone, Bool.and_eq_true, decide_eq_true_eq] at hdone
  have hh : 0 ≤ holders s c := tally_nonneg _ _
  have hf : 0 ≤ followers s c := tally_nonneg _ _
  have href := h.ref c
  refine ⟨fun x hx => ?_, fun a ha => ?_, fun n => ?_⟩
  · have := h.holder_pos hx
    omega
  · have := h.follower_pos ha
    omega
  · have hst := h.store c
    rw [Collector.Stored, hdone.2] at hst
    have hle := (s.collectors c).length_le_stored n
    have hz : ((s.collectors c).lists n).data.length = 0 := by omega
    exact List.length_eq_zero_iff.mp hz

theorem retire_update {a : ℕ} (ha : a ≠ c) : collectorUpdate (retire s c) a = collectorUpdate s a := by
  have hn : (retire s c).numCollector = s.numCollector := by rw [h.retire_eq]
  unfold collectorUpdate
  rw [h.retire_forward c, hn]
  exact root_unlink h.ranked h.bound (h.unused hdone).2.1 ha

theorem retire_safelist (r : ListRef) : ((retire s c).safelist r).data = (s.safelist r).data := by
  have hempty := (h.unused hdone).2.2
  rw [State.safelist, h.retire_eq]
  by_cases hr : r.1 = c
  · have := hempty r.2
    rw [← hr] at this
    simp [hr, this]
  · simp [hr, State.safelist]

theorem retire : Collectors (Acid.retire s c) := by
  have hf := h.retire_forward c
  have hal := h.retire_alive c
  have hlist := h.retire_safelist hdone
  obtain ⟨hno, hnf, hempty⟩ := h.unused hdone
  have hobj : (Acid.retire s c).objects = s.objects := by rw [h.retire_eq]
  have hcol : ∀ e, (Acid.retire s c).collectors e = if e = c then
      { s.collectors c with
        refCount := (s.collectors c).refCount - if s.forward c = some c then 1 else 0
        lists := fun _ => {}
        forward := none
        destroyed := true }
      else { s.collectors e with
        refCount := (s.collectors e).refCount - if s.forward c = some e then 1 else 0 } := by
    intro e
    rw [h.retire_eq]
    simp [Function.update_apply]
  refine ⟨hf ▸ h.ranked.unlink c, ?_, ?_, ?_, ?_, ?_, ?_, ?_⟩
  · intro a b hab
    rw [hf, Function.update_apply] at hab
    split_ifs at hab with hac
    obtain ⟨h1, h2⟩ := h.forward_alive hab
    refine ⟨(hal a).mpr ⟨h1, hac⟩, (hal b).mpr ⟨h2, ?_⟩⟩
    rintro rfl
    exact hnf a hab
  · intro x d hx
    rw [hobj] at hx
    obtain ⟨h1, h2⟩ := h.object_alive hx
    refine ⟨?_, (hal d).mpr ⟨h2, ?_⟩⟩
    · rw [h.retire_eq]
      exact h1
    · rintro rfl
      exact hno x hx
  · intro r
    rw [hf, State.listForward, State.safelist, hcol, Function.update_apply]
    by_cases hr : r.1 = c
    · rw [if_pos hr, if_pos hr]
      rfl
    · rw [if_neg hr, if_neg hr]
      exact h.lists r
  · intro r hr
    rw [hlist]
    by_cases hrc : r.1 = c
    · have := hempty r.2
      rwa [← hrc] at this
    · apply h.empty
      rw [hf, Function.update_of_ne hrc, hal] at hr
      exact hr.imp id fun hn ha => hn ⟨ha, hrc⟩
  · intro d
    have hh : holders (Acid.retire s c) d = holders s d := by
      apply holders_congr
      · rw [h.retire_eq]
      · intro x
        rw [hobj]
    have hfol : followers (Acid.retire s c) d =
        followers s d - if s.forward c = some d then 1 else 0 := by
      have hn : (Acid.retire s c).numCollector = s.numCollector := by rw [h.retire_eq]
      unfold followers
      rw [hn, hf]
      by_cases hc : c < s.numCollector
      · have hch := tally_change (S := Finset.range s.numCollector) (i := c)
          (p := fun a => s.forward a = some d)
          (q := fun a => Function.update s.forward c none a = some d)
          (Finset.mem_range.mpr hc) (by intro a ha; rw [Function.update_of_ne ha])
        rw [hch]
        simp
      · have hnone : s.forward c = none := by
          cases hfc : s.forward c with
          | none => rfl
          | some e => exact absurd (h.forward_alive hfc).1.1 hc
        rw [← hnone, Function.update_eq_self, hnone]
        simp
    rw [hh, hfol, hcol]
    have href := h.ref d
    by_cases hd : d = c
    · subst d
      rw [if_pos rfl]
      dsimp only
      omega
    · rw [if_neg hd]
      dsimp only
      omega
  · intro d
    rw [hcol]
    by_cases hd : d = c
    · rw [if_pos hd]
      simp only [counterDone, Bool.and_eq_true, decide_eq_true_eq] at hdone
      simp [Collector.Stored, Collector.stored, hdone.2]
    · rw [if_neg hd]
      exact h.store d
  · intro d hm
    rw [h.retire_eq] at hm
    rcases List.mem_cons.mp hm with hm | hm
    · cases hm
    · exact h.counted d hm

end Collectors

namespace Sound
variable {s : State} {L : Ledger}

theorem countP_eraseIdx {rs : List (ℕ × Loop)} {i c : ℕ} {loop : Loop}
    (hi : rs[i]? = some (c, loop)) (d : ℕ) :
    rs.countP (·.1 = d) = (rs.eraseIdx i).countP (·.1 = d) + if d = c then 1 else 0 := by
  obtain ⟨hlt, hget⟩ := List.getElem?_eq_some_iff.mp hi
  have hp := (List.getElem_cons_eraseIdx_perm hlt).countP_eq (fun r : ℕ × Loop => decide (r.1 = d))
  rw [hget, List.countP_cons] at hp
  rw [← hp]
  by_cases hd : d = c
  · simp [hd]
  · simp [hd, Ne.symm hd]

/-- A finished run is taken off, and its collector with it. -/
theorem retire (h : Sound s L) {i c : ℕ} (hi : s.running[i]? = some (c, .exit))
    (hdone : counterDone s c = true) (hcur : L.curated = []) (hbefore : L.before = none) :
    Sound { Acid.retire s c with running := s.running.eraseIdx i } L := by
  have hcount := countP_eraseIdx hi
  have hrun : 0 < runTasks s c := by
    have := hcount c
    rw [if_pos rfl] at this
    unfold runTasks
    omega
  have hac := h.alive_of_runs hrun
  obtain ⟨hno, hnf, hempty⟩ := h.collectors.unused hdone
  have hcs := h.collectors.retire hdone
  have heq := h.collectors.retire_eq c
  have hal := h.collectors.retire_alive c
  have hlist := h.collectors.retire_safelist hdone
  have hup := fun a ha => h.collectors.retire_update hdone (a := a) ha
  have hobj : (Acid.retire s c).objects = s.objects := by rw [heq]
  have hlinks : (Acid.retire s c).links = s.links := by rw [heq]
  have hnc : (Acid.retire s c).numCollector = s.numCollector := by rw [heq]
  have hwork : (Acid.retire s c).work = s.work := by rw [heq]
  have htrace : (Acid.retire s c).trace = .collectorDestroy c :: s.trace := by rw [heq]
  have hcollector : ∀ e, ((Acid.retire s c).collectors e).destroyed =
      if e = c then true else (s.collectors e).destroyed := by
    intro e
    rw [heq]
    by_cases he : e = c
    · simp [he]
    · simp [he]
  have hrest : (Acid.retire s c).objectCount = s.objectCount ∧
      (Acid.retire s c).linkCount = s.linkCount ∧ (Acid.retire s c).claims = s.claims ∧
      (Acid.retire s c).acidWorldCount = s.acidWorldCount ∧
      (Acid.retire s c).acidCollectCount = s.acidCollectCount := by
    rw [heq]
    exact ⟨rfl, rfl, rfl, rfl, rfl⟩
  have hin : ∀ {y a}, InClass s y a → a ≠ c → InClass (Acid.retire s c) y a := by
    rintro y a ⟨d, hd, hda⟩ ha
    have hdc : d ≠ c := by
      rintro rfl
      exact hno y hd
    refine ⟨d, by rw [hobj]; exact hd, ?_⟩
    rw [hup d hdc, hup a ha, hda]
  generalize Acid.retire s c = s' at *
  obtain ⟨hn, hlc, hclaims, hworld, hcollect⟩ := hrest
  have hocc : ∀ n x, occurrences s' n x = occurrences s n x :=
    fun n x => occurrences_congr hnc hlist n x
  have hlive : ∀ x, Live s' x ↔ Live s x := fun x => by rw [Live, Live, hobj, hn]
  have hother : ∀ e : Event, e ≠ .collectorDestroy c → s'.trace.count e = s.trace.count e := by
    intro e he
    rw [htrace, List.count_cons_of_ne (Ne.symm he)]
  constructor
  · constructor
    · intro o l hl
      change l ∈ (s'.objects o).links.values at hl
      rw [hobj] at hl
      change l < s'.linkCount ∧ (s'.links l).src = o
      rw [hlc, hlinks]
      exact h.tables.owned hl
    · intro o
      change (s'.objects o).links.values.Nodup
      rw [hobj]
      exact h.tables.nodup o
  · intro l hl
    change l < s'.linkCount
    rw [hlc]
    exact h.refs l hl
  · exact hcs.congr rfl rfl rfl (fun _ => rfl) (fun _ _ hx => hx) fun _ hm => hm
  · refine h.balance.congr (fun x => by rw [← hobj]) (fun x => by rw [← hobj])
      (fun x => by rw [← hobj]) (fun l _ => by rw [← hlinks]; exact ⟨rfl, rfl, rfl⟩) hclaims
      (hocc _) fun x => ?_
    have h1 := hocc .collect x
    have h2 := hocc .merged x
    have h3 := hocc .recovery x
    have h4 := hocc .clean x
    change occurrences s' _ x + occurrences s' _ x + occurrences s' _ x + occurrences s' _ x = _
    rw [h1, h2, h3, h4]
    rfl
  · have hcl : Classes s' L := by
      refine ⟨?_, ?_, ?_, ?_⟩
      · intro r x hr hx
        rw [hlist] at hx
        refine hin (h.classes.listed hr hx) fun hrc => ?_
        have := hempty r.2
        rw [← hrc] at this
        rw [this] at hx
        cases hx
      · intro x a hx
        rw [hcur] at hx
        cases hx
      · intro x hx
        rw [hobj]
        exact h.classes.kept hx
      · intro l hl hp hs
        rw [hlinks] at hp hs ⊢
        obtain ⟨a, ⟨d, hd, hda⟩, h2⟩ := h.classes.linked hl hp hs
        have hdc : d ≠ c := by
          rintro rfl
          exact hno _ hd
        refine ⟨d, hin (inClass_self hd) hdc, hin ?_ hdc⟩
        obtain ⟨e, he, hea⟩ := h2
        exact ⟨e, he, hea.trans hda.symm⟩
    exact hcl.congr rfl rfl (fun _ => rfl) fun _ _ => rfl
  · have hruns : ∀ d, runTasks { s' with running := s.running.eraseIdx i } d +
        (if d = c then 1 else 0) = runTasks s d := by
      intro d
      have h1 := hcount d
      change s'.work.count _ + (s.running.eraseIdx i).countP _ + _ = _
      rw [hwork, runTasks]
      omega
    have halive : ∀ d, Alive { s' with running := s.running.eraseIdx i } d ↔ Alive s d ∧ d ≠ c :=
      hal
    constructor
    · intro d hd
      obtain ⟨h1, h2⟩ := (halive d).mp hd
      have h3 := hruns d
      rw [if_neg h2, h.tasks.alive h1] at h3
      exact h3
    · intro d hd
      have h3 := hruns d
      rw [halive, not_and_or, not_not] at hd
      rcases hd with hd | rfl
      · rw [h.tasks.dead hd] at h3
        exact (Nat.add_eq_zero_iff.mp h3).1
      · rw [if_pos rfl, h.tasks.alive hac] at h3
        exact Nat.succ_injective h3
  · have hd : Deletes s' L.deleting := by
      refine ⟨?_, ?_, ?_, ?_, ?_, ?_, ?_, ?_, ?_, ?_, ?_⟩
      · intro x hx
        rw [doomed_congr hwork] at hx
        rw [hlive, hobj]
        exact h.deletes.pending hx
      · intro x
        rw [hwork]
        exact h.deletes.once x
      · intro x hx
        rw [hlive] at hx
        rw [hobj, hclaims]
        exact h.deletes.dead hx
      · intro x hx
        rw [hobj] at hx
        rw [hn]
        exact h.deletes.freed_lt hx
      · intro x
        rw [hother _ (by simp), hwork, hobj]
        exact h.deletes.requested x
      · intro x
        rw [hother _ (by simp), hobj]
        exact h.deletes.dtors x
      · intro e
        rw [hcollector]
        have hde := h.deletes.destroyed e
        by_cases he : e = c
        · subst e
          rw [hac.2] at hde
          rw [htrace, List.count_cons_self, hde]
          simp
        · rw [hother _ (by simpa using he), if_neg he]
          exact hde
      · intro e he
        rw [hcollector] at he
        rw [hnc]
        split_ifs at he with hec
        · exact hec ▸ hac.1
        · exact h.deletes.destroyed_lt he
      · rw [hworld, hn]
        exact h.deletes.world
      · rw [hcollect, hn, hobj]
        exact h.deletes.collected
      · intro a ha hm
        rw [htrace, List.mem_cons] at hm
        exact h.deletes.faults a ha (hm.resolve_left (by simp))
    exact hd.congr rfl (fun _ => rfl) (fun _ _ hc ht => ⟨hc, ht⟩) (fun _ => rfl)
      (fun _ _ => ⟨rfl, rfl⟩) (fun _ _ => rfl) (fun _ => rfl) (le_refl _) rfl rfl
  · intro x hx
    refine (h.settled x hx).congr (hlive x).mp ?_ ?_ ?_ ?_ ?_ ?_
    · rw [← hobj]
    · rw [← hobj]
    · rw [← hobj]
    · rw [← hobj]
    · intro _ hcn
      rw [← hobj] at hcn
      exact .inl hcn
    · rw [← hwork]
      exact id
  · intro d hd
    rw [hbefore] at hd
    cases hd

end Sound
end Acid

import Acid.SoundCollectors

set_option autoImplicit false

/-!
# Merging collectors and counting references keep a state sound
-/
namespace Acid
open PointerForest Tally

theorem Collectors.forest {s : State} (h : Collectors s) : Forest s :=
  ⟨h.ranked, h.bound, fun _ _ hx => (h.object_alive hx).2.1⟩

theorem objectSetCollector_addTask (s : State) (x : ℕ) (c : Option ℕ) (t : Task) :
    objectSetCollector (s.addTask t) x c = (objectSetCollector s x c).addTask t := by
  have hcheck : ∀ (u : State) (p : Prop) [Decidable p] (e : Event),
      (u.addTask t).check p e = (u.check p e).addTask t := by
    intro u p _ e
    unfold State.check
    split_ifs <;> rfl
  have hinc : ∀ (u : State) (d : ℕ), counterIncRef (u.addTask t) d = (counterIncRef u d).addTask t :=
    fun _ _ => rfl
  have hdec : ∀ (u : State) (d : ℕ), counterDecRef (u.addTask t) d =
      (counterDecRef u d).addTask t := by
    intro u d
    unfold counterDecRef
    rw [show (u.addTask t).collectors = u.collectors from rfl, hcheck]
    rfl
  have hrep : ∀ old new, counterRepoint (s.addTask t) old new =
      (counterRepoint s old new).addTask t := by
    intro old new
    cases new <;> cases old
    · rfl
    · exact hdec s _
    · exact hinc s _
    · unfold counterRepoint
      dsimp only
      rw [hinc, hdec]
  unfold objectSetCollector
  rw [show (s.addTask t).objects = s.objects from rfl, hrep]
  split_ifs <;> rfl

theorem Collectors.layout_merge {s : State} (h : Collectors s) {t c : ℕ} (ht : s.forward t = none)
    (hc : s.forward c = none) (hne : c ≠ t) (hat : Alive s t) :
    layout (collectorMerge s t c) = (layout s).merge t c := by
  have hdata : (fun r => ((collectorMerge s t c).safelist r).data) =
      ((layout s).merge t c).data := by
    rw [h.merge_eq ht hc hne]
    funext ⟨a, n⟩
    rw [State.safelist]
    by_cases hac : a = c
    · subst a
      rw [putCollectors_source hne]
      simp [Layout.merge, Collector.ceded]
    · by_cases hat : a = t
      · subst a
        rw [putCollectors_dest]
        cases n <;> simp [Layout.merge, Layout.ceded, layout, Collector.gained, State.safelist, hac]
      · simp [Layout.merge, layout, State.putCollectors, State.modifyCollector, State.safelist, hac, hat]
  have hroot : collectorUpdate (collectorMerge s t c) = ((layout s).merge t c).root :=
    funext fun a => h.merge_update ht hc hne hat a
  rw [layout, hdata, hroot]

theorem Collectors.layout_create {s : State} (h : Collectors s) :
    layout (collectorCreate s).1 = layout s := by
  have hdata : (fun r => ((collectorCreate s).1.safelist r).data) = fun r => (s.safelist r).data := by
    funext r
    rw [State.safelist, State.safelist]
    by_cases hr : r.1 = s.numCollector
    · have hnil : (s.safelist r).data = [] := by
        refine List.eq_nil_iff_forall_not_mem.mpr fun x hx => ?_
        have hlt := (h.root_of_mem hx).2.1
        omega
      rw [← State.safelist, ← State.safelist, hnil]
      simp [State.safelist, collectorCreate, hr]
    · simp [collectorCreate, hr]
  have hroot : collectorUpdate (collectorCreate s).1 = collectorUpdate s := funext h.create_update
  rw [layout, hdata, hroot]
  rfl

namespace Sound
variable {s : State} {L : Ledger}

section
variable {t c : ℕ} (ht : s.forward t = none) (hc : s.forward c = none) (hne : c ≠ t)
  (hat : Alive s t) (hac : Alive s c)
include ht hc hne hat hac

theorem merge (h : Sound s L) : Sound (collectorMerge s t c) L := by
  have hcs := h.collectors.merge ht hc hne hat hac
  have heq := h.collectors.merge_eq ht hc hne
  have hal := h.collectors.merge_alive ht hc hne
  obtain ⟨hobj, hn, _⟩ := collectorMerge_rest s t c
  have hup := h.collectors.merge_update ht hc hne hat
  have hin : ∀ {y a}, InClass s y a → InClass (collectorMerge s t c) y a := by
    rintro y a ⟨d, hd, hda⟩
    refine ⟨d, by rw [hobj]; exact hd, ?_⟩
    rw [hup, hup, hda]
  have hwork : (collectorMerge s t c).work = s.work := by rw [heq]; rfl
  have htrace : (collectorMerge s t c).trace = s.trace := by rw [heq]; rfl
  have hlinks : (collectorMerge s t c).links = s.links := (collectorMerge_frame s t c).links
  have hclaims : (collectorMerge s t c).claims = s.claims := (collectorMerge_frame s t c).claims
  have hdes : ∀ a, ((collectorMerge s t c).collectors a).destroyed = (s.collectors a).destroyed := by
    intro a
    rw [heq]
    by_cases hac : a = c
    · subst a
      rw [putCollectors_source hne]
      rfl
    · by_cases hat : a = t
      · subst a
        rw [putCollectors_dest]
        rfl
      · simp [State.putCollectors, State.modifyCollector, hac, hat]
  have hmoved : ∀ d ∈ L.before, Moves d (layout (collectorMerge s t c)) := by
    intro d hd
    rw [h.collectors.layout_merge ht hc hne hat]
    exact (h.moved d hd).merge (collectorUpdate_of_root ht) (collectorUpdate_of_root hc) hne
  refine h.quiet (collectorMerge_frame s t c) hwork (fun y => by rw [hobj]) (fun y => by rw [hobj])
    htrace hn hdes rfl rfl rfl rfl (fun _ y _ hy => .inl (by rw [hobj]; exact hy)) hcs ?_ ?_ hmoved
  · exact h.balance.congr (fun y => by rw [hobj]) (fun y => by rw [hobj]) (fun y => by rw [hobj])
      (fun l _ => by rw [hlinks]; exact ⟨rfl, rfl, rfl⟩) hclaims
      (h.collectors.occurrences_merge_collect ht hc hne hat hac)
      (h.collectors.curation_merge ht hc hne hat hac)
  · refine ⟨?_, ?_, ?_, ?_⟩
    · intro r y hr hy
      have hct : collectorUpdate (collectorMerge s t c) c = t := by
        rw [hup, collectorUpdate_of_root hc, if_pos rfl]
      have htt : collectorUpdate (collectorMerge s t c) t = t := by
        rw [hup, collectorUpdate_of_root ht, if_neg (Ne.symm hne)]
      have hmoved : ∀ {y}, InClass s y c → InClass (collectorMerge s t c) y t := by
        intro y hi
        obtain ⟨d, hd, hda⟩ := hin hi
        exact ⟨d, hd, by rw [hda, hct, htt]⟩
      rw [heq, State.safelist] at hy
      by_cases hrc : r.1 = c
      · rw [hrc, putCollectors_source hne] at hy
        simp [Collector.ceded] at hy
      · by_cases hrt : r.1 = t
        · rw [hrt, putCollectors_dest] at hy
          rw [hrt]
          obtain ⟨a, n⟩ := r
          have hfrom : ∀ m, m ≠ .rebuild → y ∈ ((s.collectors t).lists m).data →
              InClass (collectorMerge s t c) y t :=
            fun m hm hy => hin (h.classes.listed (r := (t, m)) hm hy)
          have hmove : ∀ m, m ≠ .rebuild → y ∈ ((s.collectors c).lists m).data →
              InClass (collectorMerge s t c) y t :=
            fun m hm hy => hmoved (h.classes.listed (r := (c, m)) hm hy)
          cases n with
          | collect =>
            rcases List.mem_append.mp hy with hy | hy
            · exact hfrom .collect (by decide) hy
            · exact hmove .collect (by decide) hy
          | merged =>
            rcases List.mem_append.mp hy with hy | hy
            · rcases List.mem_append.mp hy with hy | hy
              · rcases List.mem_append.mp hy with hy | hy
                · exact hfrom .merged (by decide) hy
                · exact hmove .merged (by decide) hy
              · exact hmove .clean (by decide) hy
            · exact hmove .recovery (by decide) hy
          | rebuild => exact absurd rfl hr
          | recovery => exact hfrom .recovery (by decide) hy
          | clean => exact hfrom .clean (by decide) hy
        · refine hin (h.classes.listed hr ?_)
          simpa [State.safelist, State.putCollectors, State.modifyCollector, hrc, hrt] using hy
    · intro y a hy
      exact ⟨hin (h.classes.held hy).1, (hal a).mpr (h.classes.held hy).2⟩
    · intro y hy
      rw [hobj]
      exact h.classes.kept hy
    · intro l hl hp hs
      rw [hlinks] at hp hs ⊢
      obtain ⟨a, h1, h2⟩ := h.classes.linked hl hp hs
      exact ⟨a, hin h1, hin h2⟩

end

theorem alive_of_collector (h : Sound s L) {x c : ℕ} (hx : (s.objects x).collector = some c) :
    Alive s c :=
  (h.collectors.object_alive hx).2

/-- A collector pointer that moves inside its class, or is set where there was none. -/
theorem assign (h : Sound s L) {x c : ℕ} (hx : Live s x) (hc : Alive s c)
    (hclass : ∀ d, (s.objects x).collector = some d →
      collectorUpdate s c = collectorUpdate s d) : Sound (objectSetCollector s x (some c)) L := by
  refine h.setCollector (fun _ => hx) ?_ ?_ ?_ ?_
  · intro d hd
    exact Option.some.inj hd ▸ hc
  · intro d hd
    exact .inl ⟨c, rfl, hclass d hd⟩
  · intro hn
    cases hn
  · intro _ hn
    cases hn

theorem mergeCollectors (h : Sound s L) {obj target : ℕ} (ho : Live s obj) (ht : Live s target) :
    Sound (objectMergeCollectors s obj target).1 L := by
  have hout := h.collectors.forest.outcome obj target
  generalize objectMergeCollectors s obj target = p at hout
  cases hout with
  | neither => exact h
  | equal => exact h
  | @given c hoc htc =>
    exact h.assign ht (h.alive_of_collector hoc) fun d hd => by rw [htc] at hd; cases hd
  | @taken t hoc htc =>
    exact h.assign ho (h.alive_of_collector htc) fun d hd => by rw [hoc] at hd; cases hd
  | @found c t d hoc htc _ hd he =>
    have had : Alive s d := hd ▸ h.collectors.update_alive (h.alive_of_collector htc)
    have hdd : collectorUpdate s d = d := by
      rw [← hd]
      exact h.collectors.update_idem t
    have h1 : Sound (objectSetCollector s target (some d)) L := by
      refine h.assign ht had fun e hx => ?_
      rw [htc] at hx
      rw [← Option.some.inj hx, hdd, hd]
    have hf := objectSetCollector_frame s target (some d)
    have hr := (objectSetCollector_rest s target (some d)).1
    have hup : ∀ a, collectorUpdate (objectSetCollector s target (some d)) a =
        collectorUpdate s a :=
      fun a => collectorUpdate_congr hr (objectSetCollector_forward s target (some d)) a
    refine h1.assign ((hf.live_iff obj).mpr ho) ?_ fun e hx => ?_
    · have hcol := h1.collectors.object_alive (x := target) (c := d)
        (by rw [objectSetCollector_collector, if_pos rfl])
      exact hcol.2
    · rw [objectSetCollector_collector] at hx
      rw [hup, hup]
      split_ifs at hx
      · rw [Option.some.inj hx]
      · rw [hoc] at hx
        rw [← Option.some.inj hx, hdd, he]
  | @merged c t d e hoc htc _ hd he hne =>
    have had : Alive s d := hd ▸ h.collectors.update_alive (h.alive_of_collector htc)
    have hae : Alive s e := he ▸ h.collectors.update_alive (h.alive_of_collector hoc)
    have hdr : s.forward d = none := hd ▸ h.collectors.update_isRoot t
    have her : s.forward e = none := he ▸ h.collectors.update_isRoot c
    have hm := h.merge hdr her hne had hae
    have hmf := collectorMerge_frame s d e
    have hmo := (collectorMerge_rest s d e).1
    have hmu := h.collectors.merge_update hdr her hne had
    have hmd : collectorUpdate (collectorMerge s d e) d = d := by
      rw [hmu, collectorUpdate_of_root hdr, if_neg (Ne.symm hne)]
    have had' := (h.collectors.merge_alive hdr her hne d).mpr had
    have h1 : Sound (objectSetCollector (collectorMerge s d e) target (some d)) L := by
      refine hm.assign ((hmf.live_iff target).mpr ht) had' fun a hx => ?_
      rw [hmo, htc] at hx
      rw [← Option.some.inj hx, hmd, hmu, hd, if_neg (Ne.symm hne)]
    have hf := objectSetCollector_frame (collectorMerge s d e) target (some d)
    have hr := (objectSetCollector_rest (collectorMerge s d e) target (some d)).1
    have hup : ∀ a, collectorUpdate (objectSetCollector (collectorMerge s d e) target (some d)) a =
        collectorUpdate (collectorMerge s d e) a :=
      fun a => collectorUpdate_congr hr (objectSetCollector_forward _ target (some d)) a
    refine h1.assign ((hf.live_iff obj).mpr ((hmf.live_iff obj).mpr ho)) ?_ fun a hx => ?_
    · exact (h1.collectors.object_alive (x := target) (c := d)
        (by rw [objectSetCollector_collector, if_pos rfl])).2
    · rw [objectSetCollector_collector] at hx
      rw [hup, hup]
      split_ifs at hx
      · rw [Option.some.inj hx]
      · rw [hmo, hoc] at hx
        rw [← Option.some.inj hx, hmd, hmu, he, if_pos rfl]

/-- After a merge both objects are in one class, if either had a collector. -/
theorem merged_class (h : Sound s L) {obj target : ℕ}
    (hc : (s.objects obj).collector ≠ none ∨ (s.objects target).collector ≠ none) :
    ∃ c, InClass (objectMergeCollectors s obj target).1 obj c ∧
      InClass (objectMergeCollectors s obj target).1 target c := by
  obtain ⟨hne, heq⟩ := (h.collectors.forest.unites obj target).assigned hc
  obtain ⟨c, hc⟩ := Option.ne_none_iff_exists'.mp hne
  exact ⟨c, inClass_self hc, inClass_self (heq ▸ hc)⟩

theorem updateCollector (h : Sound s L) {x : ℕ} : Sound (objectUpdateCollector s x) L := by
  unfold objectUpdateCollector
  cases hx : (s.objects x).collector with
  | none => exact h.emit rfl
  | some c =>
    refine h.assign (h.collectors.object_alive hx).1
      (h.collectors.update_alive (h.alive_of_collector hx)) fun d hd => ?_
    rw [hx] at hd
    rw [← Option.some.inj hd, h.collectors.update_idem]

theorem requestDelete (h : Sound s L) {x : ℕ} (hx : Live s x) (hp : ¬ Doomed s L.deleting x)
    (hc : ∀ b, (s.objects x).count b = 0) (hc2 : (s.objects x).count2 = 0) :
    Sound (objectRequestDelete s x) L := by
  have hwork : (objectRequestDelete s x).work = s.work ++ [.delete x] := rfl
  have htrace : (objectRequestDelete s x).trace = .requestDelete x :: s.trace := rfl
  have hcount : ∀ t, (objectRequestDelete s x).work.count t =
      s.work.count t + if t = .delete x then 1 else 0 := by
    intro t
    rw [hwork, List.count_append, List.count_singleton]
    by_cases ht : t = .delete x
    · simp [ht]
    · have ht' : ¬ Task.delete x = t := fun e => ht e.symm
      simp [ht, ht']
  have hzero : s.work.count (.delete x) = 0 := List.count_eq_zero.mpr fun hm => hp (.inl hm)
  have hnot : L.deleting.count x = 0 := List.count_eq_zero.mpr fun hm => hp (.inr hm)
  have hother : ∀ e : Event, e ≠ .requestDelete x →
      (objectRequestDelete s x).trace.count e = s.trace.count e := by
    intro e he
    rw [htrace, List.count_cons_of_ne (Ne.symm he)]
  refine ⟨⟨h.tables.owned, h.tables.nodup⟩, h.refs, ?_, ⟨h.balance.count, h.balance.count2⟩,
    ?_, ?_, ?_, ?_, h.moved⟩
  · refine h.collectors.congr rfl rfl rfl (fun _ => rfl) (fun _ _ hl => hl) ?_
    intro c hm
    rw [htrace, List.mem_cons] at hm
    exact hm.resolve_left (by simp)
  · exact h.classes.congr rfl rfl (fun _ => rfl) fun _ _ => rfl
  · refine h.tasks.congr (fun c => ?_) rfl fun _ => Iff.rfl
    rw [hcount]
    simp
  · refine ⟨?_, ?_, h.deletes.dead, h.deletes.freed_lt, ?_, ?_, ?_, h.deletes.destroyed_lt,
      h.deletes.world, h.deletes.collected, ?_⟩
    · intro y hy
      rw [Doomed, hwork, List.mem_append, List.mem_singleton] at hy
      rcases hy with (hy | hy) | hy
      · exact h.deletes.pending (.inl hy)
      · cases hy
        exact ⟨hx, hc, hc2⟩
      · exact h.deletes.pending (.inr hy)
    · intro y
      rw [hcount]
      by_cases hy : y = x
      · subst hy
        simp [hzero, hnot]
      · have := h.deletes.once y
        simpa [hy] using this
    · intro y
      have hreq := h.deletes.requested y
      by_cases hy : y = x
      · subst hy
        rw [hcount, htrace, List.count_cons_self, if_pos rfl]
        change _ = _ + _ + if (s.objects y).freed = true then 1 else 0
        omega
      · rw [hcount, hother _ (by simpa using hy), if_neg (by simpa using hy)]
        exact hreq
    · intro y
      rw [hother _ (by simp)]
      exact h.deletes.dtors y
    · intro c
      rw [hother _ (by simp)]
      exact h.deletes.destroyed c
    · intro a ha hm
      rw [htrace, List.mem_cons] at hm
      exact h.deletes.faults a ha (hm.resolve_left (by simp))
  · intro y hy
    refine (h.settled y hy).congr id rfl rfl rfl rfl (fun _ => .inl) fun hm => ?_
    rw [hwork]
    exact List.mem_append_left _ hm

/-- A new collector together with its task. -/
theorem create (h : Sound s L) :
    Sound ((collectorCreate s).1.addTask (.run s.numCollector)) L := by
  have hwork : ((collectorCreate s).1.addTask (.run s.numCollector)).work =
      s.work ++ [.run s.numCollector] := rfl
  have hcs := h.collectors.create
  have hup := h.collectors.create_update
  have hin : ∀ {y a}, InClass s y a → InClass (collectorCreate s).1 y a := by
    rintro y a ⟨d, hd, hda⟩
    exact ⟨d, hd, by rw [hup, hup, hda]⟩
  have hnew : ∀ d, (collectorCreate s).1.collectors d =
      if d = s.numCollector then {} else s.collectors d := by
    intro d
    simp [collectorCreate, Function.update_apply]
  have hcount : ∀ t : Task, (s.work ++ [Task.run s.numCollector]).count t =
      s.work.count t + if t = .run s.numCollector then 1 else 0 := by
    intro t
    rw [List.count_append, List.count_singleton]
    by_cases ht : t = .run s.numCollector
    · simp [ht]
    · have ht' : ¬ Task.run s.numCollector = t := fun e => ht e.symm
      simp [ht, ht']
  have hnot : ¬ Alive s s.numCollector := fun ha => Nat.lt_irrefl _ ha.1
  have hlist : ∀ r, ((collectorCreate s).1.safelist r).data ⊆ (s.safelist r).data := by
    intro r
    rw [State.safelist, hnew]
    split_ifs
    · exact List.nil_subset _
    · exact List.Subset.refl _
  have hmoved : ∀ d ∈ L.before, Moves d (layout (collectorCreate s).1) := by
    intro d hd
    rw [h.collectors.layout_create]
    exact h.moved d hd
  refine ⟨⟨h.tables.owned, h.tables.nodup⟩, h.refs, ?_, ?_, ?_, ?_, ?_, ?_, hmoved⟩
  · exact hcs.congr rfl rfl rfl (fun _ => rfl) (fun _ _ hl => hl) fun _ hm => hm
  · have hocc : ∀ n x, occurrences ((collectorCreate s).1.addTask (.run s.numCollector)) n x =
        occurrences s n x := fun n x => occurrences_create s n x
    refine h.balance.congr (fun _ => rfl) (fun _ => rfl) (fun _ => rfl)
      (fun _ _ => ⟨rfl, rfl, rfl⟩) rfl (fun x => hocc _ x) fun x => ?_
    unfold curation
    rw [hocc, hocc, hocc, hocc]
  · refine ⟨?_, ?_, h.classes.kept, ?_⟩
    · intro r y hr hy
      exact hin (h.classes.listed hr (hlist r hy))
    · intro y a hy
      exact ⟨hin (h.classes.held hy).1, collectorCreate_alive (h.classes.held hy).2⟩
    · intro l hl hp hs
      obtain ⟨a, h1, h2⟩ := h.classes.linked hl hp hs
      exact ⟨a, hin h1, hin h2⟩
  · have hruns : ∀ c, runTasks ((collectorCreate s).1.addTask (.run s.numCollector)) c =
        runTasks s c + if c = s.numCollector then 1 else 0 := by
      intro c
      have := hcount (.run c)
      unfold runTasks
      rw [hwork, this]
      change _ + s.running.countP (fun p => p.1 = c) = _
      simp only [Task.run.injEq]
      omega
    constructor
    · intro c hc
      rw [hruns]
      by_cases hcn : c = s.numCollector
      · rw [if_pos hcn, hcn, h.tasks.dead hnot]
      · have hac : Alive s c := by
          refine ⟨?_, ?_⟩
          · have h1 : c < s.numCollector + 1 := hc.1
            omega
          · have h2 : ((collectorCreate s).1.collectors c).destroyed = false := hc.2
            rwa [hnew, if_neg hcn] at h2
        rw [if_neg hcn, h.tasks.alive hac]
    · intro c hc
      have hcn : c ≠ s.numCollector := by
        rintro rfl
        refine hc ⟨Nat.lt_succ_self _, ?_⟩
        change ((collectorCreate s).1.collectors _).destroyed = false
        rw [hnew, if_pos rfl]
      rw [hruns, if_neg hcn, h.tasks.dead fun ha => hc (collectorCreate_alive ha)]
  · refine h.deletes.frame ((collectorCreate_frame s).trans (addTask_frame _ _)) (fun x => ?_)
      (fun _ _ => ⟨rfl, rfl⟩) (fun _ _ => rfl) (fun c => ?_) (Nat.le_succ _)
    · rw [hwork, hcount]
      simp
    · change ((collectorCreate s).1.collectors c).destroyed = _
      rw [hnew]
      split_ifs with hc
      · cases hdes : (s.collectors c).destroyed with
        | false => rfl
        | true =>
          have := h.deletes.destroyed_lt hdes
          omega
      · rfl
  · intro y hy
    refine (h.settled y hy).congr id rfl rfl rfl rfl (fun _ => .inl) fun hm => ?_
    rw [hwork]
    exact List.mem_append_left _ hm

theorem ensureCollector (h : Sound s L) {x : ℕ} (hx : Live s x) :
    Sound (objectEnsureCollector s x) L := by
  unfold objectEnsureCollector
  cases hc : (s.objects x).collector with
  | some c => exact h
  | none =>
    dsimp only
    have hnew : Alive ((collectorCreate s).1.addTask (.run s.numCollector)) s.numCollector := by
      refine ⟨Nat.lt_succ_self _, ?_⟩
      change ((collectorCreate s).1.collectors s.numCollector).destroyed = false
      simp [collectorCreate]
    rw [show (collectorCreate s).2 = s.numCollector from rfl, ← objectSetCollector_addTask]
    refine h.create.assign hx hnew fun d hd => ?_
    have hd' : (s.objects x).collector = some d := hd
    rw [hc] at hd'
    cases hd'

theorem ensureCollector_collector (s : State) (x : ℕ) :
    ∃ c, ((objectEnsureCollector s x).objects x).collector = some c := by
  unfold objectEnsureCollector
  cases hc : (s.objects x).collector with
  | some c => exact ⟨c, hc⟩
  | none =>
    refine ⟨s.numCollector, ?_⟩
    change ((objectSetCollector (collectorCreate s).1 x (some s.numCollector)).objects x).collector
      = _
    rw [objectSetCollector_collector, if_pos rfl]

/-- A phantom reference in hand may be held for a collector of the object's class. -/
theorem curate {x c : ℕ} (h : Sound s { L with phantom := x :: L.phantom })
    (hin : InClass s x c) (hc : Alive s c) :
    Sound s { L with curated := (x, c) :: L.curated } where
  tables := h.tables
  refs := h.refs
  collectors := h.collectors
  balance := by
    refine h.balance.transfer rfl (fun _ _ => ⟨rfl, rfl, rfl⟩) (fun _ _ => rfl) fun y => ?_
    by_cases hy : y = x
    · subst hy
      simp only [List.map_cons, List.count_cons_self]
      push_cast
      ring
    · simp [Ne.symm hy]
  classes := by
    refine ⟨h.classes.listed, ?_, h.classes.kept, h.classes.linked⟩
    intro y a hy
    rcases List.mem_cons.mp hy with hy | hy
    · cases hy
      exact ⟨hin, hc⟩
    · exact h.classes.held hy
  tasks := h.tasks
  deletes := h.deletes
  settled := h.settled
  moved := h.moved

theorem uncurate {x c : ℕ} (h : Sound s { L with curated := (x, c) :: L.curated }) :
    Sound s { L with phantom := x :: L.phantom } where
  tables := h.tables
  refs := h.refs
  collectors := h.collectors
  balance := by
    refine h.balance.transfer rfl (fun _ _ => ⟨rfl, rfl, rfl⟩) (fun _ _ => rfl) fun y => ?_
    by_cases hy : y = x
    · subst hy
      simp only [List.map_cons, List.count_cons_self]
      push_cast
      ring
    · simp [Ne.symm hy]
  classes := ⟨h.classes.listed, fun hy => h.classes.held (List.mem_cons_of_mem _ hy),
    h.classes.kept, h.classes.linked⟩
  tasks := h.tasks
  deletes := h.deletes
  settled := h.settled
  moved := h.moved

theorem addObject (h : Sound s L) {x c : ℕ} (hx : Live s x) (hp : ¬ Doomed s L.deleting x)
    (hc : (s.objects x).collector = some c) : Sound (collectorAddObject s c x) L := by
  have hac := h.alive_of_collector hc
  have hau := h.collectors.update_alive hac
  unfold collectorAddObject
  dsimp only
  generalize hs1 : s.modifyObject x (fun o =>
    { o with count := Function.update o.count o.which (o.count o.which + 1) }) = s1
  have h1 : Sound s1 { L with strong := (x, (s.objects x).which) :: L.strong } := by
    rw [← hs1]
    exact h.giveStrong hx hp fun _ _ => .inl rfl
  have hf1 : Frame s s1 := hs1 ▸ modifyObject_frame s x rfl
  have hw1 : s1.work = s.work := by rw [← hs1]; rfl
  generalize hs2 : s1.modifyObject x (fun o => { o with count2 := o.count2 + 1 }) = s2
  have h2 : Sound s2 { L with
      strong := (x, (s.objects x).which) :: L.strong
      phantom := x :: L.phantom } := by
    rw [← hs2]
    exact h1.givePhantom ((hf1.live_iff x).mpr hx) (mt (doomed_congr hw1).mp hp)
  have hf2 : Frame s s2 := hf1.trans (hs2 ▸ modifyObject_frame s1 x rfl)
  have hc2 : (s2.objects x).collector = some c := by
    rw [← hs2, ← hs1]
    simpa using hc
  have hup : ∀ a, collectorUpdate s2 a = collectorUpdate s a := by
    intro a
    refine collectorUpdate_congr ?_ ?_ a <;> rw [← hs2, ← hs1] <;> rfl
  have hal : ∀ a, Alive s2 a ↔ Alive s a := by
    intro a
    rw [← hs2, ← hs1]
    exact Iff.rfl
  have hin : InClass s2 x (collectorUpdate s c) := by
    refine ⟨c, hc2, ?_⟩
    rw [hup, hup, h.collectors.update_idem]
  have h3 := h2.curate (L := { L with strong := (x, (s.objects x).which) :: L.strong }) hin
    ((hal _).mpr hau)
  have h4 : Sound (safelistAdd s2 (collectorUpdate s c, .collect) x) L := by
    refine Sound.add (n := .collect) (w := (s.objects x).which) h3 ((hal _).mpr hau) (fun _ => ?_)
      fun hn => by cases hn
    rw [hf2.which]
  have hsame := safelistAdd_same s2 (collectorUpdate s c, .collect) x
  have hup4 : ∀ a, collectorUpdate (safelistAdd s2 (collectorUpdate s c, .collect) x) a =
      collectorUpdate s a :=
    fun a => (collectorUpdate_congr hsame.numCollector hsame.forward a).trans (hup a)
  have hc4 : ((safelistAdd s2 (collectorUpdate s c, .collect) x).objects x).collector = some c := by
    rw [hsame.objects]
    exact hc2
  refine h4.assign (h4.collectors.object_alive hc4).1 ?_ fun d hd => ?_
  · have := h4.collectors.update_alive (h4.alive_of_collector hc4)
    rwa [hup4] at this
  · rw [hc4] at hd
    rw [← Option.some.inj hd, hup4, hup4, h.collectors.update_idem]

theorem ensureCollector_count (s : State) (x y : ℕ) :
    ((objectEnsureCollector s x).objects y).count = (s.objects y).count ∧
      ((objectEnsureCollector s x).objects y).count2 = (s.objects y).count2 := by
  unfold objectEnsureCollector
  split
  · exact ⟨rfl, rfl⟩
  · exact objectSetCollector_count (collectorCreate s).1 x _ y

theorem addObject_count (s : State) (c x : ℕ) :
    ((collectorAddObject s c x).objects x).count = Function.update (s.objects x).count
      (s.objects x).which ((s.objects x).count (s.objects x).which + 1) := by
  unfold collectorAddObject
  dsimp only
  rw [(objectSetCollector_count _ _ _ _).1, (safelistAdd_same _ _ _).objects]
  simp

theorem dec {x : ℕ} {w : Bool} (h : Sound s { L with strong := (x, w) :: L.strong }) :
    Sound (objectDec s x w) L := by
  have hpos := h.balance.count_pos_of_hand
  have hlive := h.live_of_count hpos.ne'
  have hnp := h.not_pending_of_count hpos.ne'
  have hold := h.settled x
  unfold objectDec
  dsimp only
  generalize hs1 : s.modifyObject x (fun o =>
    { o with count := Function.update o.count w (o.count w - 1) }) = s1
  have h1 : Sound s1 { L with settled := L.settled \ {x} } := by
    rw [← hs1]
    exact h.takeStrong
  have hobj : s1.objects x = { s.objects x with
      count := Function.update (s.objects x).count w ((s.objects x).count w - 1) } := by
    rw [← hs1]
    simp
  have hwork : s1.work = s.work := by rw [← hs1]; rfl
  have hlive1 : Live s1 x := by
    rw [← hs1]
    exact ((modifyObject_frame s x rfl).live_iff x).mpr hlive
  have hnn : 0 ≤ (s1.objects x).count w := h1.balance.count_nonneg x w
  rw [State.check_pos _ hnn]
  have hsettle : ∀ {u : State}, Sound u { L with settled := L.settled \ {x} } →
      (x ∈ L.settled → Settled u L.strict x) → Sound u L := by
    intro u hu hx
    refine hu.settle (S := L.settled) fun y hy => ?_
    by_cases hyx : y = x
    · exact .inr (hyx ▸ hx (hyx ▸ hy))
    · exact .inl ⟨hy, hyx⟩
  split_ifs with hz hall
  · refine hsettle (h1.requestDelete hlive1 (mt (doomed_congr hwork).mp hnp) ?_ hall.2) fun _ _ _ => ?_
    · intro b
      by_cases hb : b = w
      · exact hb ▸ hz.1
      · have hbw : b = !(s1.objects x).which := Bool.eq_not_iff.mpr (hz.2 ▸ hb)
        exact hbw ▸ hall.1
    · have hm : .delete x ∈ (objectRequestDelete s1 x).work :=
        List.mem_append_right _ (List.mem_singleton_self _)
      exact ⟨.inl hm, fun _ => ⟨hall.1, .inl hm⟩⟩
  · have h2 := h1.ensureCollector hlive1
    obtain ⟨c, hc⟩ := ensureCollector_collector s1 x
    have hf2 := objectEnsureCollector_frame s1 x
    rw [hc]
    dsimp only
    have hcounts := ensureCollector_count s1 x x
    have hnz : (∃ b, ((objectEnsureCollector s1 x).objects x).count b ≠ 0) ∨
        ((objectEnsureCollector s1 x).objects x).count2 ≠ 0 := by
      rw [hcounts.1, hcounts.2]
      by_cases h0 : (s1.objects x).count (!(s1.objects x).which) = 0
      · exact .inr fun h2 => hall ⟨h0, h2⟩
      · exact .inl ⟨_, h0⟩
    have hnp2 : ¬ Doomed (objectEnsureCollector s1 x) L.deleting x := by
      rcases hnz with ⟨b, hb⟩ | h2z
      · exact h2.not_pending_of_count hb
      · exact h2.not_pending_of_count2 h2z
    refine hsettle (h2.addObject ((hf2.live_iff x).mpr hlive1) hnp2 hc) fun _ _ hzero => ?_
    have hf3 := collectorAddObject_frame (objectEnsureCollector s1 x) c x
    rw [hf3.which, addObject_count, Function.update_self] at hzero
    have := h2.balance.count_nonneg x ((objectEnsureCollector s1 x).objects x).which
    omega
  · refine hsettle h1 fun hx _ hzero => ?_
    have hww : (s1.objects x).which = (s.objects x).which := by rw [hobj]
    by_cases hw : w = (s1.objects x).which
    · exact absurd ⟨hw ▸ hzero, hw⟩ hz
    · have hw' : ¬ (s.objects x).which = w := fun e => hw (by rw [hww, e])
      have hzero' : (s.objects x).count (s.objects x).which = 0 := by
        rw [hww, hobj] at hzero
        simpa [Function.update_of_ne hw'] using hzero
      obtain ⟨h2, h3⟩ := hold hx hlive hzero'
      rw [hobj]
      refine ⟨h2.imp (fun hm => absurd (.inl hm) hnp) id, fun hk => ?_⟩
      have hother := (h3 hk).1
      have hb : w = !(s.objects x).which := Bool.eq_not_iff.mpr (Ne.symm hw')
      rw [← hb] at hother
      omega

/-- A phantom reference is given back. Only an object whose last one this is and that has
other references loses its collector. -/
theorem decPhantom {x : ℕ} (h : Sound s { L with phantom := x :: L.phantom })
    (hkept : (s.objects x).count2 = 1 → (∃ b, (s.objects x).count b ≠ 0) → x ∉ L.kept) :
    Sound (objectDecPhantom s x) L := by
  have hpos := h.balance.count2_pos_of_hand
  have hlive := h.live_of_count2 hpos.ne'
  have hnp := h.not_pending_of_count2 hpos.ne'
  have hold := h.settled x
  unfold objectDecPhantom
  dsimp only
  generalize hs1 : s.modifyObject x (fun o => { o with count2 := o.count2 - 1 }) = s1
  have h1 : Sound s1 { L with settled := L.settled \ {x} } := by
    rw [← hs1]
    exact h.takePhantom
  have hobj : s1.objects x = { s.objects x with count2 := (s.objects x).count2 - 1 } := by
    rw [← hs1]
    simp
  have hwork : s1.work = s.work := by rw [← hs1]; rfl
  have hlive1 : Live s1 x := by
    rw [← hs1]
    exact ((modifyObject_frame s x rfl).live_iff x).mpr hlive
  have hnn : 0 ≤ (s1.objects x).count2 := h1.balance.count2_nonneg x
  rw [State.check_pos _ hnn]
  have hsettle : ∀ {u : State}, Sound u { L with settled := L.settled \ {x} } →
      (x ∈ L.settled → Settled u L.strict x) → Sound u L := by
    intro u hu hx
    refine hu.settle (S := L.settled) fun y hy => ?_
    by_cases hyx : y = x
    · exact .inr (hyx ▸ hx (hyx ▸ hy))
    · exact .inl ⟨hy, hyx⟩
  split_ifs with hz hall
  · refine hsettle (h1.requestDelete hlive1 (mt (doomed_congr hwork).mp hnp) ?_ hz) fun _ _ _ => ?_
    · intro b
      cases b
      · exact hall.1
      · exact hall.2
    · have hm : .delete x ∈ (objectRequestDelete s1 x).work :=
        List.mem_append_right _ (List.mem_singleton_self _)
      refine ⟨.inl hm, fun _ => ⟨?_, .inl hm⟩⟩
      change (s1.objects x).count (!(s1.objects x).which) = 0
      cases (s1.objects x).which
      · exact hall.2
      · exact hall.1
  · have hnz : ∃ b, (s1.objects x).count b ≠ 0 := by
      by_cases hf : (s1.objects x).count false = 0
      · exact ⟨true, fun ht => hall ⟨hf, ht⟩⟩
      · exact ⟨false, hf⟩
    have hkx : x ∉ L.kept := by
      rw [hobj] at hz hnz
      dsimp only at hz hnz
      exact hkept (by omega) hnz
    have h2 : Sound (objectSetCollector s1 x none) { L with settled := L.settled \ {x} } := by
      refine h1.setCollector (fun hn => absurd rfl hn) (fun d hd => by cases hd)
        (fun d _ => .inr ⟨rfl, hz⟩) (fun _ => hkx) fun _ _ hx => absurd rfl hx.2
    refine hsettle h2 fun hx _ hzero => ?_
    have hf := objectSetCollector_frame s1 x none
    rw [hf.which, (objectSetCollector_count s1 x none x).1, hobj] at hzero
    obtain ⟨h3, h4⟩ := hold hx hlive hzero
    rw [hf.phantomized, hobj]
    refine ⟨h3.imp (fun hm => absurd (.inl hm) hnp) id, fun hk => ?_⟩
    have hother := (h4 hk).1
    obtain ⟨b, hb⟩ := hnz
    rw [hobj] at hb
    dsimp only at hb hzero
    by_cases hbw : b = (s.objects x).which
    · exact absurd (hbw ▸ hzero) hb
    · exact absurd (Bool.eq_not_iff.mpr hbw ▸ hother) hb
  · refine hsettle h1 fun hx _ hzero => ?_
    rw [hobj] at hzero
    obtain ⟨h2, h3⟩ := hold hx hlive hzero
    rw [hobj]
    refine ⟨h2.imp (fun hm => absurd (.inl hm) hnp) id, fun hk => ⟨(h3 hk).1, ?_⟩⟩
    rcases (h3 hk).2 with hcase | ⟨_, hc⟩
    · exact absurd (.inl hcase) hnp
    · refine .inr ⟨?_, hc⟩
      rw [hobj] at hz hnn
      dsimp only at hz hnn ⊢
      omega

end Sound
end Acid

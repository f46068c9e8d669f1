import Acid.SafelistEffect
import Acid.Tally

set_option autoImplicit false

/-!
# The collectors, their forward pointers and their counters
-/
namespace Acid
open PointerForest Tally

/-- The objects whose collector is `c`. -/
def holders (s : State) (c : ℕ) : ℤ :=
  tally (Finset.range s.objectCount) fun x => (s.objects x).collector = some c

/-- The collectors that forward to `c`. -/
def followers (s : State) (c : ℕ) : ℤ :=
  tally (Finset.range s.numCollector) fun d => s.forward d = some c

/-- The forward pointers form a forest of undestroyed collectors, list pointers follow
collector pointers, and both counters count what they should. -/
structure Collectors (s : State) : Prop where
  ranked : Ranked s.forward
  forward_alive : ∀ {a b}, s.forward a = some b → Alive s a ∧ Alive s b
  object_alive : ∀ {x c}, (s.objects x).collector = some c → Live s x ∧ Alive s c
  lists : ∀ r, s.listForward r = (s.forward r.1).map fun d => (d, route r.2)
  empty : ∀ {r : ListRef}, s.forward r.1 ≠ none ∨ ¬ Alive s r.1 → (s.safelist r).data = []
  ref : ∀ c, (s.collectors c).refCount = holders s c + followers s c
  store : ∀ c, (s.collectors c).Stored
  counted : ∀ c, Event.counterUnderflow c ∉ s.trace

theorem holders_congr {s s' : State} (hn : s'.objectCount = s.objectCount)
    (h : ∀ x, (s'.objects x).collector = (s.objects x).collector) (c : ℕ) :
    holders s' c = holders s c := by
  unfold holders
  rw [hn]
  exact tally_congr fun x _ => by rw [h x]

theorem followers_congr {s s' : State} (hn : s'.numCollector = s.numCollector)
    (h : s'.forward = s.forward) (c : ℕ) : followers s' c = followers s c := by
  unfold followers
  rw [hn, h]

theorem route_route (n : ListName) : route (route n) = route n := by
  cases n <;> rfl

theorem collectorCreate_alive {s : State} {a : ℕ} (ha : Alive s a) :
    Alive (collectorCreate s).1 a := by
  have hne : a ≠ s.numCollector := Nat.ne_of_lt ha.1
  exact ⟨Nat.lt_succ_of_lt ha.1, by simpa [collectorCreate, hne] using ha.2⟩

theorem forward_eq_of_collectors {s s' : State} (h : s'.collectors = s.collectors) :
    s'.forward = s.forward := by
  funext a
  rw [State.forward, State.forward, h]

namespace Collectors
variable {s s' : State} (h : Collectors s)
include h

theorem bound : ∀ a b, s.forward a = some b → b < s.numCollector :=
  fun _ _ hab => (h.forward_alive hab).2.1

theorem update_isRoot (a : ℕ) : s.forward (collectorUpdate s a) = none :=
  root_isRoot h.ranked h.bound a

theorem update_idem (a : ℕ) : collectorUpdate s (collectorUpdate s a) = collectorUpdate s a :=
  root_idem h.ranked h.bound a

theorem update_alive {a : ℕ} (ha : Alive s a) : Alive s (collectorUpdate s a) := by
  have hl := root_leadsTo h.ranked h.bound a
  change Alive s (root s.forward s.numCollector a)
  generalize root s.forward s.numCollector a = r at hl
  induction hl with
  | root _ => exact ha
  | step hab _ ih => exact ih (h.forward_alive hab).2

theorem update_of_chain {a d : ℕ} (ha : Chain s.forward a d) (hd : s.forward d = none) :
    collectorUpdate s a = d :=
  root_eq h.ranked h.bound (ha.leadsTo (.root hd))

theorem update_forward {a b : ℕ} (hab : s.forward a = some b) :
    collectorUpdate s a = collectorUpdate s b :=
  root_next h.ranked h.bound hab

/-- The list where an addition to `r` lands. -/
theorem chase_list (d : ℕ) (n : ListName) :
    chase s.listForward s.numCollector (d, route n) = (collectorUpdate s d, route n) := by
  obtain ⟨rank, hr, hb⟩ := h.ranked.bounded s.numCollector h.bound
  have hlr : ∀ a b : ListRef, s.listForward a = some b → rank b.1 < rank a.1 := by
    intro a b hab
    rw [h.lists] at hab
    obtain ⟨e, he, rfl⟩ := Option.map_eq_some_iff.mp hab
    exact hr _ _ he
  have hl := chase_leadsTo (fun r : ListRef => rank r.1) hlr s.numCollector (d, route n) (hb d)
  refine hl.unique ?_
  clear hl
  have hroot := root_leadsTo h.ranked h.bound d
  change LeadsTo s.listForward (d, route n) (root s.forward s.numCollector d, route n)
  generalize root s.forward s.numCollector d = r at hroot
  induction hroot with
  | root hd => exact .root (by rw [h.lists]; simp [hd])
  | step hab _ ih => exact .step (by rw [h.lists]; simp [hab, route_route]) ih

theorem safelistAdd_eq (r : ListRef) (o : ℕ) :
    safelistAdd s r o = safelistPush s
      (collectorUpdate s r.1, if s.forward r.1 = none then r.2 else route r.2) o := by
  unfold safelistAdd
  rw [h.lists]
  cases hf : s.forward r.1 with
  | none => simp [collectorUpdate_of_root hf]
  | some d =>
    simp only [Option.map_some, reduceCtorEq, if_false]
    rw [h.chase_list, h.update_forward hf]

theorem root_lists {t : ℕ} (ht : s.forward t = none) (n : ListName) :
    s.listForward (t, n) = none := by
  rw [h.lists]
  simp [ht]

/-- A list with an element belongs to an undestroyed root. -/
theorem root_of_mem {r : ListRef} {x : ℕ} (hx : x ∈ (s.safelist r).data) :
    s.forward r.1 = none ∧ Alive s r.1 := by
  by_contra hne
  have he : (s.safelist r).data = [] := h.empty (by tauto)
  simp [he] at hx

theorem holder_pos {x c : ℕ} (hx : (s.objects x).collector = some c) :
    0 < (s.collectors c).refCount := by
  have hp : 0 < holders s c := tally_pos (Finset.mem_range.mpr (h.object_alive hx).1.1) hx
  have hf : 0 ≤ followers s c := tally_nonneg _ _
  rw [h.ref]
  omega

/-- Only the fields named here matter. -/
theorem congr (hc : s'.collectors = s.collectors) (hn : s'.numCollector = s.numCollector)
    (ho : s'.objectCount = s.objectCount)
    (hobj : ∀ x, (s'.objects x).collector = (s.objects x).collector)
    (hlive : ∀ x, (s.objects x).collector ≠ none → Live s x → Live s' x)
    (ht : ∀ c, Event.counterUnderflow c ∈ s'.trace → Event.counterUnderflow c ∈ s.trace) :
    Collectors s' := by
  have hf : s'.forward = s.forward := forward_eq_of_collectors hc
  have halive : ∀ a, Alive s' a ↔ Alive s a := fun a => by rw [Alive, Alive, hn, hc]
  have hl : ∀ r, s'.safelist r = s.safelist r := fun r => by rw [State.safelist, State.safelist, hc]
  refine ⟨hf ▸ h.ranked, ?_, ?_, ?_, ?_, ?_, ?_, ?_⟩
  · intro a b hab
    rw [hf] at hab
    exact ⟨(halive a).mpr (h.forward_alive hab).1, (halive b).mpr (h.forward_alive hab).2⟩
  · intro x c hx
    rw [hobj] at hx
    have hx' := h.object_alive hx
    exact ⟨hlive x (by simp [hx]) hx'.1, (halive c).mpr hx'.2⟩
  · intro r
    rw [State.listForward, hl, hf]
    exact h.lists r
  · intro r hr
    rw [hf, halive] at hr
    rw [hl]
    exact h.empty hr
  · intro c
    rw [hc, h.ref c, holders_congr ho hobj, followers_congr hn hf]
  · intro c
    rw [hc]
    exact h.store c
  · intro c hm
    exact h.counted c (ht c hm)

theorem emit {e : Event} (he : ∀ c, e ≠ .counterUnderflow c) : Collectors (s.emit e) := by
  refine h.congr rfl rfl rfl (fun _ => rfl) (fun _ _ hx => hx) ?_
  intro c hm
  rcases List.mem_cons.mp hm with hm | hm
  · exact absurd hm.symm (he c)
  · exact hm

theorem check (p : Prop) [Decidable p] {e : Event} (he : ∀ c, e ≠ .counterUnderflow c) :
    Collectors (s.check p e) := by
  unfold State.check
  split_ifs
  · exact h
  · exact h.emit he

end Collectors

theorem counterRepoint_eq {s : State} {old new : Option ℕ}
    (h : ∀ d, old = some d → 0 < (s.collectors d).refCount) :
    counterRepoint s old new =
      { s with collectors := fun d =>
          { s.collectors d with
            refCount := (s.collectors d).refCount + (if new = some d then 1 else 0) -
              (if old = some d then 1 else 0) } } := by
  have hinc : ∀ (u : State) (c : ℕ), counterIncRef u c =
      { u with collectors := fun d =>
          { u.collectors d with
            refCount := (u.collectors d).refCount + if c = d then 1 else 0 } } := by
    intro u c
    simp only [counterIncRef, State.modifyCollector]
    congr 1
    funext d
    by_cases hd : c = d
    · subst hd; simp
    · simp [hd, Ne.symm hd, Function.update]
  have hdec : ∀ (u : State) (c : ℕ), 0 < (u.collectors c).refCount → counterDecRef u c =
      { u with collectors := fun d =>
          { u.collectors d with
            refCount := (u.collectors d).refCount - if c = d then 1 else 0 } } := by
    intro u c hc
    rw [counterDecRef, State.check_pos _ hc]
    simp only [State.modifyCollector]
    congr 1
    funext d
    by_cases hd : c = d
    · subst hd; simp
    · simp [hd, Ne.symm hd, Function.update]
  cases new with
  | none =>
    cases old with
    | none => simp [counterRepoint]
    | some d => simp [counterRepoint, hdec s d (h d rfl)]
  | some c =>
    cases old with
    | none => simp [counterRepoint, hinc]
    | some d =>
      have hpos : 0 < ((counterIncRef s c).collectors d).refCount := by
        have := h d rfl
        rw [hinc]
        dsimp only
        split_ifs <;> omega
      simp only [counterRepoint]
      rw [hdec _ d hpos, hinc]
      simp

/-- The counters move with the pointer, whether or not it changes. -/
theorem objectSetCollector_eq {s : State} (h : Collectors s) (x : ℕ) (c : Option ℕ) :
    objectSetCollector s x c =
      { s with
        objects := Function.update s.objects x { s.objects x with collector := c }
        collectors := fun d =>
          { s.collectors d with
            refCount := (s.collectors d).refCount + (if c = some d then 1 else 0) -
              (if (s.objects x).collector = some d then 1 else 0) } } := by
  unfold objectSetCollector
  split_ifs with hc
  · subst hc
    simp
  · rw [counterRepoint_eq fun d hd => h.holder_pos hd]
    rfl

namespace Collectors
variable {s : State} (h : Collectors s)
include h

theorem setCollector {x : ℕ} {c : Option ℕ} (hx : c ≠ none → Live s x)
    (hc : ∀ d, c = some d → Alive s d) : Collectors (objectSetCollector s x c) := by
  rw [objectSetCollector_eq h]
  refine ⟨h.ranked, h.forward_alive, ?_, h.lists, h.empty, ?_, h.store, h.counted⟩
  · intro y d hy
    by_cases hyx : y = x
    · subst y
      have hcd : c = some d := by simpa using hy
      have hlive := hx (by simp [hcd])
      exact ⟨⟨hlive.1, by simpa using hlive.2⟩, hc d hcd⟩
    · have hy' : (s.objects y).collector = some d := by simpa [hyx] using hy
      exact ⟨⟨(h.object_alive hy').1.1, by simpa [hyx] using (h.object_alive hy').1.2⟩,
        (h.object_alive hy').2⟩
  · intro d
    have hfol : (s.collectors d).refCount = holders s d + followers s d := h.ref d
    by_cases hlt : x < s.objectCount
    · have hch := tally_change (S := Finset.range s.objectCount) (i := x)
        (p := fun y => (s.objects y).collector = some d)
        (q := fun y => (Function.update s.objects x { s.objects x with collector := c } y).collector
          = some d) (Finset.mem_range.mpr hlt) (by intro y hy; simp [hy])
      simp only [Function.update_self] at hch
      change (s.collectors d).refCount + _ - _ = tally _ _ + followers s d
      rw [hch, hfol]
      unfold holders
      ring
    · have hxn : (s.objects x).collector = none := by
        by_contra hne
        obtain ⟨e, he⟩ := Option.ne_none_iff_exists'.mp hne
        exact hlt (h.object_alive he).1.1
      have hcn : c = none := by
        by_contra hne
        exact hlt (hx hne).1
      subst hcn
      rw [hxn]
      have hsame : { s.objects x with collector := none } = s.objects x := by rw [← hxn]
      have hhold := h.ref d
      simp only [reduceCtorEq, if_false, add_zero, sub_zero, hsame, Function.update_eq_self]
      exact hhold

theorem modifyList {r : ℕ} {f : Collector → Collector}
    (href : (f (s.collectors r)).refCount = (s.collectors r).refCount)
    (hfor : (f (s.collectors r)).forward = (s.collectors r).forward)
    (hdes : (f (s.collectors r)).destroyed = (s.collectors r).destroyed)
    (hlist : ∀ n, ((f (s.collectors r)).lists n).forward = ((s.collectors r).lists n).forward)
    (hst : (f (s.collectors r)).Stored) (hroot : s.forward r = none) (halive : Alive s r) :
    Collectors (s.modifyCollector r f) := by
  have hcol : ∀ d, (s.modifyCollector r f).collectors d =
      if d = r then f (s.collectors r) else s.collectors d :=
    fun d => s.modifyCollector_collectors r d f
  have hf : (s.modifyCollector r f).forward = s.forward := by
    funext d
    rw [State.forward, hcol]
    split_ifs with hd
    · rw [hd, hfor]; rfl
    · rfl
  have hal : ∀ a, Alive (s.modifyCollector r f) a ↔ Alive s a := by
    intro a
    rw [Alive, Alive, hcol]
    split_ifs with ha
    · rw [ha, hdes]; rfl
    · rfl
  refine ⟨hf ▸ h.ranked, ?_, ?_, ?_, ?_, ?_, ?_, h.counted⟩
  · intro a b hab
    rw [hf] at hab
    exact ⟨(hal a).mpr (h.forward_alive hab).1, (hal b).mpr (h.forward_alive hab).2⟩
  · intro x c hx
    exact ⟨(h.object_alive hx).1, (hal c).mpr (h.object_alive hx).2⟩
  · intro q
    rw [hf, ← h.lists q, State.listForward, State.listForward, State.safelist, hcol]
    split_ifs with hq
    · rw [hlist q.2, State.safelist, hq]
    · rfl
  · intro q hq
    rw [hf, hal] at hq
    have hne : q.1 ≠ r := by
      intro he
      rw [he] at hq
      exact hq.elim (fun hn => hn hroot) fun hn => hn halive
    rw [State.safelist, hcol, if_neg hne]
    exact h.empty hq
  · intro d
    have hh : holders (s.modifyCollector r f) d = holders s d := rfl
    have hfol : followers (s.modifyCollector r f) d = followers s d := by
      refine followers_congr ?_ hf d
      rfl
    rw [hh, hfol, hcol, ← h.ref d]
    split_ifs with hd
    · rw [hd, href]
    · rfl
  · intro d
    rw [hcol]
    split_ifs
    · exact hst
    · exact h.store d

theorem setData {r : ℕ} (n : ListName) (data : List ℕ) (hroot : s.forward r = none)
    (halive : Alive s r) : Collectors (s.modifyCollector r fun k => k.setData n data) :=
  h.modifyList rfl rfl rfl
    (by intro m; by_cases hm : m = n <;> simp [Collector.setData, hm])
    ((h.store r).setData n data) hroot halive

theorem push {r : ListRef} (o : ℕ) (hroot : s.forward r.1 = none) (halive : Alive s r.1) :
    Collectors (safelistPush s r o) := by
  rw [safelistPush_eq]
  refine h.modifyList rfl rfl rfl ?_ ?_ hroot halive
  · intro m
    by_cases hm : m = r.2 <;> simp [Collector.setData, hm]
  · exact (h.store r.1).setData _ _

theorem add {r : ListRef} (o : ℕ) (halive : Alive s r.1) : Collectors (safelistAdd s r o) := by
  rw [h.safelistAdd_eq]
  exact h.push o (h.update_isRoot r.1) (h.update_alive halive)

theorem poll (r : ListRef) : Collectors (safelistPoll s r).1 := by
  cases hd : (s.safelist r).data with
  | nil =>
    rw [safelistPoll_nil hd]
    exact h
  | cons o rest =>
    have hr := h.root_of_mem (r := r) (x := o) (by simp [hd])
    rw [safelistPoll_eq (h.store r.1) hd]
    exact h.setData r.2 rest hr.1 hr.2

theorem create_forward : (collectorCreate s).1.forward = s.forward := by
  funext a
  by_cases ha : a = s.numCollector
  · subst ha
    have hn : s.forward s.numCollector = none := by
      by_contra hne
      obtain ⟨b, hb⟩ := Option.ne_none_iff_exists'.mp hne
      exact Nat.lt_irrefl _ (h.forward_alive hb).1.1
    rw [hn]
    simp [State.forward, collectorCreate]
  · simp [State.forward, collectorCreate, ha]

theorem create_update (a : ℕ) :
    collectorUpdate (collectorCreate s).1 a = collectorUpdate s a := by
  unfold collectorUpdate
  rw [h.create_forward]
  exact root_grow h.ranked h.bound (Nat.le_succ _) a

theorem create : Collectors (collectorCreate s).1 := by
  have hf := h.create_forward
  have hal : ∀ {a}, Alive s a → Alive (collectorCreate s).1 a :=
    collectorCreate_alive
  have hnew : ∀ d, (collectorCreate s).1.collectors d =
      if d = s.numCollector then {} else s.collectors d := by
    intro d
    simp [collectorCreate, Function.update_apply]
  refine ⟨hf ▸ h.ranked, ?_, ?_, ?_, ?_, ?_, ?_, h.counted⟩
  · intro a b hab
    rw [hf] at hab
    exact ⟨hal (h.forward_alive hab).1, hal (h.forward_alive hab).2⟩
  · intro x c hx
    exact ⟨(h.object_alive hx).1, hal (h.object_alive hx).2⟩
  · intro r
    have hr := h.lists r
    rw [hf, ← hr, State.listForward, State.safelist, hnew]
    split_ifs with hd
    · have hn : s.forward r.1 = none := by rw [← hf, State.forward, hnew, if_pos hd]
      rw [hr, hn]
      rfl
    · rfl
  · intro r hr
    rw [State.safelist, hnew]
    split_ifs with hd
    · rfl
    · rw [hf] at hr
      exact h.empty (hr.imp id fun hn ha => hn (hal ha))
  · intro d
    have hfol : followers (collectorCreate s).1 d = followers s d := by
      have hs := tally_range_succ s.numCollector fun e => (collectorCreate s).1.forward e = some d
      have hn : (collectorCreate s).1.forward s.numCollector = none := by
        rw [State.forward, hnew, if_pos rfl]
      simp only [hn, reduceCtorEq, if_false, add_zero] at hs
      rw [hf] at hs
      unfold followers
      rw [hf]
      exact hs
    have hh : holders (collectorCreate s).1 d = holders s d := rfl
    rw [hfol, hh, ← h.ref d, hnew]
    split_ifs with hd
    · have hhz : holders s d = 0 := by
        unfold holders
        rw [tally_eq_zero]
        intro x _ hx
        rw [hd] at hx
        exact Nat.lt_irrefl _ (h.object_alive hx).2.1
      have hz : followers s d = 0 := by
        unfold followers
        rw [tally_eq_zero]
        intro x _ hx
        rw [hd] at hx
        exact Nat.lt_irrefl _ (h.forward_alive hx).2.1
      rw [h.ref d, hhz, hz]
      rfl
    · rfl
  · intro d
    rw [hnew]
    split_ifs
    · rfl
    · exact h.store d

section
variable {t c : ℕ} (ht : s.forward t = none) (hc : s.forward c = none) (hne : c ≠ t)
include ht hc hne

theorem merge_eq : collectorMerge s t c =
    s.putCollectors c t ((s.collectors c).ceded t) ((s.collectors t).gained (s.collectors c)) :=
  collectorMerge_eq hne hc (h.root_lists ht) (h.store c)

theorem merge_forward :
    (collectorMerge s t c).forward = Function.update s.forward c (some t) := by
  rw [h.merge_eq ht hc hne]
  funext a
  rw [State.forward]
  by_cases hac : a = c
  · subst a
    rw [putCollectors_source hne, Function.update_self]
    rfl
  · rw [Function.update_of_ne hac]
    by_cases hat : a = t
    · subst a
      rw [putCollectors_dest]
      rfl
    · simp [State.putCollectors, State.modifyCollector, hac, hat, State.forward]

theorem merge_update (halive : Alive s t) (a : ℕ) :
    collectorUpdate (collectorMerge s t c) a =
      if collectorUpdate s a = c then t else collectorUpdate s a := by
  have hn : (collectorMerge s t c).numCollector = s.numCollector := by
    rw [h.merge_eq ht hc hne]
    rfl
  unfold collectorUpdate
  rw [hn, h.merge_forward ht hc hne]
  exact root_join h.ranked h.bound hc ht hne halive.1 a

theorem merge_alive (a : ℕ) : Alive (collectorMerge s t c) a ↔ Alive s a := by
  rw [h.merge_eq ht hc hne, Alive, Alive]
  by_cases hac : a = c
  · subst a
    rw [putCollectors_source hne]
    exact Iff.rfl
  · by_cases hat : a = t
    · subst a
      rw [putCollectors_dest]
      exact Iff.rfl
    · simp [State.putCollectors, State.modifyCollector, hac, hat]

theorem merge (hat : Alive s t) (hac : Alive s c) : Collectors (collectorMerge s t c) := by
  have heq := h.merge_eq ht hc hne
  have hf := h.merge_forward ht hc hne
  have hal := h.merge_alive ht hc hne
  have hn : (collectorMerge s t c).numCollector = s.numCollector := by rw [heq]; rfl
  have hcol : ∀ d, (collectorMerge s t c).collectors d =
      if d = t then (s.collectors t).gained (s.collectors c)
      else if d = c then (s.collectors c).ceded t else s.collectors d := by
    intro d
    rw [heq]
    simp [State.putCollectors, State.modifyCollector, Function.update_apply]
  refine ⟨hf ▸ h.ranked.join ht hne, ?_, ?_, ?_, ?_, ?_, ?_, ?_⟩
  · intro a b hab
    rw [hf] at hab
    rw [hal, hal]
    by_cases ha : a = c
    · subst a
      have hb : t = b := by simpa using hab
      exact ⟨hac, hb ▸ hat⟩
    · rw [Function.update_of_ne ha] at hab
      exact h.forward_alive hab
  · intro x d hx
    have hx' : (s.objects x).collector = some d := by
      rw [heq] at hx
      exact hx
    rw [hal]
    refine ⟨?_, (h.object_alive hx').2⟩
    rw [heq]
    exact (h.object_alive hx').1
  · intro r
    rw [hf, State.listForward, State.safelist, hcol]
    have hr := h.lists r
    split_ifs with h1 h2
    · have hrc : r.1 ≠ c := by rw [h1]; exact Ne.symm hne
      rw [Function.update_of_ne hrc, ← hr, State.listForward, State.safelist, h1]
      cases r.2 <;> rfl
    · rw [h2, Function.update_self]
      rfl
    · rw [Function.update_of_ne h2, ← hr]
      rfl
  · intro r hr
    rw [hf, hal] at hr
    rw [State.safelist, hcol]
    split_ifs with h1 h2
    · have hrc : r.1 ≠ c := by rw [h1]; exact Ne.symm hne
      rw [Function.update_of_ne hrc, h1] at hr
      exact absurd (hr.resolve_left (fun hx => hx ht)) (fun hx => hx hat)
    · rfl
    · rw [Function.update_of_ne h2] at hr
      exact h.empty hr
  · intro d
    have hh : holders (collectorMerge s t c) d = holders s d := by rw [heq]; rfl
    have hfol : followers (collectorMerge s t c) d =
        followers s d + if t = d then 1 else 0 := by
      have hch := tally_change (S := Finset.range s.numCollector) (i := c)
        (p := fun e => s.forward e = some d)
        (q := fun e => Function.update s.forward c (some t) e = some d)
        (Finset.mem_range.mpr hac.1) (by intro e he; rw [Function.update_of_ne he])
      simp only [Function.update_self, hc, reduceCtorEq, if_false, sub_zero,
        Option.some.injEq] at hch
      unfold followers
      rw [hn, hf]
      exact hch
    rw [hh, hfol, ← add_assoc, ← h.ref d, hcol]
    split_ifs with h1 h2 h3 h4 h5
    · rw [h1]; rfl
    · exact absurd h1.symm h2
    · exact absurd h4.symm h1
    · rw [h3]; simp [Collector.ceded]
    · exact absurd h5.symm h1
    · simp
  · intro d
    rw [hcol]
    split_ifs with h1 h2
    · have h3 := h.store t
      unfold Collector.Stored at *
      simp only [Collector.gained, h3, Collector.stored, List.length_append]
      push_cast
      ring
    · have h3 := h.store c
      unfold Collector.Stored at *
      simp [Collector.ceded, h3, Collector.stored]
    · exact h.store d
  · intro d
    rw [heq]
    exact h.counted d

end
end Collectors

end Acid

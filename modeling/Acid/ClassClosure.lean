import Acid.Counts
import Acid.Safety

set_option autoImplicit false

/-!
# When phantomized objects keep their class

A phantomized object is in a list of its class, or nothing that still has a
reference leads to it. The clean loop may break this where it lets go of an
object that a phantomized object with references leads to.
-/
namespace Acid

namespace HeapStep
variable {s s' : State} {ls ms : List ℕ}

/-- A new table link leads to an object that a mutator names. -/
theorem edge (hs : HeapStep s s' ls ms) (ht : Tables s) {a b : ℕ} (hab : Edge s' a b) :
    Edge s a b ∨ Reachable s b := by
  obtain ⟨l, hl, hb⟩ := hab
  have hremoved : ∀ {obj : ℕ} {f : Object → Object}, (∀ a, (f a).links.values = []) →
      SameHeap (s.modifyObject obj f) s' → (∀ k, s'.links k = freedLinks s obj k) →
      Edge s a b := by
    intro obj f hf heap links
    rw [heap.table, State.modifyObject_objects] at hl
    have htarget : (s'.links l).target = (s.links l).target := by
      rw [links, freedLinks]
      split_ifs <;> rfl
    split_ifs at hl with hao
    · rw [hf] at hl
      cases hl
    · exact ⟨l, hl, htarget.symm.trans hb⟩
  cases hs with
  | quiet heap links =>
    rw [heap.table] at hl
    rw [links] at hb
    exact .inl ⟨l, hl, hb⟩
  | init d heap links =>
    rw [heap.table, initHeap] at hl
    rw [links] at hb
    dsimp only at hl
    by_cases ha : a = s.objectCount
    · rw [ha, Function.update_self] at hl
      change l ∈ (HashTable.new : HashTable ℕ).values at hl
      rw [values_new] at hl
      cases hl
    · rw [Function.update_of_ne ha] at hl
      exact .inl ⟨l, hl, hb⟩
  | clear obj f heap links =>
    rw [heap.table, State.modifyObject_objects] at hl
    rw [links] at hb
    split_ifs at hl with hao
    · rw [hao]
      exact .inl ⟨l, ((HashTable.mem_values_remove (ht.nodup obj) f l).mp hl).1, hb⟩
    · exact .inl ⟨l, hl, hb⟩
  | link obj f x live named anew heap links =>
    rw [links] at hb
    by_cases hnew : l = s.linkCount
    · rw [if_pos hnew] at hb
      exact .inr (hb ▸ named.2)
    · rw [if_neg hnew] at hb
      rw [heap.table, linkAdded_objects] at hl
      split_ifs at hl with hao
      · rw [hao]
        exact .inl ⟨l, (((HashTable.mem_values_add (ht.nodup obj) f s.linkCount l).mp
          hl).resolve_left hnew).1, hb⟩
      · exact .inl ⟨l, hl, hb⟩
  | phantomize obj heap links =>
    rw [heap.table, State.modifyObject_objects] at hl
    have htarget : (s'.links l).target = (s.links l).target := by
      rw [links]
      split_ifs <;> rfl
    refine .inl ⟨l, ?_, htarget.symm.trans hb⟩
    split_ifs at hl with hao
    · exact hao ▸ hl
    · exact hl
  | recover obj strong heap links =>
    rw [heap.table, State.modifyObject_objects] at hl
    have htarget : (s'.links l).target = (s.links l).target := by
      rw [links]
      split_ifs <;> rfl
    refine .inl ⟨l, ?_, htarget.symm.trans hb⟩
    split_ifs at hl with hao
    · exact hao ▸ hl
    · exact hl
  | empty obj heap links => exact .inl (hremoved emptyRecord_values heap links)
  | delete obj heap links => exact .inl (hremoved deletedRecord_values heap links)

/-- An object without references stays phantomized while it lives. -/
theorem ghost (hs : HeapStep s s' ls ms) {y : ℕ} (hy : y ∈ ghosts s)
    (hz : ∀ b, (s.objects y).count b = 0) (hlive : Live s' y ∨ ∃ b, Edge s' y b) :
    y ∈ ghosts s' := by
  obtain ⟨⟨hlt, hfreed⟩, hp⟩ := hy
  have hsame : ∀ {u : State}, SameHeap u s' → s.objectCount ≤ u.objectCount →
      (u.objects y).freed = false → (u.objects y).phantomized = true → y ∈ ghosts s' := by
    intro u heap hn hf hph
    refine ⟨⟨(hlt.trans_le hn).trans_eq heap.objectCount.symm, ?_⟩, ?_⟩
    · rw [heap.freed, hf]
    · rw [heap.phantomized, hph]
  have hmod : ∀ {obj : ℕ} {f : Object → Object}, SameHeap (s.modifyObject obj f) s' →
      (f (s.objects obj)).freed = (s.objects obj).freed →
      ((s.objects obj).phantomized = true → obj = y → (f (s.objects obj)).phantomized = true) →
      y ∈ ghosts s' := by
    intro obj f heap hf hph
    apply hsame heap (le_refl _)
    · rw [State.modifyObject_objects]
      split_ifs with hyo
      · rw [hf, ← hyo, hfreed]
      · exact hfreed
    · rw [State.modifyObject_objects]
      split_ifs with hyo
      · exact hph (hyo ▸ hp) hyo.symm
      · exact hp
  cases hs with
  | quiet heap links => exact hsame heap (le_refl _) hfreed hp
  | init d heap links =>
    have hobj : (initHeap s d).objects y = s.objects y :=
      Function.update_of_ne (Nat.ne_of_lt hlt) _ _
    apply hsame heap (Nat.le_succ _)
    · rw [hobj, hfreed]
    · rw [hobj, hp]
  | clear obj f heap links => exact hmod heap rfl fun h _ => h
  | link obj f x live named anew heap links =>
    have hobj := linkAdded_objects s obj f x y
    apply hsame heap (le_refl _)
    · rw [hobj]
      split_ifs with hyo
      · rw [← hyo, ← hfreed]
      · exact hfreed
    · rw [hobj]
      split_ifs with hyo
      · rw [← hyo, ← hp]
      · exact hp
  | phantomize obj heap links => exact hmod heap rfl fun _ _ => rfl
  | recover obj strong heap links =>
    refine hmod heap rfl fun _ hyo => ?_
    rw [hyo, hz] at strong
    exact absurd strong (lt_irrefl _)
  | empty obj heap links => exact hmod heap rfl fun h _ => h
  | delete obj heap links =>
    by_cases hyo : y = obj
    · -- a freed object has no links left
      have hobj : (s'.objects y).freed = true ∧ (s'.objects y).links.values = [] := by
        rw [heap.freed, heap.table, hyo, State.modifyObject_objects_self]
        exact ⟨rfl, deletedRecord_values _⟩
      rcases hlive with hl | ⟨b, l, hl, _⟩
      · rw [hl.2] at hobj
        cases hobj.1
      · rw [hobj.2] at hl
        cases hl
    · apply hsame heap (le_refl _)
      · rw [State.modifyObject_objects_ne _ _ hyo, hfreed]
      · rw [State.modifyObject_objects_ne _ _ hyo, hp]

end HeapStep

/-- Everything that leads to `x`, and `x` itself, is phantomized and has no reference. -/
def Dead (s : State) (x : ℕ) : Prop :=
  ∀ y, Relation.ReflTransGen (Edge s) y x → y ∈ ghosts s ∧ ∀ b, (s.objects y).count b = 0

section
variable {s : State} (run : Run anyStep initial s)
include run

theorem Run.dead {x : ℕ} (hx : x ∈ ghosts s) (hu : Unneeded s x) : Dead s x := by
  have hz := hu x hx.2 .refl
  intro y hyx
  obtain ⟨hy, hp⟩ := run.needless hz hu hyx
  refine ⟨?_, hy⟩
  by_cases hne : y = x
  · exact hne ▸ hx
  · refine ⟨?_, hp hne⟩
    obtain rfl | ⟨z, ⟨l, hl, _⟩, _⟩ := hyx.cases_head
    · exact absurd rfl hne
    · exact run.anySound.live_of_entry hl

theorem Dead.not_reachable {x : ℕ} (hd : Dead s x) {y : ℕ}
    (hyx : Relation.ReflTransGen (Edge s) y x) : ¬ Reachable s y := by
  rintro ⟨r, hr, hpath⟩
  have hz := (hd r (hpath.trans hyx)).2 (s.objects r).which
  exact (run.anySound.balance.count_pos_of_claim hr).ne' hz

/-- A step leaves a dead object dead, unless it frees it. -/
theorem Dead.step {x : ℕ} (hd : Dead s x) {a : Action} (he : Enabled s a)
    (hx : x ∈ ghosts (exec s a)) : Dead (exec s a) x := by
  have h := run.anySound
  have hs := exec_heapStep h rfl he
  intro y hyx
  have hold : Relation.ReflTransGen (Edge s) y x := by
    induction hyx using Relation.ReflTransGen.head_induction_on with
    | refl => exact .refl
    | head hab _ ih =>
      rcases hs.edge h.tables hab with hab | hr
      · exact ih.head hab
      · exact absurd hr (hd.not_reachable run ih)
  obtain ⟨hy, hz⟩ := hd y hold
  have hnot := hd.not_reachable run hold
  constructor
  · refine hs.ghost hy hz ?_
    rcases hyx.cases_head with rfl | ⟨b, hab, _⟩
    · exact .inl hx.1
    · exact .inr ⟨b, hab⟩
  · intro b
    rw [exec_count h hz he, hz]
    cases a with
    | initStrong d => exact Nat.ne_of_lt hy.1.1
    | incStrong o =>
      rintro rfl
      exact hnot he
    | set o f r =>
      rintro rfl
      exact hnot he.2
    | iterate i c loop =>
      rintro _ obj rest _ hpos l hl _ rfl
      have hzero := (hd obj (hold.head ⟨l, hl, rfl⟩)).2 (s.objects obj).which
      omega
    | decStrong o => trivial
    | enter i c => trivial
    | delete i o => trivial

end

/-- Every phantomized object is in a list of its class or dead. -/
def Curated (s : State) : Prop := ∀ x ∈ ghosts s, Listed s x ∨ Dead s x

/-- The clean loop lets go of a phantomized object only if nothing needs it, or if the object is
in the lists once more. -/
def CleansCurated (s : State) : Action → Prop
  | .iterate _ c .clean => ∀ obj rest, (s.safelist (c, .clean)).data = obj :: rest →
      (s.objects obj).phantomized = true → Unneeded s obj ∨ 2 ≤ curation s obj
  | _ => True

/-- Only the collect loop phantomizes, and it lists the object. -/
theorem Run.ghosts_exec {s : State} (run : Run anyStep initial s) {a : Action} {x : ℕ}
    (hx : x ∈ ghosts (exec s a)) : x ∈ ghosts s ∨ Listed (exec s a) x := by
  cases a with
  | initStrong d => exact .inl (ghosts_initStrong s d ▸ hx)
  | incStrong o =>
    have hf := modifyObject_frame s o (f := fun o =>
      { o with count := Function.update o.count o.which (o.count o.which + 1) }) rfl
    exact .inl (ghosts_frame hf ▸ hx)
  | decStrong o => exact .inl (ghosts_frame (objectDec_frame (s.dropClaim o) o _) ▸ hx)
  | set o f r => exact .inl (ghosts_set s o f r ▸ hx)
  | enter i c =>
    left
    revert hx
    unfold exec collectorEnter
    dsimp only
    split_ifs <;> exact id
  | iterate i c loop =>
    change x ∈ ghosts (runIteration s i c loop) at hx
    rcases runIteration_cases s i c loop with ⟨_, _, heq⟩ | ⟨_, _, heq⟩ | ⟨_, _, heq⟩ |
      ⟨hloop, obj, rest, hd, heq⟩
    · rw [heq] at hx
      have hret := run.anySound.collectors.retire_eq c
      change x ∈ ghosts (retire s c) at hx
      rw [hret] at hx
      exact .inl hx
    · rw [heq] at hx
      exact .inl hx
    · rw [heq] at hx
      exact .inl hx
    · rw [heq] at hx
      change x ∈ ghosts (loopBody (afterPoll s c loop obj) c loop obj) at hx
      have hadd : ∀ (u : State) r, ghosts (safelistAdd u r obj) = ghosts u :=
        fun u r => ghosts_frame (safelistAdd_frame u r obj)
      have hpoll := ghosts_frame (afterPoll_frame s c loop obj)
      cases loop with
      | merged =>
        change x ∈ ghosts (safelistAdd _ _ obj) at hx
        rw [hadd, hpoll] at hx
        exact .inl hx
      | collect =>
        change x ∈ ghosts (safelistAdd _ _ obj) at hx
        rw [hadd] at hx
        rcases ghosts_phantomizeNode hx with hx | ⟨rfl, _⟩
        · rw [hpoll] at hx
          exact .inl hx
        · right
          obtain ⟨e, n, _, hn, _, hlay⟩ := run.anySound.layout_collect hd
          change (layout (exec s (.iterate i c .collect))).Lists x
          rw [layout_iterate s i c .collect hloop hd, hlay]
          refine ⟨(e.root c, n), ?_, Layout.mem_push_self _ _⟩
          rcases hn with rfl | rfl <;> simp
      | recovery =>
        change x ∈ ghosts (safelistAdd _ _ obj) at hx
        rw [hadd] at hx
        have hold := (ghosts_recoverNode hx).1
        rw [hpoll] at hold
        exact .inl hold
      | rebuild =>
        have hold := (ghosts_recoverNode hx).1
        rw [hpoll] at hold
        exact .inl hold
      | clean =>
        have hold := ghosts_cleanNode hx
        rw [hpoll] at hold
        exact .inl hold
      | exit => exact absurd rfl hloop
  | delete i o => exact .inl (ghosts_delete s i o hx).1

section
variable {s : State} (run : Run anyStep initial s) (hc : Curated s) {a : Action}
  (he : Enabled s a) (hok : CleansCurated s a)
include run hc he hok

theorem Curated.step : Curated (exec s a) := by
  intro x hx
  rcases run.ghosts_exec hx with hold | hlisted
  · rcases hc x hold with hl | hd
    · rcases run.anySound.listed_step he hl with hl | ⟨i, c, rest, rfl, hdata⟩
      · exact .inl hl
      · rcases hok x rest hdata hold.2 with hu | htwo
        · exact .inr ((run.dead hold hu).step run he hx)
        · exact .inl (run.anySound.listed_clean i hdata htwo)
    · exact .inr (hd.step run he hx)
  · exact .inl hlisted

/-- What a step needs to find for phantomized objects to keep their collectors. -/
theorem Curated.guarded : Guarded s a := by
  have h := run.anySound
  have hspare : ∀ {o}, o ∈ ghosts s → AllSpare s { kept := ghosts s } (s.objects o).links.values := by
    intro o ho
    right
    intro l hl
    refine ⟨(run.flags.agree hl).trans ho.2, fun hk => ?_⟩
    rcases hc _ hk with hlisted | hd
    · exact .inr hlisted
    · exact .inl (hd _ .refl).2
  cases a with
  | set o f r =>
    have ho : Reachable s o := by
      cases r with
      | none => exact he
      | some x => exact he.1
    intro l hget hp hk
    have hl : l ∈ (s.objects o).links.values := ((s.objects o).links.mem_values l).mpr
      ⟨f, ((s.objects o).links.get_eq_some f l).mp hget⟩
    rcases hc _ hk with hlisted | hd
    · exact h.count2_of_listed (h.mem_tableLinks.mpr ⟨o, hl⟩) hp hlisted
    · exact absurd ho (hd.not_reachable run (.single ⟨l, hl, rfl⟩))
  | iterate i c loop =>
    intro obj rest hd
    have hrecover : 0 < (s.objects obj).count (s.objects obj).which →
        ∀ l ∈ (s.objects obj).links.values, (s.links l).target ∈ ghosts s →
          (s.links l).target ≠ obj → Listed s (s.links l).target := by
      intro hpos l hl hk _
      refine (hc _ hk).resolve_right fun hdead => ?_
      have hz := (hdead obj (.single ⟨l, hl, rfl⟩)).2 (s.objects obj).which
      omega
    cases loop with
    | merged => trivial
    | collect =>
      rintro hp l hl hph rfl
      obtain ⟨o, ho⟩ := h.mem_tableLinks.mp hl
      rw [(h.tables.owned ho).2] at hp
      rw [run.flags.agree ho, hp] at hph
      cases hph
    | recovery => exact hrecover
    | rebuild => exact hrecover
    | clean =>
      have hmem : obj ∈ (s.safelist (c, .clean)).data := by
        rw [show (s.safelist (c, .clean)).data = obj :: rest from hd]
        exact List.mem_cons_self ..
      have hcur := curation_pos (h.collectors.root_of_mem hmem).2.1 (by simp) hmem
      have hrefs : 0 ≤ phantomRefs s (tableLinks s) obj := Tally.tally_nonneg _ _
      have hcount2 : curation s obj ≤ (s.objects obj).count2 := by
        rw [h.balance.count2]
        simp [restLedger]
        omega
      have hlive := h.live_of_count2 (x := obj) (by omega)
      refine ⟨fun hz => hspare ⟨hlive, ?_⟩, fun hk => ?_⟩
      · have hnot := h.not_pending_of_count2 (x := obj) (by omega)
        exact (h.settled obj trivial hlive (hz _)).1.resolve_left fun hm => hnot (.inl hm)
      · rcases hok obj rest hd hk.2 with hu | htwo
        · exact .inl (hu obj hk.2 .refl)
        · exact .inr (by omega)
    | exit => trivial
  | delete i o =>
    by_cases hp : (s.objects o).phantomized = true
    · exact hspare ⟨(h.deletes.pending (.inl (List.mem_of_getElem? he))).1, hp⟩
    · left
      intro l hl hph
      rw [run.flags.agree hl] at hph
      exact absurd hph hp
  | initStrong d => trivial
  | incStrong o => trivial
  | decStrong o => trivial
  | enter i c => trivial

end

section
variable {s : State} (run : Run CleansCurated initial s)
include run

/-- Phantomized objects keep their collectors in such a run. -/
theorem Run.classSound : Curated s ∧ Sound s (restLedger True False s) := by
  induction run with
  | start =>
    refine ⟨fun x hx => ?_, sound_initial True False⟩
    cases hx.2
  | step run he hok ih =>
    have hrun : Run anyStep initial _ := run.mono fun _ _ _ => trivial
    exact ⟨ih.1.step hrun he hok,
      ih.2.exec he (fun _ => ih.1.guarded hrun he hok) fun hf => hf.elim⟩

end
end Acid

import Acid.OrderedObject

set_option autoImplicit false

/-!
# The requests of the mutator's calls and of `collector_run`
-/
namespace Acid.Locked

open Procedure

variable {t t' : Locker.Thread Lockable}

/-! ## `object_set` -/

theorem obeys_linkCreate (src : ℕ) (target : Option ℕ) :
    Obeys t Open (linkCreate src target) fun _ => Open := by
  intro m _ _ hμ
  refine ⟨follows_self rfl rfl rfl, ?_⟩
  intro lk m' hr
  obtain ⟨rfl, rfl⟩ := returns_act.mp hr
  exact ⟨hμ.rooted, hμ.tame⟩

section
variable (n : ℕ) {obj referent : ℕ} (hbelow : Below 1 t) (hobj : 0 < t.hold (.object obj))
include hbelow hobj

theorem obeys_objectSetLabel (href : 0 < t.hold (.object referent)) (lk : ℕ) :
    Obeys t Open (objectSetLabel n obj referent lk) fun _ => Open := by
  have hplaces := open_steady.closed
  apply Obeys.idle
  intro phantomized
  apply Obeys.ite
  · intro _
    apply (obeys_objectMergeCollectors open_steady n hbelow hobj href).bind
      (balanced_objectMergeCollectors n obj referent)
    intro _
    apply Obeys.assertion hplaces
    apply Obeys.places hplaces fun s => modifyObject_places s referent rfl
    exact obeys_places hplaces fun s => modifyLink_places s lk rfl rfl
  · intro _
    apply Obeys.idle
    intro target
    apply Obeys.places hplaces fun s => modifyLink_places s lk rfl rfl
    exact obeys_places hplaces fun s => modifyObject_places s referent rfl

theorem obeys_objectSetLink (fieldOffset : ℕ) (referent : Option ℕ)
    (href : ∀ r, referent = some r → 0 < t.hold (.object r)) :
    Obeys t Open (objectSetLink n obj fieldOffset referent) fun _ => Open := by
  apply Obeys.idle
  intro oldLink
  cases referent with
  | none =>
    refine Obeys.tables ?_ ?_
    · intro _
      rfl
    · exact obeys_pure fun _ h => h
  | some r =>
    apply Obeys.read
    intro oldTarget
    apply Obeys.ite
    · intro _
      exact obeys_pure fun _ h => h
    · intro _
      apply (obeys_linkCreate obj _).bind (balanced_linkCreate obj _)
      intro lk
      refine Obeys.tables ?_ ?_
      · intro _
        rfl
      · apply (obeys_objectSetLabel n hbelow hobj (href r rfl) lk).bind
          (balanced_objectSetLabel n obj r lk)
        intro _
        exact obeys_pure fun _ h => h

end

theorem obeys_objectSet (n obj fieldOffset : ℕ) (referent : Option ℕ) (hbelow : Below 0 t) :
    Obeys t Open (objectSet n obj fieldOffset referent) fun _ => Open := by
  have hlevel := objectLocks_level obj referent
  apply Obeys.start2 (hbelow.request fun k hk => .inr (hlevel k hk))
  intro t' ho
  have hbelow' : Below 1 t' := by
    apply hbelow.held ho
    intro k hk
    rw [hlevel k hk]
    exact Nat.one_pos
  have href : ∀ r, referent = some r → 0 < t'.hold (.object r) := by
    intro r hr
    apply ho.new
    simp [hr]
  apply (obeys_objectSetLink n hbelow' (ho.new (by simp)) fieldOffset referent href).bind
    (balanced_objectSetLink n obj fieldOffset referent)
  intro oldLink
  apply Obeys.stop ho.close
  cases oldLink with
  | none => exact obeys_pure fun _ h => h
  | some lk => exact obeys_linkDec open_steady n lk (.inl hbelow)

theorem obeys_acidSetRaw (n : ℕ) (varobj : Option ℕ) (valobj : ℕ) (hbelow : Below 0 t) :
    Obeys t Open (acidSetRaw n varobj valobj) fun _ => Open := by
  have hlevel := objectLocks_level valobj varobj
  apply Obeys.start2 (hbelow.request fun k hk => .inr (hlevel k hk))
  intro t' ho
  have hbelow' : Below 1 t' := by
    apply hbelow.held ho
    intro k hk
    rw [hlevel k hk]
    exact Nat.one_pos
  have hval : Free t' valobj := .inr ⟨hbelow', ho.new (by simp)⟩
  apply (obeys_objectIncStrong open_steady.closed hval).bind (balanced_objectIncStrong valobj)
  intro _
  cases varobj with
  | none => exact obeys_lockerEnd fun _ h => h
  | some o =>
    have hvar : Free t' o := .inr ⟨hbelow', ho.new (by simp)⟩
    apply (obeys_objectDecStrong open_steady n hvar).bind (balanced_objectDecStrong n o)
    intro _
    exact obeys_lockerEnd fun _ h => h

/-! ## `collector_run` -/

theorem obeys_collectorDestroy (c : ℕ) :
    Obeys t (fun _ => True) (collectorDestroy c) fun _ _ => True := by
  have hany : ∀ f, Obeys t (fun _ => True) (modify f) fun _ _ => True :=
    fun f => obeys_modify fun _ h => h
  iterate 5 apply (hany _).bind (balanced_safelistDeinit _); intro _
  exact hany _

/-- What `collector_run` does after its loops. -/
def collectorExit (c : ℕ) : Proc Bool := do
  let g ← gets fun s => s.forward c
  lockerStart [collectorLock c, g.bind collectorLock]
  if ← gets fun s => counterDone s c then do
    collectorTerminate c
    lockerEnd
    collectorDestroy c
    pure false
  else do
    lockerEnd
    pure true

theorem obeys_collectorExit (c : ℕ) (hbelow : Below 0 t) :
    Obeys t Open (collectorExit c) fun _ _ => True := by
  apply Obeys.gets
  intro g
  have hlevel : ∀ k, some k ∈ [collectorLock c, g.bind collectorLock] → k.level = 1 := by
    simp only [List.mem_cons, some_eq_collectorLock, some_eq_bind_collectorLock,
      List.not_mem_nil, or_false]
    rintro k (rfl | ⟨d, _, rfl⟩)
    · rfl
    · rfl
  apply Obeys.start2 ((hbelow.mono (Nat.zero_le 1)).request fun k hk => .inr (hlevel k hk))
  intro t' ho
  apply Obeys.idle
  intro done
  apply Obeys.ite
  · intro _
    have hforward : ∀ μ, Open μ ∧ μ.heap.forward c = g →
        ∀ d, μ.heap.forward c = some d → 0 < t'.hold (.collector d) := by
      rintro μ ⟨_, hg⟩ d hd
      apply ho.new
      simp [← hg, hd]
    apply (obeys_collectorTerminate (ho.new (by simp)) hforward).bind (balanced_collectorTerminate c)
    intro _
    apply Obeys.stop ho.close
    apply (obeys_collectorDestroy c).bind (balanced_collectorDestroy c)
    intro _
    exact obeys_pure fun _ _ => trivial
  · intro _
    apply Obeys.stop ho.close
    exact obeys_pure fun _ _ => trivial

theorem obeys_collectorRun {p : Setting} (hndebug : p.ndebug = true) (c : ℕ) (hbelow : Below 0 t) :
    Obeys t (fun μ => Open μ ∧ Sourced μ.heap) (collectorRun p c) fun _ _ => True := by
  have hbelow₂ : Below 2 t := hbelow.mono (by omega)
  have hsourced : Steady fun μ => Open μ ∧ Sourced μ.heap :=
    open_steady.and fun _ _ hs h => hs.sourced h
  apply Obeys.idle
  intro waiting
  apply Obeys.ite
  · intro _
    exact obeys_pure fun _ _ => trivial
  intro _
  apply Obeys.start1
  · apply (hbelow.mono (Nat.zero_le 1)).request
    simp [Lockable.level]
  intro t' ho
  have hbelow' : Below 2 t' := by
    apply hbelow.held ho
    simp [Lockable.level]
  apply Obeys.pollLoop hsourced.closed (.inl hbelow')
  · intro obj
    exact obeys_safelistAdd hsourced.closed _ _ obj (.inl hbelow')
  · intro obj
    exact balanced_safelistAdd _ _ obj
  apply Obeys.stop ho.close
  apply Obeys.pollLoop hsourced.closed (.inl hbelow₂)
  · intro obj
    apply (obeys_objectPhantomizeNode hsourced (fun _ h => h.2) hndebug obj hbelow).bind
      (balanced_objectPhantomizeNode p obj)
    intro _
    exact obeys_safelistAdd hsourced.closed _ _ obj (.inl hbelow₂)
  · intro obj
    exact (balanced_objectPhantomizeNode p obj).bind fun _ => balanced_safelistAdd _ _ obj
  -- a wait for another collector may change the tables from here on
  apply Obeys.weaken _ fun μ (hμ : Open μ ∧ Sourced μ.heap) => hμ.1
  apply Obeys.pollLoop open_steady.closed (.inl hbelow₂)
  · intro obj
    apply (obeys_objectRecoverNode hbelow _ c).bind (balanced_objectRecoverNode _ obj c)
    intro _
    exact obeys_safelistAdd open_steady.closed _ _ obj (.inl hbelow₂)
  · intro obj
    exact (balanced_objectRecoverNode _ obj c).bind fun _ => balanced_safelistAdd _ _ obj
  apply Obeys.pollLoop open_steady.closed (.inl hbelow₂)
  · intro obj
    exact obeys_objectRecoverNode hbelow _ c
  · intro obj
    exact balanced_objectRecoverNode _ obj c
  apply Obeys.pollLoop open_steady.closed (.inl hbelow₂)
  · intro obj
    exact obeys_objectCleanNode _ obj hbelow
  · intro obj
    exact balanced_objectCleanNode _ obj
  exact obeys_collectorExit c hbelow

end Acid.Locked

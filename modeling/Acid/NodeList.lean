import Acid.NodeSegment

set_option autoImplicit false

/-!
# The linked list of `lib/collectc/list.c`

The nodes of all lists lie in one memory. An access through `NULL` or to a freed node
has no result. Of the library only what the collector calls is here.
-/
namespace Acid.NodeList
open NodeSegment

variable {α : Type}

/-- `struct list_s`, less its allocators. -/
structure Header where
  size : ℕ := 0
  head : Option ℕ := none
  tail : Option ℕ := none

/-- The nodes by address, and the lists. -/
structure World (α : Type) where
  nodes : Store ℕ α := fun _ => none
  lists : ℕ → Header := fun _ => {}

/-- `enum cc_stat`, as far as these functions return it. -/
inductive Stat where
  | ok | errAlloc | errValueNotFound
deriving DecidableEq

namespace World

def setList (w : World α) (l : ℕ) (h : Header) : World α :=
  { w with lists := Function.update w.lists l h }

/-- `mem_calloc` returns a free address, or `NULL`. -/
def calloc (w : World α) (wish : Option ℕ) : Option ℕ := wish.filter fun a => (w.nodes a).isNone

/-- `node->next = next`. -/
def writeNext (w : World α) (node next : Option ℕ) : Option (World α) := do
  let a ← node
  let d ← w.nodes a
  pure { w with nodes := Function.update w.nodes a (some { d with next := next }) }

/-- `node->prev = prev`. -/
def writePrev (w : World α) (node prev : Option ℕ) : Option (World α) := do
  let a ← node
  let d ← w.nodes a
  pure { w with nodes := Function.update w.nodes a (some { d with prev := prev }) }

/-- `if (prev != NULL) prev->next = next`. -/
def linkNext (w : World α) (prev next : Option ℕ) : Option (World α) :=
  if prev ≠ none then w.writeNext prev next else some w

/-- `if (next != NULL) next->prev = prev`. -/
def linkPrev (w : World α) (next prev : Option ℕ) : Option (World α) :=
  if next ≠ none then w.writePrev next prev else some w

end World

def listAddLast (w : World α) (l : ℕ) (element : α) (wish : Option ℕ) :
    Option (World α × Stat) :=
  match w.calloc wish with
  | none => some (w, .errAlloc)
  | some node => do
    let w := { w with nodes := Function.update w.nodes node (some ⟨element, none, none⟩) }
    let list := w.lists l
    if list.size = 0 then
      pure (w.setList l { size := list.size + 1, head := some node, tail := some node }, .ok)
    else
      let w ← w.writePrev (some node) list.tail
      let w ← w.writeNext list.tail (some node)
      pure (w.setList l { list with size := list.size + 1, tail := some node }, .ok)

/-- `list_add`. -/
def listAdd (w : World α) (l : ℕ) (element : α) (wish : Option ℕ) : Option (World α × Stat) :=
  listAddLast w l element wish

def unlink (w : World α) (l : ℕ) (node : Option ℕ) : Option (World α × α) := do
  let a ← node
  let d ← w.nodes a
  let w ← w.linkNext d.prev d.next
  let w := if d.prev = none then w.setList l { w.lists l with head := d.next } else w
  let w := if d.next = none then w.setList l { w.lists l with tail := d.prev } else w
  let w ← w.linkPrev d.next d.prev
  let w := { w with nodes := Function.update w.nodes a none }
  pure (w.setList l { w.lists l with size := (w.lists l).size - 1 }, d.data)

def listRemoveFirst (w : World α) (l : ℕ) : Option (World α × Stat × Option α) :=
  if (w.lists l).size = 0 then some (w, .errValueNotFound, none)
  else do
    let (w, e) ← unlink w l (w.lists l).head
    pure (w, .ok, some e)

def listRemoveLast (w : World α) (l : ℕ) : Option (World α × Stat × Option α) :=
  if (w.lists l).size = 0 then some (w, .errValueNotFound, none)
  else do
    let (w, e) ← unlink w l (w.lists l).tail
    pure (w, .ok, some e)

/-- The loop of `unlink_all`, with a bound on its iterations. -/
def unlinkAll (l : ℕ) : ℕ → World α → Option ℕ → Option (World α)
  | _, w, none => some w
  | 0, _, some _ => none
  | n + 1, w, some a => do
    let d ← w.nodes a
    let (w, _) ← unlink w l (some a)
    unlinkAll l n w d.next

def listRemoveAll (w : World α) (l : ℕ) : Option (World α × Stat) :=
  if (w.lists l).size = 0 then some (w, .errValueNotFound)
  else do
    let w ← unlinkAll l (w.lists l).size w (w.lists l).head
    pure (w.setList l { w.lists l with head := none, tail := none }, .ok)

/-- `list_destroy`, with the record of the list as `list_new` makes it again. -/
def listDestroy (w : World α) (l : ℕ) : Option (World α) := do
  let w ← if 0 < (w.lists l).size then (listRemoveAll w l).map Prod.fst else pure w
  pure (w.setList l {})

def listSize (w : World α) (l : ℕ) : ℕ := (w.lists l).size

/-! ## The sequences that the lists stand for -/

/-- List `l` consists of the nodes `xs`. -/
structure Rep (w : World α) (l : ℕ) (xs : List (ℕ × α)) : Prop where
  size : (w.lists l).size = xs.length
  head : (w.lists l).head = first xs
  tail : (w.lists l).tail = last xs
  segment : Segment w.nodes none xs none
  nodup : (xs.map Prod.fst).Nodup

/-- No node is in two lists, and none outside of the lists is allocated. -/
structure Reps (w : World α) (xs : ℕ → List (ℕ × α)) : Prop where
  rep : ∀ l, Rep w l (xs l)
  apart : ∀ {l k a}, a ∈ (xs l).map Prod.fst → a ∈ (xs k).map Prod.fst → l = k
  used : ∀ {a}, w.nodes a ≠ none → ∃ l, a ∈ (xs l).map Prod.fst

theorem Rep.congr {w w' : World α} {l : ℕ} {xs : List (ℕ × α)} (h : Rep w l xs)
    (hl : w'.lists l = w.lists l) (hn : ∀ a ∈ xs.map Prod.fst, w'.nodes a = w.nodes a) :
    Rep w' l xs where
  size := by rw [hl, h.size]
  head := by rw [hl, h.head]
  tail := by rw [hl, h.tail]
  segment := h.segment.congr hn
  nodup := h.nodup

inductive Call (α : Type) where
  | add (l : ℕ) (element : α) (wish : Option ℕ)
  | removeFirst (l : ℕ)
  | removeLast (l : ℕ)
  | removeAll (l : ℕ)
  | destroy (l : ℕ)
  | size (l : ℕ)

/-- The status, the out parameter and the returned size of a call. -/
structure Reply (α : Type) where
  stat : Stat := .ok
  out : Option α := none
  size : ℕ := 0

def call (w : World α) : Call α → Option (World α × Reply α)
  | .add l element wish => (listAdd w l element wish).map fun p => (p.1, { stat := p.2 })
  | .removeFirst l => (listRemoveFirst w l).map fun p => (p.1, { stat := p.2.1, out := p.2.2 })
  | .removeLast l => (listRemoveLast w l).map fun p => (p.1, { stat := p.2.1, out := p.2.2 })
  | .removeAll l => (listRemoveAll w l).map fun p => (p.1, { stat := p.2 })
  | .destroy l => (listDestroy w l).map fun w => (w, {})
  | .size l => some (w, { size := listSize w l })

def run (w : World α) : List (Call α) → Option (World α × List (Reply α))
  | [] => some (w, [])
  | c :: cs => do
    let (w, r) ← call w c
    let (w, rs) ← run w cs
    pure (w, r :: rs)

/-- The sequences that the lists stand for. -/
def contents (xs : ℕ → List (ℕ × α)) (l : ℕ) : List α := (xs l).map Prod.snd

theorem Reps.size_eq_zero {w : World α} {xs : ℕ → List (ℕ × α)} (h : Reps w xs) (l : ℕ) :
    (w.lists l).size = 0 ↔ xs l = [] := by
  rw [(h.rep l).size, List.length_eq_zero_iff]

end Acid.NodeList

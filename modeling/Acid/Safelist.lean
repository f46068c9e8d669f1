import Acid.PointerForest
import Acid.State

set_option autoImplicit false

/-!
# `counter.c` and `safelist.c`

A list adds to and polls from its own collector's counter, as `safelist_init`
hands the same counter to all five lists.
-/
namespace Acid

def counterIncRef (s : State) (c : ℕ) : State :=
  s.modifyCollector c fun k => { k with refCount := k.refCount + 1 }

/-- The counters are unsigned, so a decrement of zero is logged. -/
def counterDecRef (s : State) (c : ℕ) : State :=
  (s.check (0 < (s.collectors c).refCount) (.counterUnderflow c)).modifyCollector c
    fun k => { k with refCount := k.refCount - 1 }

def counterIncStore (s : State) (c : ℕ) : State :=
  s.modifyCollector c fun k => { k with storeCount := k.storeCount + 1 }

def counterDecStore (s : State) (c : ℕ) : State :=
  (s.check (0 < (s.collectors c).storeCount) (.counterUnderflow c)).modifyCollector c
    fun k => { k with storeCount := k.storeCount - 1 }

def counterContinueWaiting (s : State) (c : ℕ) : Bool :=
  0 < (s.collectors c).refCount && (s.collectors c).storeCount = 0

def counterDone (s : State) (c : ℕ) : Bool :=
  (s.collectors c).refCount = 0 && (s.collectors c).storeCount = 0

/-- The branch of `safelist_add` for a list without a forward pointer. -/
def safelistPush (s : State) (r : ListRef) (datum : ℕ) : State :=
  (counterIncStore s r.1).modifySafelist r fun l => { l with data := l.data ++ [datum] }

/-- A forwarded list hands the datum to the end of its chain. -/
def safelistAdd (s : State) (r : ListRef) (datum : ℕ) : State :=
  match s.listForward r with
  | none => safelistPush s r datum
  | some f => safelistPush s (PointerForest.chase s.listForward s.numCollector f) datum

def safelistPoll (s : State) (r : ListRef) : State × Option ℕ :=
  match (s.safelist r).data with
  | [] => (s, none)
  | o :: rest => ((counterDecStore s r.1).modifySafelist r fun l => { l with data := rest }, some o)

theorem safelistPoll_nil {s : State} {r : ListRef} (h : (s.safelist r).data = []) :
    safelistPoll s r = (s, none) := by
  simp [safelistPoll, h]

theorem safelistPoll_cons {s : State} {r : ListRef} {o : ℕ} {rest : List ℕ}
    (h : (s.safelist r).data = o :: rest) :
    safelistPoll s r =
      ((counterDecStore s r.1).modifySafelist r fun l => { l with data := rest }, some o) := by
  simp [safelistPoll, h]

/-- The loop of `safelist_forward` over at most `n` elements. -/
def safelistDrain (dest r : ListRef) : ℕ → State → State
  | 0, s => s
  | n + 1, s =>
    match safelistPoll s r with
    | (s, none) => s
    | (s, some o) => safelistDrain dest r n (safelistAdd s dest o)

def safelistForward (s : State) (r dest : ListRef) : State :=
  (safelistDrain dest r (s.safelist r).data.length s).modifySafelist r
    fun l => { l with forward := some dest }

end Acid

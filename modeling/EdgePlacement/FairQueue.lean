import EdgePlacement.Failure
import Std.Data.HashMap

/-!
A queue of entries in which the one chosen least often comes first.

The entries form a binary heap in an array: the children of position `i` are at `2 * i + 1`
and `2 * i + 2`, and no child has a smaller count than its parent. Beside the heap an index
from id to position lets any entry be found and taken out; every exchange of two entries
updates it, so that it names exactly the positions of the heap.

Among entries of equal count the order is the one these operations produce: sifting up
stops at a parent that is not strictly greater, and sifting down prefers the left child
unless the right one is strictly smaller. -/
namespace EdgePlacement

/-- A piece of content that can be handed out. -/
structure Entry where
  id : String
  /-- The size in bytes. -/
  size : UInt64
  /-- How often the entry has been chosen. -/
  count : UInt64
deriving DecidableEq, Repr

structure FairQueue where
  heap : Array Entry
  /-- The position of each id in the heap. -/
  index : Std.HashMap String Nat

namespace FairQueue

def empty : FairQueue := ⟨#[], ∅⟩

def size (q : FairQueue) : Nat := q.heap.size

def isEmpty (q : FairQueue) : Bool := q.heap.isEmpty

/-- The queued entry of an id, found through the index. -/
def get? (q : FairQueue) (id : String) : Option Entry :=
  q.index[id]?.bind (q.heap[·]?)

def contains (q : FairQueue) (id : String) : Bool := q.index.contains id

def count? (q : FairQueue) (id : String) : Option UInt64 := (q.get? id).map (·.count)

/-- The entry the next `popMin` yields. -/
def min? (q : FairQueue) : Option Entry := q.heap[0]?

/-! ### Positions -/

def parent (i : Nat) : Nat := (i - 1) / 2

/-- Whether the entry at `i` has been chosen strictly less often than the one at `j`. -/
def before (q : FairQueue) (i j : Nat) : Bool :=
  match q.heap[i]?, q.heap[j]? with
  | some a, some b => decide (a.count < b.count)
  | _, _ => false

theorem lt_size_of_before {q : FairQueue} {i j : Nat} (h : q.before i j = true) :
    i < q.size := by
  unfold before at h
  split at h
  · next a b ha hb => exact (Array.getElem?_eq_some_iff.1 ha).1
  · cases h

/-- The index with the position `i` of the entry that is there. -/
def reindex (heap : Array Entry) (index : Std.HashMap String Nat) (i : Nat) :
    Std.HashMap String Nat :=
  match heap[i]? with
  | some e => index.insert e.id i
  | none => index

/-- Exchanges the entries at two positions. -/
def swap (q : FairQueue) (i j : Nat) : FairQueue :=
  if i = j then q
  else
    let heap := q.heap.swapIfInBounds i j
    ⟨heap, reindex heap (reindex heap q.index i) j⟩

@[simp] theorem size_swap (q : FairQueue) (i j : Nat) : (q.swap i j).size = q.size := by
  unfold swap size
  split <;> simp

/-! ### Restoring the order -/

/-- Moves the entry at `i` up while it is strictly before its parent. Yields its new
position beside the queue. -/
def siftUp (q : FairQueue) (i : Nat) : Nat × FairQueue :=
  if i = 0 then (i, q)
  else if q.before i (parent i) then siftUp (q.swap i (parent i)) (parent i)
  else (i, q)
termination_by i
decreasing_by unfold parent; omega

/-- The position among `i` and its two children that comes first, earlier ones preferred. -/
def leastOfFamily (q : FairQueue) (i : Nat) : Nat :=
  let left := 2 * i + 1
  let right := 2 * i + 2
  if q.before left i then
    if q.before right left then right else left
  else
    if q.before right i then right else i

theorem lt_leastOfFamily {q : FairQueue} {i : Nat} (h : q.leastOfFamily i ≠ i) :
    i < q.leastOfFamily i ∧ q.leastOfFamily i < q.size := by
  unfold leastOfFamily at h ⊢
  simp only at h ⊢
  split at h <;> split at h
  · next hl hr =>
    have := lt_size_of_before hr
    simp only [hl, hr, if_true]
    omega
  · next hl hr =>
    have := lt_size_of_before hl
    simp only [hl, if_true, if_neg hr]
    omega
  · next hl hr =>
    have := lt_size_of_before hr
    simp only [if_neg hl, hr, if_true]
    omega
  · exact absurd rfl h

/-- Moves the entry at `i` down while one of its children is strictly before it. -/
def siftDown (q : FairQueue) (i : Nat) : FairQueue :=
  let least := q.leastOfFamily i
  if least = i then q else siftDown (q.swap i least) least
termination_by q.size - i
decreasing_by
  have := lt_leastOfFamily (q := q) (i := i) ‹_›
  simp only [size_swap]
  omega

/-- Moves the entry at `i` to the root, whatever its count. -/
def raiseToRoot (q : FairQueue) (i : Nat) : FairQueue :=
  if i = 0 then q else raiseToRoot (q.swap i (parent i)) (parent i)
termination_by i
decreasing_by unfold parent; omega

/-! ### Operations -/

/-- Queues an entry; one that is queued under the same id is replaced. -/
def insert (q : FairQueue) (e : Entry) : FairQueue :=
  match q.index[e.id]? with
  | some i =>
    let (i, q) := siftUp ⟨q.heap.setIfInBounds i e, q.index⟩ i
    q.siftDown i
  | none =>
    let i := q.size
    (siftUp ⟨q.heap.push e, q.index.insert e.id i⟩ i).2

/-- Takes out the entry that comes first. -/
def popMin (q : FairQueue) : Option Entry × FairQueue :=
  let q := q.swap 0 (q.size - 1)
  match q.heap.back? with
  | none => (none, q)
  | some e => (some e, siftDown ⟨q.heap.pop, q.index.erase e.id⟩ 0)

/-- Takes out the entry of an id: it goes to the root and is popped from there. -/
def extract (q : FairQueue) (id : String) : Except Failure Entry × FairQueue :=
  match q.index[id]? with
  | none => (.error (.notFound id), q)
  | some i =>
    match (q.raiseToRoot i).popMin with
    | (some e, q) => (.ok e, q)
    | (none, q) => (.error (.notFound id), q)

@[simp] theorem size_siftDown (q : FairQueue) (i : Nat) : (q.siftDown i).size = q.size := by
  fun_induction siftDown q i with
  | case1 => rfl
  | case2 q i least h ih => rw [ih, size_swap]

/-- Popping an entry leaves one fewer. -/
theorem size_popMin {q q' : FairQueue} {e : Entry} (h : q.popMin = (some e, q')) :
    q'.size + 1 = q.size := by
  unfold popMin at h
  simp only at h
  split at h
  · cases h
  · next e' he =>
    cases h
    have hs := size_swap q 0 (q.size - 1)
    have hb : 0 < (q.swap 0 (q.size - 1)).heap.size := by
      rw [Array.back?_eq_getElem?] at he
      have := (Array.getElem?_eq_some_iff.1 he).1
      omega
    rw [size_siftDown]
    simp only [size, Array.size_pop] at hs hb ⊢
    omega

/-- All entries in the order in which popping yields them. -/
def drain (q : FairQueue) : List Entry :=
  match _h : q.popMin with
  | (none, _) => []
  | (some e, q') => e :: drain q'
termination_by q.size
decreasing_by
  have := size_popMin ‹_›
  omega

end FairQueue
end EdgePlacement

import EdgePlacement.FairQueue
import EdgePlacement.Size.Table

/-!
Placement request by request.

The allocator keeps one fair queue per size class. A request visits classes from the
largest its space reaches downwards. A visit takes entries in queue order as long as they
fit: an entry that is too large ends it, and so does a space smaller than every entry of
the class, which is when it falls below the threshold of the class beneath. What was taken
goes back into the queue with its count raised by one, what was too large goes back as it
was. The next visit is to the class below, or further down where the space left reaches no
higher. Class 0 holds the entries of size 0 and is never visited. -/
namespace EdgePlacement

structure Greedy where
  table : SizeTable
  /-- One queue per class of the table. -/
  queues : Array FairQueue
  /-- The class in which each tracked id is queued. -/
  placed : Std.HashMap String Nat

namespace Greedy

def new (table : SizeTable) : Greedy :=
  ⟨table, Array.replicate table.size .empty, ∅⟩

/-- The number of tracked entries. -/
def size (g : Greedy) : Nat := g.placed.size

/-- The queue of a class, empty where the table has no such class. -/
def queue (g : Greedy) (sizeClass : Nat) : FairQueue := g.queues[sizeClass]?.getD .empty

def setQueue (g : Greedy) (sizeClass : Nat) (q : FairQueue) : Greedy :=
  { g with queues := g.queues.setIfInBounds sizeClass q }

/-- The tracked entry of an id. -/
def get? (g : Greedy) (id : String) : Option Entry :=
  g.placed[id]?.bind fun sizeClass => (g.queue sizeClass).get? id

/-- How often a tracked entry has been chosen. -/
def count? (g : Greedy) (id : String) : Option UInt64 := (g.get? id).map (·.count)

/-- How many entries are queued in each class. -/
def perClass (g : Greedy) : List Nat := g.queues.toList.map (·.size)

/-! ### Registration -/

def register (g : Greedy) (id : String) (size : UInt64) : Except Failure Unit × Greedy :=
  if g.placed.contains id then (.error (.duplicateEntry id), g)
  else
    let sizeClass := g.table.classFor size
    let g := g.setQueue sizeClass ((g.queue sizeClass).insert ⟨id, size, 0⟩)
    (.ok (), { g with placed := g.placed.insert id sizeClass })

def unregister (g : Greedy) (id : String) : Except Failure Unit × Greedy :=
  match g.placed[id]? with
  | none => (.error (.notFound id), g)
  | some sizeClass =>
    let g := { g with placed := g.placed.erase id }
    match (g.queue sizeClass).extract id with
    | (.ok _, q) => (.ok (), g.setQueue sizeClass q)
    | (.error e, q) => (.error e, g.setQueue sizeClass q)

/-! ### Visits -/

/-- What one visit takes from a queue. -/
structure Haul where
  /-- The entries taken, in order and with the counts they had. -/
  taken : List Entry
  /-- The entry that ended the visit by being too large. -/
  tooLarge : Option Entry
  /-- The space left. -/
  space : UInt64
  /-- The queue without all of these. -/
  rest : FairQueue

/-- Pops entries while they fit and the space is not below `lower`. -/
def haul (lower space : UInt64) (q : FairQueue) : Haul :=
  if space < lower then ⟨[], none, space, q⟩
  else
    match _h : q.popMin with
    | (none, q') => ⟨[], none, space, q'⟩
    | (some e, q') =>
      if space < e.size then ⟨[], some e, space, q'⟩
      else
        let more := haul lower (space - e.size) q'
        { more with taken := e :: more.taken }
termination_by q.size
decreasing_by
  have := FairQueue.size_popMin ‹_›
  omega

/-- The queue after a visit: the entries taken, counted, and then the one too large. -/
def Haul.putBack (h : Haul) : FairQueue :=
  let counted := h.taken.map fun e => { e with count := e.count + 1 }
  (counted ++ h.tooLarge.toList).foldl FairQueue.insert h.rest

/-- A visit to a class: the space on entering it and what it took. -/
structure Visit where
  sizeClass : Nat
  space : UInt64
  taken : List Entry

/-- The bound below which no entry of a class fits: entries of a class are larger than the
threshold of the class beneath. -/
def lowerBound (g : Greedy) (sizeClass : Nat) : UInt64 :=
  (g.table.bound? (sizeClass - 1)).getD 0

/-- The visits from a class downwards, in order, and the allocator after them. -/
def walk (g : Greedy) (sizeClass : Nat) (space : UInt64) : List Visit × Greedy :=
  if sizeClass = 0 ∨ space = 0 then ([], g)
  else
    let h := haul (g.lowerBound sizeClass) space (g.queue sizeClass)
    let next := min (sizeClass - 1) (g.table.reach h.space)
    let (visits, g) := walk (g.setQueue sizeClass h.putBack) next h.space
    (⟨sizeClass, space, h.taken⟩ :: visits, g)
termination_by sizeClass
decreasing_by omega

/-- The visits a request for `available` bytes makes, and the allocator after them. -/
def visits (g : Greedy) (available : UInt64) : List Visit × Greedy :=
  g.walk (g.table.reach available) available

/-- The ids chosen for a request, in order. -/
def allocate (g : Greedy) (available : UInt64) : List String × Greedy :=
  let (visits, g) := g.visits available
  (visits.flatMap fun v => v.taken.map (·.id), g)

end Greedy
end EdgePlacement

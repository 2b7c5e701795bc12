import EdgePlacement.Placement.Allocator
import Std.Data.TreeMap

/-!
One allocator per location.

The first registration at a location creates its allocator, and the removal that brings
the location's live count to zero ends the location. The count is raised before the
allocator is asked to register and lowered again when it refuses, so a refusal leaves
nothing behind.

Allocators are numbered in the order of their creation. A `Handle` names one by location
and number, and stays good when the location has ended: its allocator is kept among the
retired ones, and a later allocator at the same location has another number. -/
namespace EdgePlacement

/-- What a live location has. -/
structure Slot where
  /-- The number of the allocator. -/
  number : Nat
  allocator : Allocator
  /-- Entries registered and not yet removed. No wrap-around is modelled, unlike for the counters
  of an allocator: the count goes up by one with each registration, so a machine word of 64 bits
  would wrap only after 2 ^ 64 registrations that were accepted and not removed, and a count of
  zero ends the location before it could be lowered further. -/
  live : Nat

/-- Names one allocator for as long as anyone cares to use it. -/
structure Handle where
  location : String
  number : Nat
deriving DecidableEq, Repr

structure Registry where
  /-- Makes the allocator of a location seen for the first time. -/
  factory : String → Except Failure Allocator
  slots : Std.TreeMap String Slot
  /-- The allocators of locations that have ended, by number. -/
  retired : Std.HashMap Nat Allocator
  /-- How many allocators have been made. -/
  made : Nat

namespace Registry

def new (factory : String → Except Failure Allocator) : Registry := ⟨factory, ∅, ∅, 0⟩

/-- A registry of greedy allocators that has none for the locations in `refused`. -/
def refusing (table : SizeTable) (refused : List String) : Registry :=
  new fun location =>
    if location ∈ refused then .error (.config (.noAllocator location))
    else .ok (.greedy (.new table))

/-! ### Looking -/

/-- The live locations in ascending order. -/
def locations (r : Registry) : List String := r.slots.keys

/-- The number of live locations. -/
def size (r : Registry) : Nat := r.slots.size

def isEmpty (r : Registry) : Bool := r.slots.isEmpty

/-- The live allocator of a location. -/
def allocator? (r : Registry) (location : String) : Option Allocator :=
  r.slots[location]?.map (·.allocator)

/-- The live count of a location, 0 where none is live. -/
def live (r : Registry) (location : String) : Nat := (r.slots[location]?.map (·.live)).getD 0

/-! ### Registration -/

/-- The slot of a location, made for it if it has none. A slot just made is not yet kept. -/
def slotFor (r : Registry) (location : String) : Except Failure (Slot × Registry) :=
  match r.slots[location]? with
  | some slot => .ok (slot, r)
  | none =>
    match r.factory location with
    | .error e => .error e
    | .ok a => .ok (⟨r.made, a, 0⟩, { r with made := r.made + 1 })

def setSlot (r : Registry) (location : String) (slot : Slot) : Registry :=
  { r with slots := r.slots.insert location slot }

/-- Puts a slot back with its live count lowered, which ends the location at zero. -/
def release (r : Registry) (location : String) (slot : Slot) : Registry :=
  if slot.live - 1 = 0 then
    { r with
      slots := r.slots.erase location
      retired := r.retired.insert slot.number slot.allocator }
  else r.setSlot location { slot with live := slot.live - 1 }

/-- Registers content at a location. -/
def register (r : Registry) (location id : String) (size : UInt64) :
    Except Failure Unit × Registry :=
  match r.slotFor location with
  | .error e => (.error e, r)
  | .ok (slot, r) =>
    let slot := { slot with live := slot.live + 1 }
    match slot.allocator.register id size with
    | (.ok _, a) => (.ok (), r.setSlot location { slot with allocator := a })
    | (.error e, a) => (.error e, r.release location { slot with allocator := a })

/-- Removes content from a location. -/
def unregister (r : Registry) (location id : String) : Except Failure Unit × Registry :=
  match r.slots[location]? with
  | none => (.error (.unknownLocation location), r)
  | some slot =>
    match slot.allocator.unregister id with
    | (.ok _, a) => (.ok (), r.release location { slot with allocator := a })
    | (.error e, a) => (.error e, r.setSlot location { slot with allocator := a })

/-! ### Requests and cycles -/

/-- The ids for a request of `available` bytes at a location, in order. -/
def allocate (r : Registry) (location : String) (available : UInt64) :
    Except Failure (List String) × Registry :=
  match r.slots[location]? with
  | none => (.error (.unknownLocation location), r)
  | some slot =>
    let (ids, a) := slot.allocator.allocate available
    (.ok ids, r.setSlot location { slot with allocator := a })

/-- One cycle at each of the given locations in turn, up to the first that fails. Yields
how many published, added to `published`. -/
def cycleEach (r : Registry) (coordinator : Coordinator) (published : Nat) :
    List String → Except Failure Nat × Registry
  | [] => (.ok published, r)
  | location :: rest =>
    match r.slots[location]? with
    | none => r.cycleEach coordinator published rest
    | some slot =>
      match slot.allocator.cycle coordinator with
      | (.error e, a) => (.error e, r.setSlot location { slot with allocator := a })
      | (.ok generation, a) =>
        (r.setSlot location { slot with allocator := a }).cycleEach coordinator
          (if generation.isSome then published + 1 else published) rest

/-- One cycle at every live location. -/
def cycle (r : Registry) (coordinator : Coordinator) : Except Failure Nat × Registry :=
  r.cycleEach coordinator 0 r.locations

/-- One background cycle at every live location whose allocator runs in the background. -/
def tick (r : Registry) (coordinator : Coordinator) : Registry :=
  { r with slots := r.slots.map fun _ slot =>
      { slot with allocator := slot.allocator.tick coordinator } }

/-! ### Handles -/

/-- The handle of a location's live allocator. -/
def handle? (r : Registry) (location : String) : Option Handle :=
  r.slots[location]?.map fun slot => ⟨location, slot.number⟩

/-- Acts on the allocator of a handle, live or retired, past the live counts. -/
def act {α : Type} (r : Registry) (handle : Handle) (f : Allocator → α × Allocator) :
    Option α × Registry :=
  let live := r.slots[handle.location]?.filter (·.number = handle.number)
  match live, r.retired[handle.number]? with
  | some slot, _ =>
    let (result, a) := f slot.allocator
    (some result, r.setSlot handle.location { slot with allocator := a })
  | none, some a =>
    let (result, a) := f a
    (some result, { r with retired := r.retired.insert handle.number a })
  | none, none => (none, r)

end Registry
end EdgePlacement

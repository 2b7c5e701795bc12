import EdgePlacement.Placement.Snapshot
import EdgePlacement.Text.Quoted

/-!
Placement from prepared answers.

Registration touches the live entries only. A cycle fetches the ranking under the
allocator's key, copies the live entries and publishes a snapshot for the menu; requests
are answered from the snapshot published last, whatever has been registered or removed
since. A cycle whose fetch fails publishes nothing. -/
namespace EdgePlacement

structure Prepared where
  menu : SizeTable
  /-- What the ranking is asked for under. -/
  key : String
  /-- The size of each tracked id. -/
  live : Std.HashMap String UInt64
  snapshot : Snapshot
  /-- Whether cycles also run in the background. -/
  running : Bool

namespace Prepared

def new (menu : SizeTable) (key : String) : Prepared :=
  ⟨menu, key, ∅, .empty menu, false⟩

/-- The number of tracked entries. -/
def size (p : Prepared) : Nat := p.live.size

/-- The tracked entries, in no particular order. -/
def items (p : Prepared) : List Item := p.live.toList.map fun (id, size) => ⟨id, size⟩

def register (p : Prepared) (id : String) (size : UInt64) : Except Failure Unit × Prepared :=
  if p.live.contains id then (.error (.duplicateEntry id), p)
  else (.ok (), { p with live := p.live.insert id size })

def unregister (p : Prepared) (id : String) : Except Failure Unit × Prepared :=
  if p.live.contains id then (.ok (), { p with live := p.live.erase id })
  else (.error (.notFound id), p)

/-- One cycle. Yields the generation it published. -/
def cycle (p : Prepared) (coordinator : Coordinator) : Except Failure UInt64 × Prepared :=
  match coordinator p.key with
  | .error e => (.error e, p)
  | .ok ranking =>
    let generation := p.snapshot.generation + 1
    (.ok generation, { p with snapshot := .build generation p.menu p.items ranking })

/-- The ids for a request of `available` bytes, in order. -/
def allocate (p : Prepared) (available : UInt64) : List String :=
  p.snapshot.allocate p.menu available

/-- Has cycles run in the background from now on. -/
def start (p : Prepared) : Prepared := { p with running := true }

/-- One cycle of the background worker, if there is one. A failed fetch is passed over. -/
def tick (p : Prepared) (coordinator : Coordinator) : Prepared :=
  if p.running then (p.cycle coordinator).2 else p

/-- The allocator in one line. -/
def describe (p : Prepared) : String :=
  let budgets := ", ".intercalate (p.menu.thresholds.toList.map toString)
  "PrecomputedAllocator \x7b budgets: SizeClasses \x7b thresholds: [" ++ budgets
    ++ "] \x7d, ranking_key: " ++ Text.quoted p.key
    ++ ", entries: " ++ toString p.size
    ++ ", generation: " ++ toString p.snapshot.generation
    ++ ", running: " ++ toString p.running ++ " \x7d"

end Prepared
end EdgePlacement

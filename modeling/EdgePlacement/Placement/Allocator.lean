import EdgePlacement.Placement.Greedy
import EdgePlacement.Placement.Prepared

/-!
An allocator of either strategy. -/
namespace EdgePlacement

inductive Allocator where
  | greedy (g : Greedy)
  | prepared (p : Prepared)

namespace Allocator

/-- The number of tracked entries. -/
def size : Allocator → Nat
  | .greedy g => g.size
  | .prepared p => p.size

def isEmpty (a : Allocator) : Bool := a.size == 0

/-- The size in bytes of a tracked entry. -/
def bytes? : Allocator → String → Option UInt64
  | .greedy g, id => (g.get? id).map (·.size)
  | .prepared p, id => p.live[id]?

def register : Allocator → String → UInt64 → Except Failure Unit × Allocator
  | .greedy g, id, size => let (result, g) := g.register id size; (result, .greedy g)
  | .prepared p, id, size => let (result, p) := p.register id size; (result, .prepared p)

def unregister : Allocator → String → Except Failure Unit × Allocator
  | .greedy g, id => let (result, g) := g.unregister id; (result, .greedy g)
  | .prepared p, id => let (result, p) := p.unregister id; (result, .prepared p)

/-- The ids for a request of `available` bytes, in order. -/
def allocate : Allocator → UInt64 → List String × Allocator
  | .greedy g, available => let (ids, g) := g.allocate available; (ids, .greedy g)
  | .prepared p, available => (p.allocate available, .prepared p)

/-- One cycle. Yields the generation published, or `none` where nothing is prepared. -/
def cycle : Allocator → Coordinator → Except Failure (Option UInt64) × Allocator
  | .greedy g, _ => (.ok none, .greedy g)
  | .prepared p, coordinator =>
    match p.cycle coordinator with
    | (.ok generation, p) => (.ok (some generation), .prepared p)
    | (.error e, p) => (.error e, .prepared p)

/-- One cycle of the background worker, if there is one. -/
def tick : Allocator → Coordinator → Allocator
  | .greedy g, _ => .greedy g
  | .prepared p, coordinator => .prepared (p.tick coordinator)

end Allocator
end EdgePlacement

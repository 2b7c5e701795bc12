import EdgePlacement.Placement.Solution
import EdgePlacement.Size.Table
import Std.Data.HashSet

/-!
Answers prepared for a menu of budgets.

A snapshot holds one solution per budget and all its items by size. A request starts from
the solution of the largest budget it covers. What is left of its space is topped off: the
items that are not in the solution are walked from the largest that can fit downwards, and
each that fits what is left at its turn is added. -/
namespace EdgePlacement

structure Snapshot where
  /-- How many cycles have published, this one included. -/
  generation : UInt64
  /-- One solution per budget of the menu. -/
  solutions : Array Solution
  /-- The sizes of all items, ascending. -/
  sizes : Array UInt64
  /-- The ids of the items, position by position those of `sizes`; of equal sizes in
  ascending order. -/
  ids : Array String

namespace Snapshot

/-- The snapshot before the first cycle. -/
def empty (menu : SizeTable) : Snapshot :=
  ⟨0, Array.replicate menu.size .empty, #[], #[]⟩

/-- Whether `a` stands no later than `b` in the order by size, then id. -/
def smaller (a b : Item) : Bool :=
  decide (a.size < b.size) || (a.size == b.size && decide (a.id ≤ b.id))

def build (generation : UInt64) (menu : SizeTable) (items : List Item) (ranking : Ranking) :
    Snapshot :=
  let ordered := Solution.inOrder ranking items
  let bySize := items.mergeSort smaller
  { generation
    solutions := menu.thresholds.map (Solution.ofBudget ordered)
    sizes := (bySize.map (·.size)).toArray
    ids := (bySize.map (·.id)).toArray }

/-- The solution of a budget of the menu. -/
def solution (s : Snapshot) (budget : Nat) : Solution := s.solutions[budget]?.getD .empty

/-- The ids added to `taken` from the first `count` positions, walked downwards, when
`space` is left. -/
def topOff (s : Snapshot) (taken : Std.HashSet String) : Nat → UInt64 → List String
  | 0, _ => []
  | count + 1, space =>
    if space = 0 then []
    else
      match s.sizes[count]?, s.ids[count]? with
      | some size, some id =>
        if size ≤ space ∧ id ∉ taken then id :: topOff s taken count (space - size)
        else topOff s taken count space
      | _, _ => topOff s taken count space

/-- The ids for a request of `available` bytes, in order. -/
def allocate (s : Snapshot) (menu : SizeTable) (available : UInt64) : List String :=
  let solution := s.solution (menu.reach available)
  let space := available - solution.bytes
  match Size.lastAtMost s.sizes space with
  | none => solution.ids
  | some largest =>
    solution.ids ++ s.topOff (Std.HashSet.ofList solution.ids) (largest + 1) space

end Snapshot
end EdgePlacement

import EdgePlacement.Coordinator

/-!
Packing a budget by priority.

Entries are tried in order of descending priority, equal priorities by id. Each entry that
fits the space left is taken, and packing ends when no space is left. -/
namespace EdgePlacement

/-- An id and its size in bytes. -/
structure Item where
  id : String
  size : UInt64
deriving DecidableEq, Repr

/-- What a budget is spent on. -/
structure Solution where
  /-- The ids chosen, in order. -/
  ids : List String
  /-- The bytes they take. -/
  bytes : UInt64
deriving DecidableEq, Repr

namespace Solution

def empty : Solution := ⟨[], 0⟩

/-- Whether `a` is tried no later than `b`. -/
def tried (ranking : Ranking) (a b : Item) : Bool :=
  let p := ranking.priority a.id
  let q := ranking.priority b.id
  decide (q < p) || (p == q && decide (a.id ≤ b.id))

/-- Items in the order in which they are tried. -/
def inOrder (ranking : Ranking) (items : List Item) : List Item :=
  items.mergeSort (tried ranking)

/-- The items taken from a list when `space` is left. -/
def take (space : UInt64) : List Item → List Item
  | [] => []
  | item :: rest =>
    if space = 0 then []
    else if item.size ≤ space then item :: take (space - item.size) rest
    else take space rest

/-- The bytes left of `space` after `take`. -/
def left (space : UInt64) : List Item → UInt64
  | [] => space
  | item :: rest =>
    if space = 0 then space
    else if item.size ≤ space then left (space - item.size) rest
    else left space rest

/-- The solution of a budget over items in the order in which they are tried. -/
def ofBudget (ordered : List Item) (budget : UInt64) : Solution :=
  ⟨(take budget ordered).map (·.id), budget - left budget ordered⟩

end Solution
end EdgePlacement

import EdgePlacement.Size.Search

/-!
Tables of ascending byte thresholds.

A table sorts sizes and budgets into classes. Its first threshold is always 0, so class 0
holds the empty sizes alone and every budget reaches at least class 0. A size belongs to
the first class whose threshold is not below it, and to the last class when it exceeds
them all; a budget reaches the last class whose threshold does not exceed it. -/
namespace EdgePlacement

/-! ### Ascending lists without repeats -/

/-- Each run of equal neighbours reduced to one element. -/
def Size.dropRepeats : List UInt64 → List UInt64
  | [] => []
  | [a] => [a]
  | a :: b :: rest =>
    if a = b then dropRepeats (b :: rest) else a :: dropRepeats (b :: rest)

/-- The distinct elements of a list in ascending order. -/
def Size.ascending (sizes : List UInt64) : List UInt64 :=
  dropRepeats (sizes.mergeSort fun a b => decide (a ≤ b))

theorem Size.mem_dropRepeats {x : UInt64} (sizes : List UInt64) :
    x ∈ dropRepeats sizes ↔ x ∈ sizes := by
  fun_induction dropRepeats sizes <;> simp_all

theorem Size.pairwise_dropRepeats {sizes : List UInt64} (h : sizes.Pairwise (· ≤ ·)) :
    (dropRepeats sizes).Pairwise (· < ·) := by
  fun_induction dropRepeats sizes with
  | case1 => exact .nil
  | case2 => simp
  | case3 a rest ih => exact ih h.tail
  | case4 a b rest hne ih =>
    refine List.pairwise_cons.2 ⟨fun x hx => ?_, ih h.tail⟩
    rw [mem_dropRepeats] at hx
    have hab : a ≤ b := List.rel_of_pairwise_cons h (List.mem_cons_self ..)
    have hbx : b ≤ x := by
      rcases List.mem_cons.1 hx with rfl | hx
      · exact UInt64.le_refl _
      · exact List.rel_of_pairwise_cons h.tail hx
    exact UInt64.lt_of_lt_of_le (UInt64.lt_of_le_of_ne hab hne) hbx

theorem Size.pairwise_mergeSort (sizes : List UInt64) :
    (sizes.mergeSort fun a b => decide (a ≤ b)).Pairwise (· ≤ ·) := by
  refine (List.pairwise_mergeSort ?_ ?_ sizes).imp of_decide_eq_true
  · intro a b c hab hbc
    exact decide_eq_true (UInt64.le_trans (of_decide_eq_true hab) (of_decide_eq_true hbc))
  · intro a b
    simpa using UInt64.le_total a b

@[simp] theorem Size.mem_ascending {x : UInt64} {sizes : List UInt64} :
    x ∈ ascending sizes ↔ x ∈ sizes := by
  simp [ascending, mem_dropRepeats]

theorem Size.pairwise_ascending (sizes : List UInt64) :
    (ascending sizes).Pairwise (· < ·) :=
  pairwise_dropRepeats (pairwise_mergeSort sizes)

/-- Where 0 is among the sizes it comes first. -/
theorem Size.ascending_head {sizes : List UInt64} (h : 0 ∈ sizes) :
    (ascending sizes)[0]? = some 0 := by
  have hmem : (0 : UInt64) ∈ ascending sizes := mem_ascending.2 h
  have hpair := pairwise_ascending sizes
  match heq : ascending sizes, hmem, hpair with
  | a :: rest, hmem, hpair =>
    rcases List.mem_cons.1 hmem with rfl | hrest
    · rfl
    · exact absurd (List.rel_of_pairwise_cons hpair hrest) (UInt64.not_lt.2 (UInt64.zero_le ..))

/-! ### Tables -/

/-- Ascending thresholds that begin with 0. -/
structure SizeTable where
  thresholds : Array UInt64
  ascending : thresholds.toList.Pairwise (· < ·)
  zero_first : thresholds[0]? = some 0

namespace SizeTable

/-- The table of the given thresholds, in any order and with any repeats. -/
def ofList (thresholds : List UInt64) : SizeTable where
  thresholds := (Size.ascending (0 :: thresholds)).toArray
  ascending := Size.pairwise_ascending _
  zero_first := by simpa using Size.ascending_head (List.mem_cons_self ..)

/-- The number of classes, class 0 included. -/
def size (table : SizeTable) : Nat := table.thresholds.size

def isEmpty (table : SizeTable) : Bool := table.thresholds.isEmpty

/-- The upper byte bound of a class, if the table has the class. -/
def bound? (table : SizeTable) (sizeClass : Nat) : Option UInt64 :=
  table.thresholds[sizeClass]?

/-- The class of an entry of `size` bytes. -/
def classFor (table : SizeTable) (size : UInt64) : Nat :=
  min (Size.firstAtLeast table.thresholds size) (table.size - 1)

/-- The highest class whose threshold fits within `budget`. -/
def reach (table : SizeTable) (budget : UInt64) : Nat :=
  (Size.lastAtMost table.thresholds budget).getD 0

theorem size_pos (table : SizeTable) : 0 < table.size := by
  have h := table.zero_first
  unfold size
  match hs : table.thresholds.size with
  | 0 => simp [hs] at h
  | n + 1 => exact Nat.succ_pos n

end SizeTable
end EdgePlacement

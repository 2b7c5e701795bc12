import Mathlib.Data.List.Nodup
import EdgePlacement.Placement.Solution

/-!
What packing takes.

`take` picks items in the order it meets them (`take_sublist`), and their bytes and what is
`left` add up to the space, exactly (`left_add_bytes`). So the bytes of a solution are the
sum of those of its items (`bytes_ofBudget`). An item that is not taken is larger than what
is left in the end (`left_lt_of_notMem_take`).

Items are sorted by a rank, and by id where the ranks are equal. Such an order tells ids
apart, so items with distinct ids have one arrangement only (`mergeSort_eq_of_perm`). -/
namespace EdgePlacement

/-- The exact bytes of items. -/
def Item.bytes : List Item → Nat
  | [] => 0
  | item :: items => item.size.toNat + bytes items

namespace Item

@[simp] theorem bytes_nil : bytes [] = 0 := rfl

@[simp] theorem bytes_cons (item : Item) (items : List Item) :
    bytes (item :: items) = item.size.toNat + bytes items := rfl

/-- The bytes of items are no less than those of one of them. -/
theorem size_le_bytes {items : List Item} {item : Item} (h : item ∈ items) :
    item.size.toNat ≤ bytes items := by
  induction items with
  | nil => cases h
  | cons first rest ih =>
    rw [bytes_cons]
    rcases List.mem_cons.1 h with rfl | hrest
    · exact Nat.le_add_right _ _
    · exact Nat.le_trans (ih hrest) (Nat.le_add_left _ _)

@[simp] theorem bytes_append (a b : List Item) : bytes (a ++ b) = bytes a + bytes b := by
  induction a with
  | nil => simp
  | cons item a ih => simp [ih, Nat.add_assoc]

theorem bytes_perm {items others : List Item} (h : items.Perm others) :
    bytes items = bytes others := by
  induction h with
  | nil => rfl
  | cons item _ ih => rw [bytes_cons, bytes_cons, ih]
  | swap a b rest => exact Nat.add_left_comm ..
  | trans _ _ ih ih' => exact ih.trans ih'

/-! ### Order by rank -/

/-- `a` has the smaller rank or, where the ranks are equal, no later id. -/
def Before (rank : Item → Int) (a b : Item) : Prop :=
  rank a < rank b ∨ rank a = rank b ∧ a.id ≤ b.id

section Before
variable {rank : Item → Int} {a b c : Item}

theorem Before.trans (hab : Before rank a b) (hbc : Before rank b c) : Before rank a c := by
  rcases hab with hab | ⟨hab, habid⟩ <;> rcases hbc with hbc | ⟨hbc, hbcid⟩
  · exact .inl (by omega)
  · exact .inl (by omega)
  · exact .inl (by omega)
  · exact .inr ⟨hab.trans hbc, String.le_trans habid hbcid⟩

theorem before_total (rank : Item → Int) (a b : Item) : Before rank a b ∨ Before rank b a := by
  rcases Int.lt_trichotomy (rank a) (rank b) with hlt | heq | hgt
  · exact .inl (.inl hlt)
  · rcases String.le_total a.id b.id with hid | hid
    · exact .inl (.inr ⟨heq, hid⟩)
    · exact .inr (.inr ⟨heq.symm, hid⟩)
  · exact .inr (.inl hgt)

theorem Before.id_eq (hab : Before rank a b) (hba : Before rank b a) : a.id = b.id := by
  rcases hab with hab | ⟨heq, hid⟩ <;> rcases hba with hba | ⟨heq', hid'⟩
  · omega
  · omega
  · omega
  · exact String.le_antisymm hid hid'

variable {le : Item → Item → Bool} (hle : ∀ a b, le a b = true ↔ Before rank a b)
include hle

theorem pairwise_mergeSort (items : List Item) : (items.mergeSort le).Pairwise (Before rank) := by
  refine (List.pairwise_mergeSort (fun a b c hab hbc => ?_) (fun a b => ?_) items).imp
    fun {a b} => (hle a b).1
  · rw [hle] at *
    exact hab.trans hbc
  · rw [Bool.or_eq_true, hle, hle]
    exact before_total rank a b

/-- Items with distinct ids are sorted strictly. -/
theorem strict_mergeSort {items : List Item} (hids : (items.map (·.id)).Nodup) :
    (items.mergeSort le).Pairwise fun a b =>
      rank a < rank b ∨ rank a = rank b ∧ a.id < b.id := by
  have hdistinct : (items.mergeSort le).Pairwise fun a b => a.id ≠ b.id :=
    List.pairwise_map.1 (((List.mergeSort_perm items le).map _).nodup_iff.2 hids)
  refine ((pairwise_mergeSort hle items).and hdistinct).imp fun {a b} hab => ?_
  obtain ⟨hlt | ⟨heq, hid⟩, hne⟩ := hab
  · exact .inl hlt
  · exact .inr ⟨heq, Std.lt_of_le_of_ne hid hne⟩

/-- How items with distinct ids were listed does not show when they are sorted. -/
theorem mergeSort_eq_of_perm {items others : List Item} (hids : (items.map (·.id)).Nodup)
    (hperm : items.Perm others) : items.mergeSort le = others.mergeSort le := by
  have hback : others.mergeSort le |>.Perm items := (List.mergeSort_perm _ _).trans hperm.symm
  refine List.Perm.eq_of_pairwise (fun a b ha hb hab hba => ?_) (pairwise_mergeSort hle items)
    (pairwise_mergeSort hle others) ((List.mergeSort_perm _ _).trans hback.symm)
  exact List.inj_on_of_nodup_map hids ((List.mergeSort_perm _ _).mem_iff.1 ha)
    (hback.mem_iff.1 hb) (hab.id_eq hba)

end Before
end Item

namespace Solution

/-- Items are tried in descending order of priority. -/
theorem tried_iff (ranking : Ranking) (a b : Item) : tried ranking a b = true ↔
    Item.Before (fun item => -ranking.priority item.id) a b := by
  simp only [tried, Item.Before, Bool.or_eq_true, decide_eq_true_eq, Bool.and_eq_true, beq_iff_eq,
    Int.neg_lt_neg_iff, Int.neg_inj]

/-- Where no space is left nothing is taken. -/
@[simp] theorem take_zero (items : List Item) : take 0 items = [] := by
  cases items <;> simp [take]

@[simp] theorem left_zero (items : List Item) : left 0 items = 0 := by
  cases items <;> simp [left]

theorem take_cons_of_le {space : UInt64} (hspace : space ≠ 0) {item : Item}
    (hfits : item.size ≤ space) (rest : List Item) :
    take space (item :: rest) = item :: take (space - item.size) rest := by
  simp [take, hspace, hfits]

/-- An item that does not fit is passed over. -/
theorem take_cons_of_lt {space : UInt64} {item : Item} (hlarge : space < item.size)
    (rest : List Item) : take space (item :: rest) = take space rest := by
  by_cases hspace : space = 0
  · rw [hspace, take_zero, take_zero]
  · simp [take, hspace, UInt64.not_le.2 hlarge]

theorem take_append_of_lt {space : UInt64} {large : List Item}
    (hlarge : ∀ item ∈ large, space < item.size) (rest : List Item) :
    take space (large ++ rest) = take space rest := by
  induction large with
  | nil => rfl
  | cons item large ih =>
    rw [List.cons_append, take_cons_of_lt (hlarge item (List.mem_cons_self ..))]
    exact ih fun other ho => hlarge other (List.mem_cons_of_mem _ ho)

/-- Nothing is taken exactly if every item is too large. -/
theorem take_eq_nil_iff {space : UInt64} (hspace : space ≠ 0) {items : List Item} :
    take space items = [] ↔ ∀ item ∈ items, space < item.size := by
  induction items with
  | nil => exact iff_of_true rfl fun item hitem => (List.not_mem_nil hitem).elim
  | cons item rest ih =>
    rw [List.forall_mem_cons]
    by_cases hfits : item.size ≤ space
    · rw [take_cons_of_le hspace hfits]
      exact iff_of_false (List.cons_ne_nil _ _) fun hand => UInt64.not_lt.2 hfits hand.1
    · rw [take_cons_of_lt (UInt64.not_le.1 hfits), ih, and_iff_right (UInt64.not_le.1 hfits)]

theorem take_sublist (space : UInt64) (items : List Item) :
    (take space items).Sublist items := by
  fun_induction take space items with
  | case1 space => exact .slnil
  | case2 item rest => exact List.nil_sublist _
  | case3 space item rest hspace hfits ih => exact ih.cons_cons item
  | case4 space item rest hspace hlarge ih => exact ih.cons item

/-- What is taken and what is left are the space. -/
theorem left_add_bytes (space : UInt64) (items : List Item) :
    (left space items).toNat + Item.bytes (take space items) = space.toNat := by
  induction items generalizing space with
  | nil => rfl
  | cons item rest ih =>
    unfold left take
    split
    · rfl
    · split
      · next hfits =>
        have hrest := ih (space - item.size)
        rw [UInt64.toNat_sub_of_le _ _ hfits] at hrest
        have := UInt64.le_iff_toNat_le.1 hfits
        rw [Item.bytes_cons]
        omega
      · exact ih space

/-- Packing a list in two parts: the second part gets what the first one leaves. -/
theorem take_append (space : UInt64) (a b : List Item) :
    take space (a ++ b) = take space a ++ take (left space a) b := by
  induction a generalizing space with
  | nil => rfl
  | cons item a ih =>
    by_cases hspace : space = 0
    · simp [hspace]
    by_cases hfits : item.size ≤ space <;> simp [take, left, hspace, hfits, ih]

theorem left_le (space : UInt64) (items : List Item) : left space items ≤ space := by
  have hsum := left_add_bytes space items
  exact UInt64.le_iff_toNat_le.2 (by omega)

/-- Whatever is not taken is too large for what is left in the end, or nothing is left. -/
theorem left_lt_of_notMem_take {space : UInt64} {items : List Item} {item : Item}
    (hitem : item ∈ items) (hnot : item ∉ take space items) :
    left space items < item.size ∨ left space items = 0 := by
  induction items generalizing space with
  | nil => cases hitem
  | cons first rest ih =>
    by_cases hspace : space = 0
    · simp [hspace]
    by_cases hfits : first.size ≤ space
    · simp only [take, left, hspace, hfits, if_true, if_false, List.mem_cons, not_or] at hnot ⊢
      exact ih ((List.mem_cons.1 hitem).resolve_left hnot.1) hnot.2
    · simp only [take, left, hspace, hfits, if_false] at hnot ⊢
      rcases List.mem_cons.1 hitem with rfl | hrest
      · exact .inl (UInt64.lt_of_le_of_lt (left_le space rest) (UInt64.not_le.1 hfits))
      · exact ih hrest hnot

/-- A solution takes the bytes of its items. -/
theorem bytes_ofBudget (ordered : List Item) (budget : UInt64) :
    (ofBudget ordered budget).bytes.toNat = Item.bytes (take budget ordered) := by
  have hsum := left_add_bytes budget ordered
  have hle : left budget ordered ≤ budget := UInt64.le_iff_toNat_le.2 (by omega)
  show (budget - left budget ordered).toNat = _
  rw [UInt64.toNat_sub_of_le _ _ hle]
  omega

/-- The budget 0 is spent on nothing. -/
theorem ofBudget_zero (ordered : List Item) : ofBudget ordered 0 = empty := by
  simp [ofBudget, empty]

theorem perm_inOrder (ranking : Ranking) (items : List Item) :
    (inOrder ranking items).Perm items := List.mergeSort_perm _ _

end Solution
end EdgePlacement

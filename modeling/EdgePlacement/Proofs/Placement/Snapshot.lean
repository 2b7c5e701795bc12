import EdgePlacement.Placement.Snapshot
import EdgePlacement.Proofs.Placement.Packing
import EdgePlacement.Proofs.Size.Table

/-!
What a snapshot answers.

A snapshot built of items answers with what the highest budget covered is spent on, and
then with what packing all the other items takes of the rest of the space, from the largest
downwards (`allocate_build`): the walk starts at the last size that fits, which skips only
items that do not. So where the items have distinct ids an answer names each of them at
most once (`answer_nodup`), and those it names fit the space together
(`bytes_answer_le`). -/
namespace EdgePlacement.Snapshot

/-! ### The order by size -/

/-- Items by size, then id, ascending. -/
def bySize (items : List Item) : List Item := items.mergeSort smaller

theorem smaller_iff (a b : Item) :
    smaller a b = true ↔ Item.Before (fun item => item.size.toNat) a b := by
  simp only [smaller, Item.Before, Bool.or_eq_true, Bool.and_eq_true, decide_eq_true_eq, beq_iff_eq,
    Int.ofNat_lt, Int.ofNat_inj, UInt64.lt_iff_toNat_lt, UInt64.toNat_inj]

theorem perm_bySize (items : List Item) : (bySize items).Perm items := List.mergeSort_perm _ _

theorem pairwise_bySize (items : List Item) :
    (bySize items).Pairwise (Item.Before fun item => item.size.toNat) :=
  Item.pairwise_mergeSort smaller_iff items

theorem ascending_bySize (items : List Item) :
    ((bySize items).map (·.size)).Pairwise (· ≤ ·) := by
  refine List.pairwise_map.2 ((pairwise_bySize items).imp fun {a b} hab => ?_)
  rw [UInt64.le_iff_toNat_le]
  rcases hab with hlt | ⟨heq, -⟩
  · exact Nat.le_of_lt (Int.ofNat_lt.1 hlt)
  · exact Nat.le_of_eq (Int.ofNat_inj.1 heq)

/-! ### Parts of a snapshot -/

section Build
variable (generation : UInt64) (menu : SizeTable) (items : List Item) (ranking : Ranking)

theorem ascending_sizes_build :
    (build generation menu items ranking).sizes.toList.Pairwise (· ≤ ·) := ascending_bySize items

theorem getElem?_sizes_build (i : Nat) :
    (build generation menu items ranking).sizes[i]? = (bySize items)[i]?.map (·.size) := by
  simp [build, bySize]

theorem getElem?_ids_build (i : Nat) :
    (build generation menu items ranking).ids[i]? = (bySize items)[i]?.map (·.id) := by
  simp [build, bySize]

theorem solution_build {b : Nat} {budget : UInt64} (h : menu.bound? b = some budget) :
    (build generation menu items ranking).solution b =
      .ofBudget (Solution.inOrder ranking items) budget := by
  have hthreshold : menu.thresholds[b]? = some budget := h
  simp [solution, build, hthreshold]

/-! ### Topping off -/

/-- Topping off is packing the items below a position, downwards, without those taken. -/
theorem topOff_build (taken : Std.HashSet String) {count : Nat} (hcount : count ≤ items.length)
    (space : UInt64) : (build generation menu items ranking).topOff taken count space =
      (Solution.take space
        (((bySize items).take count).reverse.filter fun item => item.id ∉ taken)).map (·.id) := by
  induction count generalizing space with
  | zero => rfl
  | succ count ih =>
    have hlt : count < (bySize items).length := by
      rw [(perm_bySize items).length_eq]
      exact hcount
    have hreverse : ((bySize items).take (count + 1)).reverse =
        (bySize items)[count] :: ((bySize items).take count).reverse := by
      rw [List.take_succ_eq_append_getElem hlt, List.reverse_append]
      rfl
    have hless : count ≤ items.length := by omega
    rw [topOff, getElem?_sizes_build, getElem?_ids_build, List.getElem?_eq_getElem hlt, hreverse]
    generalize (bySize items)[count] = item
    simp only [Option.map_some]
    by_cases hspace : space = 0
    · rw [if_pos hspace, hspace, Solution.take_zero]
      rfl
    rw [if_neg hspace]
    by_cases htaken : item.id ∈ taken
    · rw [if_neg (fun hand => hand.2 htaken), List.filter_cons_of_neg (by simpa using htaken)]
      exact ih hless space
    · rw [List.filter_cons_of_pos (by simpa using htaken)]
      by_cases hfits : item.size ≤ space
      · rw [if_pos ⟨hfits, htaken⟩, Solution.take_cons_of_le hspace hfits, List.map_cons,
          ih hless]
      · rw [if_neg (fun hand => hfits hand.1),
          Solution.take_cons_of_lt (UInt64.not_le.1 hfits)]
        exact ih hless space

/-- The sizes that fit come first: from there on every item is too large. -/
theorem lt_of_mem_drop_fitting {space : UInt64} {item : Item} (hitem : item ∈ (bySize items).drop
      (Size.fitting (build generation menu items ranking).sizes space)) : space < item.size := by
  have hiff := Size.lt_fitting_iff (ascending_sizes_build generation menu items ranking) space
  generalize Size.fitting (build generation menu items ranking).sizes space = count at *
  obtain ⟨i, hi, rfl⟩ := List.mem_drop_iff_getElem.1 hitem
  refine UInt64.not_le.1 fun hle => ?_
  have hlt := (hiff (count + i)).2
    ⟨_, by rw [getElem?_sizes_build, List.getElem?_eq_getElem (by omega)]; rfl, hle⟩
  omega

theorem fitting_le (space : UInt64) :
    Size.fitting (build generation menu items ranking).sizes space ≤ items.length := by
  have hiff := Size.lt_fitting_iff (ascending_sizes_build generation menu items ranking) space
  refine Nat.le_of_not_lt fun hlt => ?_
  obtain ⟨x, hx, -⟩ := (hiff items.length).1 hlt
  rw [getElem?_sizes_build, List.getElem?_eq_none (Nat.le_of_eq (perm_bySize items).length_eq)] at hx
  cases hx

/-- Topping off from the last size that fits is packing all the items that are not taken. -/
theorem topOff_fitting (ids : List String) (space : UInt64) :
    (build generation menu items ranking).topOff (.ofList ids)
        (Size.fitting (build generation menu items ranking).sizes space) space =
      (Solution.take space
        ((bySize items).reverse.filter fun item => item.id ∉ ids)).map (·.id) := by
  have hlarge : ∀ item ∈ (bySize items).drop
      (Size.fitting (build generation menu items ranking).sizes space), space < item.size :=
    fun _ hitem => lt_of_mem_drop_fitting generation menu items ranking hitem
  rw [topOff_build generation menu items ranking _ (fitting_le ..)]
  generalize Size.fitting (build generation menu items ranking).sizes space = count at *
  have hsplit : (bySize items).reverse =
      ((bySize items).drop count).reverse ++ ((bySize items).take count).reverse := by
    rw [← List.reverse_append, List.take_append_drop]
  rw [hsplit, List.filter_append, Solution.take_append_of_lt]
  · congr 2
    exact List.filter_congr fun item _ => by simp
  · intro item hitem
    exact hlarge item (List.mem_reverse.1 (List.mem_filter.1 hitem).1)

end Build

/-- Topping off covers the sizes that fit. -/
theorem allocate_eq (s : Snapshot) (menu : SizeTable) (available : UInt64) :
    s.allocate menu available =
      let solution := s.solution (menu.reach available)
      let space := available - solution.bytes
      solution.ids ++ s.topOff (.ofList solution.ids) (Size.fitting s.sizes space) space := by
  unfold allocate
  simp only [Size.lastAtMost_eq]
  split
  · next h =>
    split at h
    · next hnone => rw [hnone, topOff, List.append_nil]
    · cases h
  · next largest h =>
    split at h
    · cases h
    · next n hn =>
      rw [hn, Option.some.inj h]

/-! ### Answers -/

/-- What the highest budget covered by `available` is spent on. -/
def packed (menu : SizeTable) (items : List Item) (ranking : Ranking) (available : UInt64) :
    List Item :=
  Solution.take (menu.within available) (Solution.inOrder ranking items)

/-- The items of an answer: after those packed for the budget, what packing all the others
into the rest of the space takes, from the greatest by size and id downwards. -/
def answer (menu : SizeTable) (items : List Item) (ranking : Ranking) (available : UInt64) :
    List Item :=
  let first := packed menu items ranking available
  let space := available - .ofNat (Item.bytes first)
  first ++ Solution.take space
    ((bySize items).reverse.filter fun item => item.id ∉ first.map (·.id))

section Answer
variable (menu : SizeTable) (items : List Item) (ranking : Ranking) (available : UInt64)

theorem allocate_build (generation : UInt64) :
    (build generation menu items ranking).allocate menu available =
      (answer menu items ranking available).map (·.id) := by
  have hsolution := solution_build generation menu items ranking (menu.bound?_reach_eq available)
  have hbytes := Solution.bytes_ofBudget (Solution.inOrder ranking items) (menu.within available)
  rw [allocate_eq]
  simp only [topOff_fitting, hsolution]
  rw [answer, List.map_append, packed, ← hbytes, UInt64.ofNat_toNat]
  rfl

theorem packed_sublist :
    (packed menu items ranking available).Sublist (Solution.inOrder ranking items) :=
  Solution.take_sublist _ _

theorem bytes_packed_le : Item.bytes (packed menu items ranking available) ≤ available.toNat := by
  have hsum := Solution.left_add_bytes (menu.within available) (Solution.inOrder ranking items)
  have hle := UInt64.le_iff_toNat_le.1 (menu.within_le available)
  show Item.bytes (Solution.take _ _) ≤ _
  omega

theorem answer_subset : answer menu items ranking available ⊆ items := by
  intro item hitem
  rcases List.mem_append.1 hitem with hfirst | hrest
  · have hordered := (packed_sublist menu items ranking available).subset hfirst
    exact (Solution.perm_inOrder ranking items).mem_iff.1 hordered
  · have hothers := List.mem_filter.1 ((Solution.take_sublist _ _).subset hrest)
    exact (perm_bySize items).mem_iff.1 (List.mem_reverse.1 hothers.1)

variable {items} in
theorem answer_nodup (hids : (items.map (·.id)).Nodup) :
    ((answer menu items ranking available).map (·.id)).Nodup := by
  have hordered : ((Solution.inOrder ranking items).map (·.id)).Nodup :=
    ((Solution.perm_inOrder ranking items).map _).nodup_iff.2 hids
  have hsize : ((bySize items).reverse.map (·.id)).Nodup :=
    (((List.reverse_perm _).trans (perm_bySize items)).map _).nodup_iff.2 hids
  unfold answer
  rw [List.map_append, List.nodup_append]
  refine ⟨((packed_sublist menu items ranking available).map _).nodup hordered,
    (((Solution.take_sublist _ _).trans List.filter_sublist).map _).nodup hsize, ?_⟩
  rintro id hfirst _ hrest rfl
  obtain ⟨item, hitem, rfl⟩ := List.mem_map.1 hrest
  have hothers := (List.mem_filter.1 ((Solution.take_sublist _ _).subset hitem)).2
  exact of_decide_eq_true hothers hfirst

/-! ### What an answer leaves -/

/-- The space left beside what is packed for the budget. -/
def room : UInt64 := available - .ofNat (Item.bytes (packed menu items ranking available))

/-- The items that are not packed for the budget, the greatest by size and id first. -/
def others : List Item := (bySize items).reverse.filter fun item =>
  item.id ∉ (packed menu items ranking available).map (·.id)

/-- The space that an answer leaves. -/
def unused : UInt64 :=
  Solution.left (room menu items ranking available) (others menu items ranking available)

theorem answer_eq : answer menu items ranking available =
    packed menu items ranking available ++
      Solution.take (room menu items ranking available) (others menu items ranking available) := rfl

theorem room_add_bytes : (room menu items ranking available).toNat +
    Item.bytes (packed menu items ranking available) = available.toNat := by
  have hfirst := bytes_packed_le menu items ranking available
  unfold room
  generalize packed menu items ranking available = first at *
  have hof : (UInt64.ofNat (Item.bytes first)).toNat = Item.bytes first :=
    UInt64.toNat_ofNat_of_lt (Nat.lt_of_le_of_lt hfirst available.toNat_lt_size)
  have hle : UInt64.ofNat (Item.bytes first) ≤ available := by
    rw [UInt64.le_iff_toNat_le, hof]
    exact hfirst
  rw [UInt64.toNat_sub_of_le _ _ hle, hof]
  omega

/-- An answer and what it leaves are the space. -/
theorem unused_add_bytes : (unused menu items ranking available).toNat +
    Item.bytes (answer menu items ranking available) = available.toNat := by
  have hroom := room_add_bytes menu items ranking available
  have hsum := Solution.left_add_bytes (room menu items ranking available)
    (others menu items ranking available)
  rw [answer_eq, Item.bytes_append, unused]
  omega

/-- An answer fits the space. -/
theorem bytes_answer_le : Item.bytes (answer menu items ranking available) ≤ available.toNat := by
  have hsum := unused_add_bytes menu items ranking available
  omega

/-- An answer is empty exactly if every item is too large. -/
theorem answer_eq_nil_iff (hspace : available ≠ 0) :
    answer menu items ranking available = [] ↔ ∀ item ∈ items, available < item.size := by
  constructor
  · intro hnil item hitem
    obtain ⟨hfirst, hrest⟩ := List.append_eq_nil_iff.1 hnil
    have hall : (bySize items).reverse.filter (fun item => item.id ∉ ([] : List Item).map (·.id)) =
        (bySize items).reverse := List.filter_eq_self.2 fun _ _ => rfl
    rw [hfirst, hall, Item.bytes_nil, show available - .ofNat 0 = available from
      UInt64.sub_zero available] at hrest
    exact (Solution.take_eq_nil_iff hspace).1 hrest item
      (List.mem_reverse.2 ((perm_bySize items).mem_iff.2 hitem))
  · intro hlarge
    refine List.eq_nil_iff_forall_not_mem.2 fun item hitem => ?_
    have hfits : item.size ≤ available := UInt64.le_iff_toNat_le.2
      (Nat.le_trans (Item.size_le_bytes hitem) (bytes_answer_le ..))
    exact UInt64.not_lt.2 hfits (hlarge item (answer_subset menu items ranking available hitem))

end Answer

/-- The snapshot before the first cycle is the one built of no items. -/
theorem empty_eq_build (menu : SizeTable) (ranking : Ranking) :
    empty menu = build 0 menu [] ranking := by
  have hnothing : Solution.ofBudget (Solution.inOrder ranking []) =
      Function.const UInt64 Solution.empty := by
    funext budget
    simp [Solution.inOrder, Solution.ofBudget, Solution.take, Solution.left, Solution.empty]
  simp [empty, build, hnothing, SizeTable.size]

/-- A snapshot before the first cycle answers with nothing. -/
theorem allocate_empty (menu : SizeTable) (available : UInt64) :
    (empty menu).allocate menu available = [] := by
  rw [empty_eq_build menu ∅, allocate_build]
  exact congrArg (List.map _) (List.subset_nil.1 (answer_subset menu [] ∅ available))

end EdgePlacement.Snapshot

import EdgePlacement.Proofs.Placement.WellFormed

/-!
What an answer leaves over.

Packing leaves less than each item it passes over, unless it leaves nothing
(`Solution.left_lt_of_notMem_take`), whatever the order of the items. Topping off is packing
too, so an answer leaves no item out that would still fit (`nothing_left_fits`). And at a
budget of the menu the items that the solution leaves out are all too large for what it
leaves, so that topping off, which starts from there, adds nothing
(`budget_answered_by_solution`). -/
namespace EdgePlacement

namespace Snapshot
section Answer
variable {menu : SizeTable} {items : List Item} {ranking : Ranking} {available : UInt64}
  (hids : (items.map (·.id)).Nodup)
include hids

/-- Where ids are distinct the items that are not packed are known by their ids. -/
theorem mem_others_iff {item : Item} (hitem : item ∈ items) :
    item ∈ others menu items ranking available ↔ item ∉ packed menu items ranking available := by
  have hpacked : ∀ other ∈ packed menu items ranking available, other ∈ items := fun other hother =>
    (Solution.perm_inOrder ranking items).mem_iff.1 ((packed_sublist ..).subset hother)
  rw [others, List.mem_filter, List.mem_reverse, (perm_bySize items).mem_iff, and_iff_right hitem,
    decide_eq_true_iff, not_iff_not]
  constructor
  · intro hid
    obtain ⟨other, hother, hsame⟩ := List.mem_map.1 hid
    rwa [← List.inj_on_of_nodup_map hids (hpacked other hother) hitem hsame]
  · exact List.mem_map_of_mem

/-- An item that an answer leaves out is too large for what it leaves, or it leaves nothing. -/
theorem unused_lt_of_notMem {item : Item} (hitem : item ∈ items)
    (hnot : item ∉ answer menu items ranking available) :
    unused menu items ranking available < item.size ∨ unused menu items ranking available = 0 := by
  rw [answer_eq, List.mem_append, not_or] at hnot
  exact Solution.left_lt_of_notMem_take ((mem_others_iff hids hitem).2 hnot.1) hnot.2

/-- At a budget of the menu all other items are too large for the rest, or there is no rest. -/
theorem take_others_of_bound {b : Nat} (hb : menu.bound? b = some available) :
    Solution.take (room menu items ranking available) (others menu items ranking available) =
      [] := by
  have hpacked : packed menu items ranking available =
      Solution.take available (Solution.inOrder ranking items) := by
    rw [packed, SizeTable.within_bound hb]
  have hroom : room menu items ranking available =
      Solution.left available (Solution.inOrder ranking items) := by
    have hsum := room_add_bytes menu items ranking available
    have hleft := Solution.left_add_bytes available (Solution.inOrder ranking items)
    rw [hpacked] at hsum
    exact UInt64.toNat_inj.1 (by omega)
  by_cases hspace : room menu items ranking available = 0
  · rw [hspace, Solution.take_zero]
  refine (Solution.take_eq_nil_iff hspace).2 fun item hother => ?_
  have hitem : item ∈ items :=
    (perm_bySize items).mem_iff.1 (List.mem_reverse.1 (List.mem_filter.1 hother).1)
  have hnot := (mem_others_iff hids hitem).1 hother
  rw [hpacked] at hnot
  rw [hroom] at hspace ⊢
  exact (Solution.left_lt_of_notMem_take
    ((Solution.perm_inOrder ranking items).mem_iff.2 hitem) hnot).resolve_right hspace

/-- The solution of a budget is the answer to a request for just this budget. -/
theorem allocate_build_bound (generation : UInt64) {b : Nat}
    (hb : menu.bound? b = some available) :
    (build generation menu items ranking).allocate menu available =
      (Solution.ofBudget (Solution.inOrder ranking items) available).ids := by
  rw [allocate_build, answer_eq, take_others_of_bound hids hb, List.append_nil, packed,
    SizeTable.within_bound hb, Solution.ofBudget]

end Answer
end Snapshot

namespace Prepared

/-- **No answer leaves room for an entry it leaves out.** After any run of requests and cycles,
failed ones among them, an answer names entries of the snapshot, and each entry of the snapshot
that it does not name is larger than the space which those it names leave. The one exception is
that nothing is left, where entries of size 0 may be left out too. -/
theorem nothing_left_fits (menu : SizeTable) (key : String) (events : List Event)
    (available : UInt64) :
    let p := after menu key events
    ∃ (chosen : List Item) (left : Nat), chosen ⊆ p.snapshot.items ∧
      chosen.map (·.id) = p.allocate available ∧
      Item.bytes chosen + left = available.toNat ∧
      ∀ item ∈ p.snapshot.items, item.id ∉ p.allocate available →
        left < item.size.toNat ∨ left = 0 ∧ item.size = 0 := by
  intro p
  have h : Follows menu key p (.after key events) := follows_after menu key events
  obtain ⟨generation, items, ranking, hlists, hbuilt⟩ := h.snapshot.built
  have hmem : ∀ item, item ∈ p.snapshot.items ↔ item ∈ items := fun item => by
    rw [hbuilt, Snapshot.items_build, (Snapshot.perm_bySize items).mem_iff]
  have hanswer : p.allocate available =
      (Snapshot.answer p.menu items ranking available).map (·.id) := by
    rw [Prepared.allocate, hbuilt, Snapshot.allocate_build]
  have hunused := Snapshot.unused_add_bytes p.menu items ranking available
  refine ⟨Snapshot.answer p.menu items ranking available,
    (Snapshot.unused p.menu items ranking available).toNat, fun item hitem => ?_, hanswer.symm,
    by omega, fun item hitem hnot => ?_⟩
  · exact (hmem item).2 (Snapshot.answer_subset _ _ _ _ hitem)
  · have hout : item ∉ Snapshot.answer p.menu items ranking available := fun hin =>
      hnot (hanswer ▸ List.mem_map_of_mem hin)
    rcases Snapshot.unused_lt_of_notMem hlists.nodup ((hmem item).1 hitem) hout with hlt | hzero
    · exact .inl (UInt64.lt_iff_toNat_lt.1 hlt)
    · rw [hzero]
      by_cases hsize : item.size = 0
      · exact .inr ⟨rfl, hsize⟩
      · exact .inl (UInt64.lt_iff_toNat_lt.1 (UInt64.pos_iff_ne_zero.2 hsize))

/-- **At a budget of the menu the solution is the whole answer.** After any run of requests and
cycles, failed ones among them, the snapshot has one solution per budget, and a request for just
the budget is answered with the ids of its solution, in their order. -/
theorem budget_answered_by_solution (menu : SizeTable) (key : String) (events : List Event) :
    let p := after menu key events
    menu.thresholds.map p.allocate = p.snapshot.solutions.map (·.ids) := by
  intro p
  have h : Follows menu key p (.after key events) := follows_after menu key events
  obtain ⟨generation, items, ranking, hlists, hbuilt⟩ := h.snapshot.built
  show menu.thresholds.map (fun budget => p.snapshot.allocate p.menu budget) = _
  rw [hbuilt, h.menu]
  simp only [Snapshot.build, Array.map_map]
  refine Array.map_congr_left fun budget hbudget => ?_
  obtain ⟨b, hb⟩ := Array.mem_iff_getElem?.1 hbudget
  exact Snapshot.allocate_build_bound hlists.nodup generation hb

end Prepared
end EdgePlacement

import EdgePlacement.Proofs.Placement.WellFormed
import EdgePlacement.Proofs.Text.Bytes

/-!
Topping off, told from a full scan.

The walk that tops off starts at the last size that fits, reads sizes and ids from two arrays
and ends where no space is left. A full scan knows nothing of this: it goes through all items,
and takes one wherever the space left is positive and has room for it (`Item.scan`). Since
packing is such a scan (`Solution.take_eq_scan`), an answer is a solution followed by the full
scan of all the other items, from the greatest size and id downwards
(`allocate_eq_full_scan`). -/
namespace EdgePlacement

namespace Item

/-- Of all the items those that find room when they come up in the space left by then. -/
def scan (space : Nat) : List Item → List Item
  | [] => []
  | item :: rest =>
    if 0 < space ∧ item.size.toNat ≤ space then item :: scan (space - item.size.toNat) rest
    else scan space rest

/-- `a` has the greater size or, where the sizes are equal, the greater bytes of its id. -/
def Greater (a b : Item) : Prop :=
  b.size < a.size ∨ a.size = b.size ∧ Text.bytes b.id < Text.bytes a.id

theorem greater_iff {a b : Item} : a.Greater b ↔ Snapshot.Precedes b a := by
  rw [Greater, Snapshot.Precedes, Text.lt_iff_bytes_lt, eq_comm (a := a.size)]

theorem Greater.asymm {a b : Item} (h : a.Greater b) : ¬ b.Greater a := by
  rintro (hlt | ⟨heq, hlt⟩) <;> rcases h with hgt | ⟨heq', hgt⟩
  · exact UInt64.lt_asymm hlt hgt
  · exact UInt64.ne_of_lt hlt heq'
  · exact UInt64.ne_of_lt hgt heq
  · exact List.lt_asymm hlt hgt

end Item

namespace Solution

/-- Packing ends where no space is left, and a scan takes nothing from there on. -/
theorem take_eq_scan (space : UInt64) (items : List Item) :
    take space items = Item.scan space.toNat items := by
  induction items generalizing space with
  | nil => rfl
  | cons item rest ih =>
    by_cases hspace : space = 0
    · -- packing is over; a scan goes on, and has room for nothing, not even for size 0
      have hrest := ih 0
      rw [take_zero] at hrest
      rw [hspace, take_zero, Item.scan, if_neg fun hand => Nat.lt_irrefl 0 hand.1]
      exact hrest
    have hpos : 0 < space.toNat := UInt64.lt_iff_toNat_lt.1 (UInt64.pos_iff_ne_zero.2 hspace)
    by_cases hfits : item.size ≤ space
    · rw [take_cons_of_le hspace hfits, Item.scan,
        if_pos ⟨hpos, UInt64.le_iff_toNat_le.1 hfits⟩, ih, UInt64.toNat_sub_of_le _ _ hfits]
    · rw [take_cons_of_lt (UInt64.not_le.1 hfits), Item.scan,
        if_neg fun hand => hfits (UInt64.le_iff_toNat_le.2 hand.2), ih]

end Solution

/-- An answer goes on with a scan of the items that are not packed. -/
theorem Snapshot.answer_eq_scan (menu : SizeTable) (items : List Item) (ranking : Ranking)
    (available : UInt64) : answer menu items ranking available =
      packed menu items ranking available ++
        Item.scan (available.toNat - Item.bytes (packed menu items ranking available))
          (others menu items ranking available) := by
  have hroom := room_add_bytes menu items ranking available
  have hspace : available.toNat - Item.bytes (packed menu items ranking available) =
      (room menu items ranking available).toNat := by omega
  rw [answer_eq, Solution.take_eq_scan, hspace]

namespace Prepared

/-- The items of a well-formed snapshot, read backwards, are the only list of the copy in
descending order. -/
theorem descending_iff {menu : SizeTable} {copy : Tracked} {s : Snapshot}
    (h : s.WellFormed menu copy) (items : List Item) :
    Lists items copy ∧ items.Pairwise Item.Greater ↔ items = s.items.reverse := by
  have hlists : Lists s.items.reverse copy :=
    ⟨((List.reverse_perm _).map _).nodup_iff.2 h.lists.nodup,
      fun item => List.mem_reverse.trans (h.lists.mem_iff item)⟩
  have hdescending : s.items.reverse.Pairwise Item.Greater :=
    List.pairwise_reverse.2 (h.ascending.imp Item.greater_iff.2)
  refine ⟨fun hitems => ?_, ?_⟩
  · exact List.Perm.eq_of_pairwise (fun _ _ _ _ hab hba => (hab.asymm hba).elim) hitems.2
      hdescending (hitems.1.perm hlists)
  · rintro rfl
    exact ⟨hlists, hdescending⟩

/-- **An answer is a solution and then a full scan.** After any run of requests and cycles,
failed ones among them, there is one way to list the entries of the snapshot, each once, by
descending size and equal sizes by descending bytes of the ids. Whatever space is asked for, the
answer begins with the ids of the solution of the highest budget that it covers, whose bytes
the space covers too. It goes on with what a scan takes that starts with the rest of the space
and goes through all entries that are not in the solution, in this order. -/
theorem allocate_eq_full_scan (menu : SizeTable) (key : String) (events : List Event) :
    let p := after menu key events
    let copy := (Record.after key events).copy
    let order := p.snapshot.items.reverse
    (∀ items, Lists items copy ∧ items.Pairwise Item.Greater ↔ items = order) ∧
    ∀ available, ∃ b budget solution, menu.bound? b = some budget ∧ budget ≤ available ∧
      (∀ c covered, menu.bound? c = some covered → covered ≤ available → covered ≤ budget) ∧
      p.snapshot.solutions[b]? = some solution ∧
      copy.bytes solution.ids ≤ available.toNat ∧
      p.allocate available = solution.ids ++
        (Item.scan (available.toNat - copy.bytes solution.ids)
          (order.filter fun item => item.id ∉ solution.ids)).map (·.id) := by
  intro p copy order
  have h : Follows menu key p (.after key events) := follows_after menu key events
  have hsnapshot := h.snapshot
  rw [h.menu] at hsnapshot
  refine ⟨descending_iff hsnapshot.wellFormed, fun available => ?_⟩
  obtain ⟨generation, items, ranking, hlists, hbuilt⟩ := hsnapshot.built
  have hbudget := menu.bound?_reach_eq available
  have hthreshold : menu.thresholds[menu.reach available]? = some (menu.within available) := hbudget
  let first := Snapshot.packed menu items ranking available
  have hbytes : copy.bytes (first.map (·.id)) = Item.bytes first :=
    hlists.bytes_eq fun item hitem => (Solution.perm_inOrder ranking items).mem_iff.1
      ((Snapshot.packed_sublist menu items ranking available).subset hitem)
  refine ⟨menu.reach available, menu.within available,
    .ofBudget (Solution.inOrder ranking items) (menu.within available), hbudget,
    menu.within_le available, fun c covered => SizeTable.le_within, ?_, ?_, ?_⟩
  · rw [hbuilt]
    simp [Snapshot.build, hthreshold]
  · show copy.bytes (first.map (·.id)) ≤ available.toNat
    rw [hbytes]
    exact Snapshot.bytes_packed_le menu items ranking available
  · have horder : order = (Snapshot.bySize items).reverse := by
      show p.snapshot.items.reverse = _
      rw [hbuilt, Snapshot.items_build]
    show p.allocate available = first.map (·.id) ++ (Item.scan _ _).map (·.id)
    rw [Prepared.allocate, hbuilt, h.menu, Snapshot.allocate_build, Snapshot.answer_eq_scan,
      List.map_append, horder]
    show _ = _ ++ (Item.scan (available.toNat - copy.bytes (first.map (·.id))) _).map (·.id)
    rw [hbytes]
    rfl

end Prepared
end EdgePlacement

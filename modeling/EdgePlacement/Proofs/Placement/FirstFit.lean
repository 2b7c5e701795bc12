import EdgePlacement.Proofs.Placement.Staleness
import EdgePlacement.Proofs.Text.Bytes

/-!
First fit by priority.

Entries are tried from the highest priority downwards and, where priorities are equal, in
the order of the bytes of their ids (`Ranking.Sooner`). First fit takes an entry exactly if
the space left by those taken before it is positive and has room for it (`FirstFit`). This
leaves no choice, so packing is first fit (`firstFit_ofBudget`) and so is each solution that a
cycle publishes, whatever the order in which the live entries are listed
(`solutions_first_fit`). -/
namespace EdgePlacement

/-! ### The order in which ids are tried -/

namespace Ranking

/-- `a` has the higher priority or, where the priorities are equal, the lesser bytes. -/
def Sooner (ranking : Ranking) (a b : String) : Prop :=
  ranking.priority b < ranking.priority a ∨
    ranking.priority a = ranking.priority b ∧ Text.bytes a < Text.bytes b

instance (ranking : Ranking) (a b : String) : Decidable (ranking.Sooner a b) :=
  inferInstanceAs (Decidable (_ ∨ _))

variable {ranking : Ranking} {a b c : String}

theorem sooner_iff : ranking.Sooner a b ↔ ranking.priority b < ranking.priority a ∨
    ranking.priority a = ranking.priority b ∧ a < b := by
  rw [Sooner, Text.lt_iff_bytes_lt]

theorem Sooner.trans (hab : ranking.Sooner a b) (hbc : ranking.Sooner b c) :
    ranking.Sooner a c := by
  rw [sooner_iff] at *
  rcases hab with hab | ⟨hab, hlt⟩ <;> rcases hbc with hbc | ⟨hbc, hlt'⟩
  · exact .inl (by omega)
  · exact .inl (by omega)
  · exact .inl (by omega)
  · exact .inr ⟨by omega, String.lt_trans hlt hlt'⟩

theorem Sooner.asymm (hab : ranking.Sooner a b) : ¬ ranking.Sooner b a := by
  rw [sooner_iff] at *
  rintro (hba | ⟨hba, hlt⟩) <;> rcases hab with hab | ⟨hab, hlt'⟩
  · omega
  · omega
  · omega
  · exact String.lt_asymm hlt hlt'

end Ranking

namespace Solution

theorem sooner_inOrder (ranking : Ranking) {items : List Item}
    (hids : (items.map (·.id)).Nodup) :
    (inOrder ranking items).Pairwise fun a b => ranking.Sooner a.id b.id := by
  refine (Item.strict_mergeSort (tried_iff ranking) hids).imp fun {a b} hab => ?_
  rw [Ranking.sooner_iff]
  exact hab.imp Int.neg_lt_neg_iff.1 (And.imp_left Int.neg_inj.1)

/-- There is no other arrangement in this order. -/
theorem eq_inOrder {ranking : Ranking} {items ordered : List Item}
    (hids : (items.map (·.id)).Nodup) (hperm : ordered.Perm items)
    (hsorted : ordered.Pairwise fun a b => ranking.Sooner a.id b.id) :
    ordered = inOrder ranking items :=
  List.Perm.eq_of_pairwise (fun _ _ _ _ hab hba => (hab.asymm hba).elim) hsorted
    (sooner_inOrder ranking hids) (hperm.trans (perm_inOrder ranking items).symm)

/-- Only the priorities of the items matter. -/
theorem inOrder_congr {ranking other : Ranking} {items : List Item}
    (hids : (items.map (·.id)).Nodup)
    (hsame : ∀ item ∈ items, other.priority item.id = ranking.priority item.id) :
    inOrder other items = inOrder ranking items := by
  have hmem : ∀ item ∈ inOrder other items, other.priority item.id = ranking.priority item.id :=
    fun item hitem => hsame item ((perm_inOrder other items).mem_iff.1 hitem)
  refine eq_inOrder hids (perm_inOrder other items) ?_
  refine (sooner_inOrder other hids).imp_of_mem fun {a b} ha hb hab => ?_
  rw [Ranking.Sooner, ← hmem a ha, ← hmem b hb]
  exact hab

end Solution

/-! ### What first fit takes -/

namespace Solution

/-- The space left after `earlier` items, where `taken` are taken in all. -/
def spaceAfter (space : Nat) (taken earlier : List Item) : Nat :=
  space - Item.bytes (earlier.filter (· ∈ taken))

/-- An item is taken exactly if the space left by those taken before it is positive and has
room for it. -/
structure FirstFit (space : Nat) (items taken : List Item) : Prop where
  sublist : taken.Sublist items
  mem_iff : ∀ earlier item later, items = earlier ++ item :: later →
    (item ∈ taken ↔ 0 < spaceAfter space taken earlier ∧
      item.size.toNat ≤ spaceAfter space taken earlier)

theorem filter_mem_of_sublist {items taken : List Item} (hsub : taken.Sublist items)
    (hnodup : items.Nodup) : items.filter (· ∈ taken) = taken := by
  have hself : taken.filter (· ∈ taken) = taken :=
    List.filter_eq_self.2 fun item hitem => decide_eq_true hitem
  have hkept := hsub.filter (· ∈ taken)
  rw [hself] at hkept
  have hno_more : items.filter (· ∈ taken) ⊆ taken := fun item hitem =>
    of_decide_eq_true (List.mem_filter.1 hitem).2
  exact (hkept.eq_of_length_le ((hnodup.filter _).length_le_of_subset hno_more)).symm

theorem mem_take_cons_iff {space : UInt64} {item : Item} {later : List Item}
    (hnot : item ∉ later) : item ∈ take space (item :: later) ↔
      0 < space.toNat ∧ item.size.toNat ≤ space.toNat := by
  by_cases hspace : space = 0
  · simp [hspace]
  have hpos : 0 < space.toNat := UInt64.lt_iff_toNat_lt.1 (UInt64.pos_iff_ne_zero.2 hspace)
  rw [and_iff_right hpos, ← UInt64.le_iff_toNat_le]
  by_cases hfits : item.size ≤ space
  · simp [take_cons_of_le hspace hfits, hfits]
  · rw [take_cons_of_lt (UInt64.not_le.1 hfits)]
    exact iff_of_false (fun hmem => hnot ((take_sublist _ _).subset hmem)) hfits

section FirstFit
variable {items : List Item} (hnodup : items.Nodup)
include hnodup

theorem firstFit_take (space : UInt64) : FirstFit space.toNat items (take space items) where
  sublist := take_sublist space items
  mem_iff := by
    rintro earlier item later rfl
    obtain ⟨hearlier, hrest, hdisjoint⟩ := List.nodup_append.1 hnodup
    have htake := take_append space earlier (item :: later)
    have hfilter : earlier.filter (· ∈ take space (earlier ++ item :: later)) =
        take space earlier := by
      refine Eq.trans (List.filter_congr fun other hother => ?_)
        (filter_mem_of_sublist (take_sublist space earlier) hearlier)
      have hnot : other ∉ take (left space earlier) (item :: later) := fun hmem =>
        hdisjoint other hother other ((take_sublist _ _).subset hmem) rfl
      simp [htake, hnot]
    have hsum := left_add_bytes space earlier
    have hnotEarlier : item ∉ take space earlier := fun hmem =>
      hdisjoint item ((take_sublist _ _).subset hmem) item (List.mem_cons_self ..) rfl
    have hnotLater : item ∉ later := (List.nodup_cons.1 hrest).1
    have hspace : spaceAfter space.toNat (take space (earlier ++ item :: later)) earlier =
        (left space earlier).toNat := by
      rw [spaceAfter, hfilter]
      omega
    rw [hspace, htake, List.mem_append, or_iff_right hnotEarlier]
    exact mem_take_cons_iff hnotLater

/-- First fit leaves no choice. -/
theorem FirstFit.unique {space : Nat} {taken others : List Item}
    (h : FirstFit space items taken) (h' : FirstFit space items others) : taken = others := by
  have hagree : ∀ earlier, earlier <+: items →
      earlier.filter (· ∈ taken) = earlier.filter (· ∈ others) := by
    intro earlier
    induction earlier using List.reverseRecOn with
    | nil => exact fun _ => rfl
    | append_singleton earlier item ih =>
      rintro ⟨later, hlater⟩
      have hsplit : items = earlier ++ item :: later := by simp [← hlater]
      have hbefore := ih ⟨item :: later, hsplit.symm⟩
      have hitem : item ∈ taken ↔ item ∈ others := by
        rw [h.mem_iff earlier item later hsplit, h'.mem_iff earlier item later hsplit,
          spaceAfter, hbefore, spaceAfter]
      simp [List.filter_append, hbefore, List.filter_singleton, hitem]
  rw [← filter_mem_of_sublist h.sublist hnodup, ← filter_mem_of_sublist h'.sublist hnodup]
  exact hagree items (List.prefix_refl items)

end FirstFit

/-- What is packed for a budget is first fit, and has the bytes it says. -/
theorem firstFit_ofBudget {ordered : List Item} (hnodup : ordered.Nodup) (budget : UInt64) :
    ∃ taken, (ofBudget ordered budget).ids = taken.map (·.id) ∧
      (ofBudget ordered budget).bytes.toNat = Item.bytes taken ∧
      ∀ others, FirstFit budget.toNat ordered others ↔ others = taken := by
  have htake := firstFit_take hnodup budget
  refine ⟨take budget ordered, rfl, bytes_ofBudget ordered budget, fun others => ?_⟩
  constructor
  · exact fun h => h.unique hnodup htake
  · rintro rfl
    exact htake

end Solution

/-! ### Snapshots -/

theorem Snapshot.build_congr (generation : UInt64) (menu : SizeTable) {items : List Item}
    {ranking other : Ranking} (hids : (items.map (·.id)).Nodup)
    (hsame : ∀ item ∈ items, other.priority item.id = ranking.priority item.id) :
    build generation menu items other = build generation menu items ranking := by
  unfold build
  rw [Solution.inOrder_congr hids hsame]

namespace Prepared

theorem mem_live_of_mem_items {p : Prepared} {item : Item} (h : item ∈ p.items) :
    item.id ∈ p.live := by
  rw [← Std.HashMap.isSome_getElem?_iff_mem, mem_items_iff.1 h]
  rfl

/-- **Every solution is the first fit by priority.** Let live entries of any kind, a ranking
and a menu be given. There is one way to list the entries by descending priority, 0 where an
id is not ranked, and equal priorities by ascending bytes of the ids. For each budget of the
menu exactly one choice of entries is first fit in this order, and the solution has the ids of
this choice, in this order, and the sum of its sizes. The whole snapshot is the same however
the live entries are listed, and it does not depend on what is ranked without being live. -/
theorem solutions_first_fit (p : Prepared) (generation : UInt64) (ranking : Ranking) :
    let ordered := Solution.inOrder ranking p.items
    let s := Snapshot.build generation p.menu p.items ranking
    (∀ items : List Item, items.Perm p.items ∧
      items.Pairwise (fun a b => ranking.Sooner a.id b.id) ↔ items = ordered) ∧
    (∀ b budget, p.menu.bound? b = some budget →
      ∃ solution taken, s.solutions[b]? = some solution ∧
        (∀ others, Solution.FirstFit budget.toNat ordered others ↔ others = taken) ∧
        solution.ids = taken.map (·.id) ∧ solution.bytes.toNat = Item.bytes taken) ∧
    (∀ items : List Item, items.Perm p.items →
      Snapshot.build generation p.menu items ranking = s) ∧
    ∀ other : Ranking, (∀ id ∈ p.live, other[id]? = ranking[id]?) →
      Snapshot.build generation p.menu p.items other = s := by
  intro ordered s
  have hids : (p.items.map (·.id)).Nodup := p.nodup_items
  have hordered : ordered.Perm p.items := Solution.perm_inOrder ranking p.items
  refine ⟨fun items => ⟨fun h => Solution.eq_inOrder hids h.1 h.2, ?_⟩, fun b budget hb => ?_,
    fun items hitems => ?_, fun other hother => ?_⟩
  · rintro rfl
    exact ⟨hordered, Solution.sooner_inOrder ranking hids⟩
  · have hnodup : ordered.Nodup := hordered.nodup_iff.2 hids.of_map
    obtain ⟨taken, htaken, hbytes, hfirst⟩ := Solution.firstFit_ofBudget hnodup budget
    have hthreshold : p.menu.thresholds[b]? = some budget := hb
    refine ⟨.ofBudget ordered budget, taken, ?_, hfirst, htaken, hbytes⟩
    simp [s, Snapshot.build, hthreshold, ordered]
  · exact (Snapshot.build_perm generation p.menu ranking hids hitems.symm).symm
  · refine Snapshot.build_congr generation p.menu hids fun item hitem => ?_
    unfold Ranking.priority
    rw [Std.HashMap.getD_eq_getD_getElem?, Std.HashMap.getD_eq_getD_getElem?,
      hother item.id (mem_live_of_mem_items hitem)]

end Prepared
end EdgePlacement

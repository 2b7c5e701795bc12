import EdgePlacement.Proofs.Placement.FirstFit

/-!
Content that is not ranked.

An id without a rank counts as one of priority 0, and nothing tells the two apart. So what
is not ranked comes after what has a positive priority and before what has a negative one,
and at priority 0 the ids decide. A ranked id that is tried before all unranked ones
(`Ranking.Leads`) is chosen or not as if these were not there, because packing decides on an
initial segment without looking further (`filter_take`). No other ranked id can rely on that:
one of negative priority may lose its place to an unranked one
(`unranked_displaces_ranked`). -/
namespace EdgePlacement

/-! ### Ranked ids that lead -/

namespace Ranking

theorem priority_of_notMem {ranking : Ranking} {id : String} (h : id ∉ ranking) :
    ranking.priority id = 0 := Std.HashMap.getD_eq_fallback h

/-- The id is ranked and is tried before all of these ids that are not. -/
def Leads (ranking : Ranking) (ids : List String) (id : String) : Prop :=
  id ∈ ranking ∧ ∀ other ∈ ids, other ∉ ranking → ranking.Sooner id other

instance (ranking : Ranking) (ids : List String) (id : String) :
    Decidable (ranking.Leads ids id) := inferInstanceAs (Decidable (_ ∧ _))

theorem leads_of_pos {ranking : Ranking} {id : String} (hmem : id ∈ ranking)
    (hpos : 0 < ranking.priority id) (ids : List String) : ranking.Leads ids id := by
  refine ⟨hmem, fun other _ hunranked => .inl ?_⟩
  rwa [priority_of_notMem hunranked]

/-- Ids that are tried before one that leads do so as well. -/
theorem Leads.of_sooner {ranking : Ranking} {ids : List String} {a b : String}
    (h : ranking.Leads ids b) (ha : a ∈ ids) (hab : ranking.Sooner a b) :
    ranking.Leads ids a := by
  refine ⟨?_, fun other hother hunranked => hab.trans (h.2 other hother hunranked)⟩
  by_contra hunranked
  exact hab.asymm (h.2 a ha hunranked)

end Ranking

namespace Solution

/-- What is taken of an initial segment does not depend on what follows it. -/
theorem filter_take {f : Item → Bool} {items : List Item}
    (hinitial : items.Pairwise fun a b => f b = true → f a = true) (space : UInt64) :
    (take space items).filter f = take space (items.filter f) := by
  induction items generalizing space with
  | nil => rfl
  | cons item rest ih =>
    obtain ⟨hitem, hrest⟩ := List.pairwise_cons.1 hinitial
    by_cases hf : f item = true
    · rw [List.filter_cons_of_pos hf]
      by_cases hspace : space = 0
      · simp [hspace]
      by_cases hfits : item.size ≤ space
      · rw [take_cons_of_le hspace hfits, take_cons_of_le hspace hfits,
          List.filter_cons_of_pos hf, ih hrest]
      · rw [take_cons_of_lt (UInt64.not_le.1 hfits), take_cons_of_lt (UInt64.not_le.1 hfits),
          ih hrest]
    · -- nothing has the property from here on
      have hnone : ∀ other ∈ item :: rest, ¬ f other = true :=
        List.forall_mem_cons.2 ⟨hf, fun other hother hf' => hf (hitem other hother hf')⟩
      rw [List.filter_eq_nil_iff.2 hnone]
      exact List.filter_eq_nil_iff.2 fun other hother =>
        hnone other ((take_sublist space _).subset hother)

end Solution

/-! ### The live entries without the unranked ones -/

namespace Prepared

/-- The allocator with the unranked entries taken out. -/
def ranked (p : Prepared) (ranking : Ranking) : Prepared :=
  { p with live := p.live.filter fun id _ => decide (id ∈ ranking) }

theorem items_ranked_perm (p : Prepared) (ranking : Ranking) :
    (p.ranked ranking).items.Perm (p.items.filter fun item => decide (item.id ∈ ranking)) := by
  refine (List.perm_ext_iff_of_nodup (nodup_items _).of_map (p.nodup_items.of_map.filter _)).2
    fun item => ?_
  rw [List.mem_filter, mem_items_iff, mem_items_iff]
  simp only [ranked, Std.HashMap.getElem?_filter', Option.filter_eq_some_iff]

/-- Without the unranked entries the others are tried in the same order. -/
theorem inOrder_ranked (p : Prepared) (ranking : Ranking) :
    Solution.inOrder ranking (p.ranked ranking).items =
      (Solution.inOrder ranking p.items).filter fun item => decide (item.id ∈ ranking) := by
  refine (Solution.eq_inOrder (nodup_items _) ?_ ?_).symm
  · exact ((Solution.perm_inOrder ranking p.items).filter _).trans
      (p.items_ranked_perm ranking).symm
  · exact (Solution.sooner_inOrder ranking p.nodup_items).filter _

end Prepared

/-! ### Solutions -/

/-- A budget that the menu does not have counts as 0. -/
theorem Snapshot.solution_build_getD (generation : UInt64) (menu : SizeTable) (items : List Item)
    (ranking : Ranking) (b : Nat) : (build generation menu items ranking).solution b =
      .ofBudget (Solution.inOrder ranking items) ((menu.bound? b).getD 0) := by
  cases hb : menu.bound? b with
  | some budget => exact solution_build generation menu items ranking hb
  | none =>
    have hthreshold : menu.thresholds[b]? = none := hb
    rw [Option.getD_none, Solution.ofBudget_zero]
    simp [solution, build, hthreshold]

namespace Prepared
section Ranked
variable (p : Prepared) (ranking : Ranking)

theorem mem_keys_of_mem_inOrder {item : Item} (h : item ∈ Solution.inOrder ranking p.items) :
    item.id ∈ p.live.keys :=
  Std.HashMap.mem_keys.2
    (mem_live_of_mem_items ((Solution.perm_inOrder ranking p.items).mem_iff.1 h))

/-- Of the live entries those that lead are tried first. -/
theorem leads_initial : (Solution.inOrder ranking p.items).Pairwise fun a b =>
    decide (ranking.Leads p.live.keys b.id) = true →
      decide (ranking.Leads p.live.keys a.id) = true := by
  refine (Solution.sooner_inOrder ranking p.nodup_items).imp_of_mem fun {a b} ha _ hab hleads => ?_
  exact decide_eq_true
    ((of_decide_eq_true hleads).of_sooner (p.mem_keys_of_mem_inOrder ranking ha) hab)

/-- Whether or not unranked entries are packed as well, the same of those that lead are taken. -/
theorem filter_leads_ofBudget (budget : UInt64) :
    (Solution.ofBudget (Solution.inOrder ranking p.items) budget).ids.filter
        (fun id => decide (ranking.Leads p.live.keys id)) =
      (Solution.ofBudget (Solution.inOrder ranking (p.ranked ranking).items) budget).ids.filter
        (fun id => decide (ranking.Leads p.live.keys id)) := by
  have hinitial := p.leads_initial ranking
  rw [inOrder_ranked]
  generalize Solution.inOrder ranking p.items = ordered at *
  simp only [Solution.ofBudget, List.filter_map, Function.comp_def]
  rw [Solution.filter_take hinitial, Solution.filter_take (hinitial.filter _), List.filter_filter]
  congr 2
  refine List.filter_congr fun item _ => ?_
  by_cases hleads : ranking.Leads p.live.keys item.id
  · simp [hleads, hleads.1]
  · simp [hleads]

/-- A solution lists ids in the order in which they are tried. -/
theorem sorted_ofBudget (budget : UInt64) :
    (Solution.ofBudget (Solution.inOrder ranking p.items) budget).ids.Pairwise ranking.Sooner :=
  List.pairwise_map.2
    ((Solution.sooner_inOrder ranking p.nodup_items).sublist (Solution.take_sublist _ _))

theorem mem_live_of_mem_ofBudget {budget : UInt64} {id : String}
    (h : id ∈ (Solution.ofBudget (Solution.inOrder ranking p.items) budget).ids) :
    id ∈ p.live := by
  obtain ⟨item, hitem, rfl⟩ := List.mem_map.1 h
  exact Std.HashMap.mem_keys.1
    (p.mem_keys_of_mem_inOrder ranking ((Solution.take_sublist _ _).subset hitem))

theorem mem_live_ranked_iff {id : String} :
    id ∈ (p.ranked ranking).live ↔ id ∈ p.live ∧ id ∈ ranking := by
  simp [ranked, Std.HashMap.mem_filter]

end Ranked

/-- **What is not ranked is packed as if it had priority 0.** A solution depends on nothing of a
ranking but the priorities of the live ids, and an id that is not ranked has priority 0. So in a
solution an unranked id stands before a ranked one only if the ranked one has a negative priority,
or priority 0 and the greater bytes. Of the ranked ids that lead, as those of positive priority
all do, a solution has the same, in the same order, as if the unranked entries were taken out;
and if all ranked live ids lead, these are all the ranked ids it has. -/
theorem unranked_packed_at_zero (p : Prepared) (generation : UInt64) (ranking : Ranking)
    (b : Nat) :
    let solution := (Snapshot.build generation p.menu p.items ranking).solution b
    let alone := (Snapshot.build generation p.menu (p.ranked ranking).items ranking).solution b
    let leads := fun id => decide (ranking.Leads p.live.keys id)
    (∀ other : Ranking, (∀ id ∈ p.live, other.priority id = ranking.priority id) →
      (Snapshot.build generation p.menu p.items other).solution b = solution) ∧
    (∀ u r, [u, r].Sublist solution.ids → u ∉ ranking → r ∈ ranking →
      ranking.priority r < 0 ∨ ranking.priority r = 0 ∧ Text.bytes u < Text.bytes r) ∧
    (∀ id ∈ ranking, 0 < ranking.priority id → leads id = true) ∧
    solution.ids.filter leads = alone.ids.filter leads ∧
    ((∀ id ∈ p.live, id ∈ ranking → leads id = true) →
      solution.ids.filter (fun id => decide (id ∈ ranking)) = alone.ids) := by
  intro solution alone leads
  have hsolution : solution = .ofBudget (Solution.inOrder ranking p.items) _ :=
    Snapshot.solution_build_getD generation p.menu p.items ranking b
  have halone : alone = .ofBudget (Solution.inOrder ranking (p.ranked ranking).items) _ :=
    Snapshot.solution_build_getD generation p.menu (p.ranked ranking).items ranking b
  have hsame : solution.ids.filter leads = alone.ids.filter leads := by
    rw [hsolution, halone]
    exact p.filter_leads_ofBudget ranking _
  refine ⟨fun other hother => ?_, fun u r hsub hu hr => ?_,
    fun id hid hpos => decide_eq_true (Ranking.leads_of_pos hid hpos _), hsame, fun hall => ?_⟩
  · rw [Snapshot.build_congr generation p.menu p.nodup_items fun item hitem =>
      hother item.id (mem_live_of_mem_items hitem)]
  · have hsorted : solution.ids.Pairwise ranking.Sooner := by
      rw [hsolution]
      exact p.sorted_ofBudget ranking _
    have hsooner : ranking.Sooner u r := List.pairwise_pair.1 (hsorted.sublist hsub)
    rw [Ranking.Sooner, Ranking.priority_of_notMem hu] at hsooner
    exact hsooner.imp_right fun h => ⟨h.1.symm, h.2⟩
  · have hlive : ∀ id ∈ alone.ids, id ∈ p.live ∧ id ∈ ranking := fun id hid => by
      rw [halone] at hid
      exact (p.mem_live_ranked_iff ranking).1
        ((p.ranked ranking).mem_live_of_mem_ofBudget ranking hid)
    have hkept : alone.ids.filter leads = alone.ids := List.filter_eq_self.2 fun id hid =>
      hall id (hlive id hid).1 (hlive id hid).2
    rw [← hkept, ← hsame]
    refine List.filter_congr fun id hid => Bool.eq_iff_iff.2 ?_
    rw [hsolution] at hid
    constructor
    · intro hranked
      exact hall id (p.mem_live_of_mem_ofBudget ranking hid) (of_decide_eq_true hranked)
    · intro hleads
      exact decide_eq_true (of_decide_eq_true hleads).1

/-- An entry of negative priority stands behind one that is not ranked, and loses its place. -/
theorem unranked_displaces_ranked :
    let ranking : Ranking := Std.HashMap.ofList [("low", -1)]
    let p := told (.ofList [10, 20]) "eu" [⟨"low", 10⟩, ⟨"free", 10⟩]
    let s := Snapshot.build 1 p.menu p.items ranking
    let alone := Snapshot.build 1 p.menu (p.ranked ranking).items ranking
    "free" ∉ ranking ∧ "low" ∈ ranking ∧ (s.solution 2).ids = ["free", "low"] ∧
      (s.solution 1).ids = ["free"] ∧ (alone.solution 1).ids = ["low"] := by
  intro ranking p s alone
  have hfree : "free" ∉ ranking := by simp [ranking]
  have hlow : "low" ∈ ranking := by simp [ranking]
  have hpriority : ranking.priority "low" = -1 := by simp [ranking, Ranking.priority]
  have hfirst : [⟨"free", 10⟩, ⟨"low", 10⟩] = Solution.inOrder ranking p.items := by
    refine Solution.eq_inOrder p.nodup_items ?_ ?_
    · refine .trans ?_ (items_told_perm _ _ (by decide)).symm
      decide
    · simp [Ranking.Sooner, hpriority, ranking.priority_of_notMem hfree]
  have hranked : [⟨"low", 10⟩] = Solution.inOrder ranking (p.ranked ranking).items := by
    rw [inOrder_ranked, ← hfirst]
    simp [hfree, hlow]
  have hmenu : p.menu = .ofList [10, 20] := congrArg Prepared.menu (told_eq ..)
  have hten : p.menu.bound? 1 = some 10 := by
    rw [hmenu]
    simp [SizeTable.bound?, SizeTable.ofList, Size.ascending, Size.dropRepeats, List.mergeSort]
  have htwenty : p.menu.bound? 2 = some 20 := by
    rw [hmenu]
    simp [SizeTable.bound?, SizeTable.ofList, Size.ascending, Size.dropRepeats, List.mergeSort]
  refine ⟨hfree, hlow, ?_, ?_, ?_⟩
  · rw [Snapshot.solution_build _ _ _ _ htwenty, ← hfirst]
    decide
  · rw [Snapshot.solution_build _ _ _ _ hten, ← hfirst]
    decide
  · rw [Snapshot.solution_build _ _ _ _ hten, ← hranked]
    decide

end Prepared
end EdgePlacement

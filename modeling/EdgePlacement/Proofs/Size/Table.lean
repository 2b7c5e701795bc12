import EdgePlacement.Proofs.Size.Search
import EdgePlacement.Size.Table

/-!
The classes of sizes and budgets.

A budget reaches exactly the classes whose threshold it covers (`le_reach_iff`); class 0 is
always among them, so what a budget reaches is a class of the table. -/
namespace EdgePlacement.SizeTable

theorem pairwise_le (table : SizeTable) : table.thresholds.toList.Pairwise (· ≤ ·) :=
  table.ascending.imp UInt64.le_of_lt

/-- A budget reaches a class exactly if it covers the threshold of the class. -/
theorem le_reach_iff (table : SizeTable) {budget : UInt64} {c : Nat} :
    c ≤ table.reach budget ↔ ∃ t, table.bound? c = some t ∧ t ≤ budget := by
  have hc := Size.lastAtMost_iff table.pairwise_le budget
  obtain ⟨last, hlast, -⟩ := (hc 0).2 ⟨0, table.zero_first, UInt64.zero_le⟩
  unfold reach bound?
  rw [← hc c, hlast]
  simp

theorem bound?_reach (table : SizeTable) (budget : UInt64) :
    ∃ t, table.bound? (table.reach budget) = some t ∧ t ≤ budget :=
  table.le_reach_iff.1 (Nat.le_refl _)

/-- The highest threshold that a budget covers. -/
def within (table : SizeTable) (budget : UInt64) : UInt64 :=
  (table.bound? (table.reach budget)).getD 0

theorem bound?_reach_eq (table : SizeTable) (budget : UInt64) :
    table.bound? (table.reach budget) = some (table.within budget) := by
  obtain ⟨t, ht, -⟩ := table.bound?_reach budget
  unfold within
  rw [ht]
  rfl

theorem within_le (table : SizeTable) (budget : UInt64) : table.within budget ≤ budget := by
  obtain ⟨t, ht, hle⟩ := table.bound?_reach budget
  unfold within
  rw [ht]
  exact hle

/-- No threshold covered is higher. -/
theorem le_within {table : SizeTable} {budget t : UInt64} {c : Nat} (h : table.bound? c = some t)
    (hle : t ≤ budget) : t ≤ table.within budget :=
  Size.getElem?_le table.pairwise_le (table.le_reach_iff.2 ⟨t, h, hle⟩) h
    (table.bound?_reach_eq budget)

/-- A threshold reaches its own class and none above it. -/
theorem reach_bound {table : SizeTable} {c : Nat} {t : UInt64} (h : table.bound? c = some t) :
    table.reach t = c := by
  refine Nat.le_antisymm (Nat.le_of_not_lt fun hlt => ?_) (table.le_reach_iff.2
    ⟨t, h, UInt64.le_refl t⟩)
  obtain ⟨above, habove, hle⟩ := table.bound?_reach t
  obtain ⟨hc, rfl⟩ := Array.getElem?_eq_some_iff.1 h
  obtain ⟨hr, rfl⟩ := Array.getElem?_eq_some_iff.1 habove
  exact UInt64.not_lt.2 hle (List.pairwise_iff_getElem.1 table.ascending _ _ hc hr hlt)

theorem within_bound {table : SizeTable} {c : Nat} {t : UInt64} (h : table.bound? c = some t) :
    table.within t = t := by
  rw [within, reach_bound h, h, Option.getD_some]

theorem bound?_isSome {table : SizeTable} {c : Nat} :
    (table.bound? c).isSome = true ↔ c < table.size := by
  unfold bound? size
  rw [Option.isSome_iff_exists]
  constructor
  · rintro ⟨t, ht⟩
    exact (Array.getElem?_eq_some_iff.1 ht).1
  · intro hc
    exact ⟨_, Array.getElem?_eq_getElem hc⟩

theorem reach_lt (table : SizeTable) (budget : UInt64) : table.reach budget < table.size := by
  obtain ⟨t, ht, -⟩ := table.bound?_reach budget
  exact bound?_isSome.1 (by rw [ht]; rfl)

theorem classFor_lt (table : SizeTable) (size : UInt64) : table.classFor size < table.size := by
  have := table.size_pos
  unfold classFor
  omega

/-- A size is above all thresholds beneath its class. -/
theorem bound_lt_of_lt_classFor {table : SizeTable} {size bound : UInt64} {c : Nat}
    (hc : c < table.classFor size) (hbound : table.bound? c = some bound) : bound < size := by
  have hfirst : c < Size.firstAtLeast table.thresholds size :=
    Nat.lt_of_lt_of_le hc (Nat.min_le_left _ _)
  obtain ⟨x, hx, hlt⟩ := (Size.lt_firstAtLeast_iff table.pairwise_le size c).1 hfirst
  obtain rfl : bound = x := Option.some.inj (hbound.symm.trans hx)
  exact hlt

/-- The largest number of bytes there is. -/
theorem le_max (size : UInt64) : size ≤ 18446744073709551615 :=
  UInt64.le_iff_toNat_le.2 (Nat.le_of_lt_succ size.toNat_lt)

/-- It reaches the last class. -/
theorem reach_max (table : SizeTable) : table.reach 18446744073709551615 = table.size - 1 := by
  have hlt := table.reach_lt 18446744073709551615
  obtain ⟨t, ht⟩ := Option.isSome_iff_exists.1
    (bound?_isSome.2 (Nat.sub_lt table.size_pos Nat.one_pos))
  have hreach := table.le_reach_iff.2 ⟨t, ht, le_max t⟩
  omega

/-- A threshold above 0 is that of a class besides class 0. -/
theorem one_lt_size {table : SizeTable} {t : UInt64} (ht : t ∈ table.thresholds) (hpos : 0 < t) :
    1 < table.size := by
  obtain ⟨c, hc⟩ := Array.getElem?_of_mem ht
  have hlt := (Array.getElem?_eq_some_iff.1 hc).1
  have hclass : c ≠ 0 := by
    rintro rfl
    rw [table.zero_first] at hc
    exact UInt64.ne_of_lt hpos (Option.some.inj hc)
  unfold size
  omega

/-- Where there is a class besides class 0, sizes above 0 are not in class 0. -/
theorem one_le_classFor {table : SizeTable} (hmore : 1 < table.size) {size : UInt64}
    (hsize : 1 ≤ size) : 1 ≤ table.classFor size := by
  have hpos : 0 < size := UInt64.lt_iff_toNat_lt.2 (UInt64.le_iff_toNat_le.1 hsize)
  have hfirst := (Size.lt_firstAtLeast_iff table.pairwise_le size 0).2 ⟨0, table.zero_first, hpos⟩
  unfold classFor
  omega

/-- A size reaches its class with every budget that covers a threshold not below it. -/
theorem classFor_le_reach {table : SizeTable} {size bound budget : UInt64}
    (hbound : bound ∈ table.thresholds) (hsize : size ≤ bound) (hbudget : bound ≤ budget) :
    table.classFor size ≤ table.reach budget := by
  obtain ⟨c, hc⟩ := Array.getElem?_of_mem hbound
  have hclass : table.classFor size ≤ c := Nat.le_of_not_lt fun hlt =>
    UInt64.not_lt.2 hsize (bound_lt_of_lt_classFor hlt hc)
  exact Nat.le_trans hclass (table.le_reach_iff.2 ⟨bound, hc, hbudget⟩)

/-- A table has no class besides class 0 exactly if it is made of zeros. -/
theorem size_ofList_eq_one_iff (thresholds : List UInt64) :
    (ofList thresholds).size = 1 ↔ ∀ t ∈ thresholds, t = 0 := by
  have hsize : (ofList thresholds).size = (Size.ascending (0 :: thresholds)).length := rfl
  have hzero : (0 : UInt64) ∈ Size.ascending (0 :: thresholds) :=
    Size.mem_ascending.2 (List.mem_cons_self ..)
  rw [hsize]
  constructor
  · intro hone t ht
    obtain ⟨a, ha⟩ := List.length_eq_one_iff.1 hone
    have hmem : t ∈ Size.ascending (0 :: thresholds) :=
      Size.mem_ascending.2 (List.mem_cons_of_mem _ ht)
    rw [ha, List.mem_singleton] at hzero hmem
    rw [hmem, hzero]
  · intro hall
    have hnodup : (Size.ascending (0 :: thresholds)).Nodup :=
      (Size.pairwise_ascending _).imp UInt64.ne_of_lt
    have hsub : Size.ascending (0 :: thresholds) ⊆ [0] := fun t ht =>
      List.mem_singleton.2 ((List.mem_cons.1 (Size.mem_ascending.1 ht)).elim id (hall t))
    exact Nat.le_antisymm (List.Nodup.length_le_of_subset hnodup hsub)
      (List.length_pos_of_mem hzero)

end EdgePlacement.SizeTable

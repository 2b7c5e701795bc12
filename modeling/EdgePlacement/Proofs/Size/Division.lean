import EdgePlacement.Proofs.Size.Table
import Mathlib.Logic.Basic

/-!
How a table divides sizes and budgets.

A table is told by the values of its thresholds, whatever the list they came in, so that its own
thresholds make it again. A class besides class 0 takes the sizes above the threshold beneath it
and up to its own, and the last one all that are larger too; a budget from the threshold of a
class up to the next one reaches that class. Either way no two classes overlap and nothing is left
over (`classes_divide`). -/
namespace EdgePlacement.SizeTable

/-! ### Thresholds -/

/-- Tables of the same thresholds are the same. -/
theorem eq_of_mem_iff {a b : SizeTable} (h : ∀ t, t ∈ a.thresholds ↔ t ∈ b.thresholds) : a = b := by
  have hnodup : ∀ table : SizeTable, table.thresholds.toList.Nodup := fun table =>
    table.ascending.imp UInt64.ne_of_lt
  have hperm : a.thresholds.toList.Perm b.thresholds.toList :=
    (List.perm_ext_iff_of_nodup (hnodup a) (hnodup b)).2 fun t => by
      rw [Array.mem_toList_iff, Array.mem_toList_iff, h]
  have heq : a.thresholds.toList = b.thresholds.toList :=
    List.Perm.eq_of_pairwise (fun _ _ _ _ hab hba => (UInt64.lt_asymm hab hba).elim) a.ascending
      b.ascending hperm
  cases a
  cases b
  cases Array.toList_inj.1 heq
  rfl

theorem mem_ofList {thresholds : List UInt64} {t : UInt64} :
    t ∈ (ofList thresholds).thresholds ↔ t = 0 ∨ t ∈ thresholds := by
  simp [ofList]

theorem ofList_congr {thresholds others : List UInt64} (h : ∀ t, t ∈ others ↔ t ∈ thresholds) :
    ofList others = ofList thresholds :=
  eq_of_mem_iff fun t => by rw [mem_ofList, mem_ofList, h]

theorem ofList_thresholds (table : SizeTable) : ofList table.thresholds.toList = table := by
  refine eq_of_mem_iff fun t => ?_
  rw [mem_ofList, Array.mem_toList_iff, or_iff_right_iff_imp]
  rintro rfl
  exact Array.mem_of_getElem? table.zero_first

theorem thresholds_eq_iff (table : SizeTable) : table.thresholds = #[0] ↔ table.size = 1 := by
  constructor
  · intro h
    rw [size, h]
    rfl
  · intro h
    obtain ⟨t, ht⟩ := Array.size_eq_one_iff.1 h
    have hzero := table.zero_first
    rw [ht] at hzero ⊢
    cases hzero
    rfl

/-! ### Sizes -/

/-- A class besides class 0 and a size between the thresholds that bound it. The last class has
no bound above. -/
def Takes (table : SizeTable) (c : Nat) (size : UInt64) : Prop :=
  1 ≤ c ∧ (∃ lower, table.bound? (c - 1) = some lower ∧ lower < size) ∧
    ∃ upper, table.bound? c = some upper ∧ (size ≤ upper ∨ c = table.size - 1)

theorem bound?_of_lt {table : SizeTable} {c : Nat} (h : c < table.size) :
    ∃ t, table.bound? c = some t :=
  Option.isSome_iff_exists.1 (bound?_isSome.2 h)

theorem lt_size_of_bound? {table : SizeTable} {c : Nat} {t : UInt64} (h : table.bound? c = some t) :
    c < table.size :=
  bound?_isSome.1 (Option.isSome_iff_exists.2 ⟨t, h⟩)

/-- A size is beyond a class exactly if it is above its threshold and there is a class left. -/
theorem lt_classFor_iff (table : SizeTable) {c : Nat} {size : UInt64} :
    c < table.classFor size ↔
      c + 1 < table.size ∧ ∃ t, table.bound? c = some t ∧ t < size := by
  have hfirst := Size.lt_firstAtLeast_iff table.pairwise_le size c
  unfold classFor bound?
  rw [← hfirst]
  omega

theorem classFor_eq_zero_iff (table : SizeTable) {size : UInt64} :
    table.classFor size = 0 ↔ size = 0 ∨ table.thresholds = #[0] := by
  have hpos := table.size_pos
  have hbeyond : 0 < table.classFor size ↔ 1 < table.size ∧ size ≠ 0 := by
    rw [lt_classFor_iff, ← UInt64.pos_iff_ne_zero]
    refine and_congr_right fun _ => ⟨?_, fun h => ⟨0, table.zero_first, h⟩⟩
    rintro ⟨t, ht, hlt⟩
    cases table.zero_first.symm.trans ht
    exact hlt
  rw [thresholds_eq_iff, ← not_iff_not, ← ne_eq, ← Nat.pos_iff_ne_zero, hbeyond, not_or, and_comm]
  exact and_congr_right fun _ => by omega

/-- The class of a size is the one that takes it. -/
theorem classFor_eq_iff (table : SizeTable) {size : UInt64} (hsize : size ≠ 0)
    (hmore : table.thresholds ≠ #[0]) {c : Nat} :
    table.classFor size = c ↔ table.Takes c size := by
  have hlt := table.classFor_lt size
  have hne : table.classFor size ≠ 0 := fun hzero =>
    (table.classFor_eq_zero_iff.1 hzero).elim hsize hmore
  constructor
  · rintro rfl
    have hbeneath : table.classFor size - 1 < table.classFor size := by omega
    obtain ⟨-, lower⟩ := table.lt_classFor_iff.1 hbeneath
    obtain ⟨upper, hupper⟩ := bound?_of_lt hlt
    refine ⟨by omega, lower, upper, hupper, ?_⟩
    rw [or_iff_not_imp_left, UInt64.not_le]
    intro habove
    have hlast : ¬ table.classFor size < table.classFor size := Nat.lt_irrefl _
    rw [lt_classFor_iff] at hlast
    have : ¬ table.classFor size + 1 < table.size := fun hnext =>
      hlast ⟨hnext, upper, hupper, habove⟩
    omega
  · rintro ⟨hc, lower, upper, hupper, hwithin⟩
    have hcs := lt_size_of_bound? hupper
    have hfrom : c - 1 < table.classFor size := table.lt_classFor_iff.2 ⟨by omega, lower⟩
    have hto : ¬ c < table.classFor size := by
      rw [lt_classFor_iff]
      rintro ⟨hnext, t, ht, habove⟩
      cases hupper.symm.trans ht
      rcases hwithin with hle | hlast
      · exact UInt64.not_lt.2 hle habove
      · omega
    omega

theorem classFor_mono (table : SizeTable) {a b : UInt64} (h : a ≤ b) :
    table.classFor a ≤ table.classFor b := by
  refine Nat.le_of_not_lt fun hlt => ?_
  obtain ⟨hnext, t, ht, hta⟩ := table.lt_classFor_iff.1 hlt
  exact Nat.lt_irrefl _ (table.lt_classFor_iff.2 ⟨hnext, t, ht, UInt64.lt_of_lt_of_le hta h⟩)

/-! ### Budgets -/

/-- A class and a budget from its threshold up to the next one. The last class has no bound
above. -/
def Serves (table : SizeTable) (c : Nat) (budget : UInt64) : Prop :=
  (∃ t, table.bound? c = some t ∧ t ≤ budget) ∧
    (c = table.size - 1 ∨ ∃ next, table.bound? (c + 1) = some next ∧ budget < next)

/-- The reach of a budget is the class that serves it. -/
theorem reach_eq_iff (table : SizeTable) {budget : UInt64} {c : Nat} :
    table.reach budget = c ↔ table.Serves c budget := by
  have hlt := table.reach_lt budget
  constructor
  · rintro rfl
    refine ⟨table.bound?_reach budget, ?_⟩
    rw [or_iff_not_imp_left]
    intro hlast
    obtain ⟨next, hnext⟩ := bound?_of_lt (show table.reach budget + 1 < table.size by omega)
    refine ⟨next, hnext, UInt64.not_le.1 fun hle => ?_⟩
    exact Nat.not_succ_le_self _ (table.le_reach_iff.2 ⟨next, hnext, hle⟩)
  · rintro ⟨hfrom, hto⟩
    have hle := table.le_reach_iff.2 hfrom
    have hnot : ¬ c + 1 ≤ table.reach budget := by
      rcases hto with hlast | ⟨next, hnext, hbelow⟩
      · omega
      · rw [le_reach_iff]
        rintro ⟨t, ht, hcovered⟩
        cases hnext.symm.trans ht
        exact UInt64.not_lt.2 hcovered hbelow
    omega

theorem reach_mono (table : SizeTable) {a b : UInt64} (h : a ≤ b) :
    table.reach a ≤ table.reach b := by
  obtain ⟨t, ht, hle⟩ := table.bound?_reach a
  exact table.le_reach_iff.2 ⟨t, ht, UInt64.le_trans hle h⟩

/-- **Classes divide all sizes and all budgets.** Let a table be made of thresholds in any order
and with any repeats. It has their values and 0, in ascending order and each once; lists of the
same values make the same table, and so do its own thresholds. Of the sizes, class 0 has none but
0, or all if there is no other class, and every other size is in the one class that takes it.
Every budget reaches the one class that serves it. What is larger is never in a lower class and
never reaches less. -/
theorem classes_divide (thresholds : List UInt64) :
    let table : SizeTable := ofList thresholds
    (table.thresholds.toList.Pairwise (· < ·) ∧
      ∀ t, t ∈ table.thresholds ↔ t = 0 ∨ t ∈ thresholds) ∧
    (∀ others, (∀ t, t ∈ others ↔ t ∈ thresholds) → ofList others = table) ∧
    ofList table.thresholds.toList = table ∧
    (∀ size, table.classFor size = 0 ↔ size = 0 ∨ table.thresholds = #[0]) ∧
    (∀ size, size ≠ 0 → table.thresholds ≠ #[0] →
      ∀ c, table.classFor size = c ↔ table.Takes c size) ∧
    (∀ budget c, table.reach budget = c ↔ table.Serves c budget) ∧
    ∀ a b, a ≤ b → table.classFor a ≤ table.classFor b ∧ table.reach a ≤ table.reach b := by
  intro table
  exact ⟨⟨table.ascending, fun t => mem_ofList⟩, fun others => ofList_congr,
    table.ofList_thresholds, fun size => table.classFor_eq_zero_iff,
    fun size hsize hmore c => table.classFor_eq_iff hsize hmore,
    fun budget c => table.reach_eq_iff,
    fun a b h => ⟨table.classFor_mono h, table.reach_mono h⟩⟩

end EdgePlacement.SizeTable

import EdgePlacement.Size.Search

/-!
What the index searches find.

A search for the end of the initial segment on which a property holds finds it
(`lt_boundary_iff`), given that the property holds on an initial segment at all: on an
ascending array, being below a value and being at most a value do. -/
namespace EdgePlacement.Size

/-- The elements with the property come first. -/
def Initial (xs : Array UInt64) (p : UInt64 → Bool) : Prop :=
  ∀ i j : Nat, i ≤ j → xs[j]?.any p = true → xs[i]?.any p = true

theorem lt_boundary_iff {xs : Array UInt64} {p : UInt64 → Bool} (h : Initial xs p) {lo hi : Nat}
    (hlo : lo ≤ hi) (below : ∀ i, i < lo → xs[i]?.any p = true)
    (above : ∀ i, hi ≤ i → xs[i]?.any p = false) (i : Nat) :
    i < boundary xs p lo hi ↔ xs[i]?.any p = true := by
  fun_induction boundary xs p lo hi with
  | case1 lo hi hlt mid hp ih =>
    exact ih (by omega) (fun i hi => h i mid (by omega) hp) above
  | case2 lo hi hlt mid hp ih =>
    refine ih (by omega) below (fun i hi => ?_)
    cases hi' : xs[i]?.any p
    · rfl
    · exact absurd (h mid i hi hi') hp
  | case3 lo hi hle =>
    refine ⟨below i, fun hi' => ?_⟩
    by_cases hlt : i < lo
    · exact hlt
    · rw [above i (by omega)] at hi'
      cases hi'

/-- The search over the whole array. -/
theorem lt_boundary_size_iff {xs : Array UInt64} {p : UInt64 → Bool} (h : Initial xs p) (i : Nat) :
    i < boundary xs p 0 xs.size ↔ ∃ x, xs[i]? = some x ∧ p x = true := by
  rw [lt_boundary_iff h (Nat.zero_le _) (fun i hi => absurd hi (Nat.not_lt_zero i))
    (fun i hi => by rw [Array.getElem?_eq_none hi]; rfl), Option.any_eq_true]

variable {sorted : Array UInt64}

theorem getElem?_le (h : sorted.toList.Pairwise (· ≤ ·)) {i j : Nat} {x y : UInt64} (hij : i ≤ j)
    (hx : sorted[i]? = some x) (hy : sorted[j]? = some y) : x ≤ y := by
  obtain ⟨hi, rfl⟩ := Array.getElem?_eq_some_iff.1 hx
  obtain ⟨hj, rfl⟩ := Array.getElem?_eq_some_iff.1 hy
  rcases Nat.eq_or_lt_of_le hij with rfl | hlt
  · exact UInt64.le_refl _
  · exact List.pairwise_iff_getElem.1 h i j hi hj hlt

/-- On an ascending array a property that passes to smaller values holds on an initial
segment. -/
theorem initial_of_ascending (h : sorted.toList.Pairwise (· ≤ ·)) {p : UInt64 → Bool}
    (hp : ∀ x y, x ≤ y → p y = true → p x = true) : Initial sorted p := by
  intro i j hij hj
  obtain ⟨y, hy, hpy⟩ := (Option.any_eq_true _ _).1 hj
  have hi : i < sorted.size := Nat.lt_of_le_of_lt hij (Array.getElem?_eq_some_iff.1 hy).1
  have hx := Array.getElem?_eq_getElem hi
  rw [hx]
  exact hp _ _ (getElem?_le h hij hx hy) hpy

/-- Everything before the first element that is at least `value` is below it. -/
theorem lt_firstAtLeast_iff (h : sorted.toList.Pairwise (· ≤ ·)) (value : UInt64) (i : Nat) :
    i < firstAtLeast sorted value ↔ ∃ x, sorted[i]? = some x ∧ x < value := by
  have hp : Initial sorted (fun x => decide (x < value)) :=
    initial_of_ascending h fun x y hxy hy =>
      decide_eq_true (UInt64.lt_of_le_of_lt hxy (of_decide_eq_true hy))
  simp only [firstAtLeast, lt_boundary_size_iff hp, decide_eq_true_eq]

/-- How many elements of an ascending array are at most `value`. -/
def fitting (sorted : Array UInt64) (value : UInt64) : Nat :=
  boundary sorted (· ≤ value) 0 sorted.size

theorem lastAtMost_eq (sorted : Array UInt64) (value : UInt64) :
    lastAtMost sorted value = match fitting sorted value with
      | 0 => none
      | n + 1 => some n := rfl

theorem lt_fitting_iff (h : sorted.toList.Pairwise (· ≤ ·)) (value : UInt64) (i : Nat) :
    i < fitting sorted value ↔ ∃ x, sorted[i]? = some x ∧ x ≤ value := by
  have hp : Initial sorted (fun x => decide (x ≤ value)) :=
    initial_of_ascending h fun x y hxy hy =>
      decide_eq_true (UInt64.le_trans hxy (of_decide_eq_true hy))
  simp only [fitting, lt_boundary_size_iff hp, decide_eq_true_eq]

/-- The elements at most `value` are those up to the last one that is. -/
theorem lastAtMost_iff (h : sorted.toList.Pairwise (· ≤ ·)) (value : UInt64) (i : Nat) :
    (∃ last, lastAtMost sorted value = some last ∧ i ≤ last) ↔
      ∃ x, sorted[i]? = some x ∧ x ≤ value := by
  rw [← lt_fitting_iff h, lastAtMost_eq]
  split
  · next h0 => simp [h0]
  · next n hn =>
    rw [hn]
    simp only [Option.some.injEq, exists_eq_left', Nat.lt_succ_iff]

end EdgePlacement.Size

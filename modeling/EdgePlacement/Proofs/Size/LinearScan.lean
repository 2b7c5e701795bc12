import EdgePlacement.Proofs.Size.Search
import Mathlib.Order.Bounds.Basic

/-!
The searches as scans.

A scan from the front of an array stops at the least index with a property, and a scan from the
back at the greatest. On an ascending array the two searches stop at the same indices, since what
they bracket is least and greatest as well. Equal elements stand together there, from the index
of one search to the index of the other (`searches_eq_scans`). -/
namespace EdgePlacement.Size

/-- The indices of the elements with a property. -/
def places (xs : Array UInt64) (p : UInt64 → Bool) : Set Nat := {i | ∃ x, xs[i]? = some x ∧ p x}

/-! ### Scans -/

section Scan
variable {xs : Array UInt64} {p : UInt64 → Bool}

theorem mem_places_iff {i : Nat} : i ∈ places xs p ↔ ∃ h : i < xs.size, p xs[i] = true := by
  constructor
  · rintro ⟨x, hx, hp⟩
    obtain ⟨hi, rfl⟩ := Array.getElem?_eq_some_iff.1 hx
    exact ⟨hi, hp⟩
  · rintro ⟨hi, hp⟩
    exact ⟨_, Array.getElem?_eq_getElem hi, hp⟩

/-- A scan from the front stops at the first of the places, or past the end. -/
theorem isLeast_findIdx (xs : Array UInt64) (p : UInt64 → Bool) :
    IsLeast (insert xs.size (places xs p)) (xs.toList.findIdx p) := by
  constructor
  · rcases Nat.lt_or_eq_of_le (List.findIdx_le_length : xs.toList.findIdx p ≤ _) with hlt | heq
    · exact .inr (mem_places_iff.2 ⟨hlt, List.findIdx_getElem⟩)
    · exact .inl heq
  · rintro i (rfl | hi)
    · exact List.findIdx_le_length
    · obtain ⟨hlt, hp⟩ := mem_places_iff.1 hi
      refine Nat.le_of_not_lt fun hbefore => ?_
      cases (List.not_of_lt_findIdx hbefore).symm.trans hp

/-- A scan from the back stops at the last of the places, if there is one. -/
theorem scan_from_back_iff {last : Nat} :
    (xs.toList.reverse.findIdx? p).map (xs.size - 1 - ·) = some last ↔
      IsGreatest (places xs p) last := by
  have hmirror : ∀ {k : Nat} (hk : k < xs.size) (hk' : k < xs.toList.reverse.length),
      xs.toList.reverse[k] = xs[xs.size - 1 - k] := fun hk hk' => List.getElem_reverse hk'
  simp only [Option.map_eq_some_iff, List.findIdx?_eq_some_iff_getElem, List.length_reverse,
    Array.length_toList]
  constructor
  · rintro ⟨k, ⟨hk, hp, hbehind⟩, rfl⟩
    refine ⟨mem_places_iff.2 ⟨by omega, by rwa [hmirror hk] at hp⟩, fun i hi => ?_⟩
    obtain ⟨hlt, hpi⟩ := mem_places_iff.1 hi
    refine Nat.le_of_not_lt fun hlater => hbehind (xs.size - 1 - i) (by omega) ?_
    rw [hmirror (by omega)]
    simpa only [show xs.size - 1 - (xs.size - 1 - i) = i by omega] using hpi
  · rintro ⟨hlast, hgreatest⟩
    obtain ⟨hlt, hp⟩ := mem_places_iff.1 hlast
    refine ⟨xs.size - 1 - last, ⟨by omega, ?_, fun j hj hpj => ?_⟩, by omega⟩
    · rw [hmirror (by omega)]
      simpa only [show xs.size - 1 - (xs.size - 1 - last) = last by omega] using hp
    · rw [hmirror (by omega)] at hpj
      have := hgreatest (mem_places_iff.2 ⟨by omega, hpj⟩)
      omega

end Scan

/-! ### Searches -/

section Search
variable {sorted : Array UInt64} (h : sorted.toList.Pairwise (· ≤ ·)) (value : UInt64)
include h

theorem isLeast_firstAtLeast :
    IsLeast (insert sorted.size (places sorted (value ≤ ·))) (firstAtLeast sorted value) := by
  have hbefore := lt_firstAtLeast_iff h value
  have hsize : firstAtLeast sorted value ≤ sorted.size := by
    refine Nat.le_of_not_lt fun hlt => ?_
    obtain ⟨x, hx, -⟩ := (hbefore _).1 hlt
    exact Nat.lt_irrefl _ (Array.getElem?_eq_some_iff.1 hx).1
  constructor
  · rcases Nat.lt_or_eq_of_le hsize with hlt | heq
    · refine .inr (mem_places_iff.2 ⟨hlt, decide_eq_true (UInt64.not_lt.1 fun hbelow => ?_)⟩)
      exact Nat.lt_irrefl _ ((hbefore _).2 ⟨_, Array.getElem?_eq_getElem hlt, hbelow⟩)
    · exact .inl heq
  · rintro i (rfl | ⟨x, hx, hle⟩)
    · exact hsize
    · refine Nat.le_of_not_lt fun hlt => ?_
      obtain ⟨y, hy, hbelow⟩ := (hbefore i).1 hlt
      cases hx.symm.trans hy
      exact UInt64.not_lt.2 (of_decide_eq_true hle) hbelow

/-- The places of the elements at most `value` are those up to the last one. -/
theorem mem_places_le_iff (i : Nat) : i ∈ places sorted (· ≤ value) ↔
    ∃ last, lastAtMost sorted value = some last ∧ i ≤ last := by
  rw [lastAtMost_iff h]
  simp only [places, Set.mem_ofPred_eq, decide_eq_true_eq]

theorem lastAtMost_eq_some_iff {last : Nat} : lastAtMost sorted value = some last ↔
    IsGreatest (places sorted (· ≤ value)) last := by
  have hup := mem_places_le_iff h value
  constructor
  · intro hlast
    refine ⟨(hup last).2 ⟨last, hlast, Nat.le_refl last⟩, fun i hi => ?_⟩
    obtain ⟨other, hother, hle⟩ := (hup i).1 hi
    cases hlast.symm.trans hother
    exact hle
  · rintro ⟨hmem, hgreatest⟩
    obtain ⟨other, hother, hle⟩ := (hup last).1 hmem
    have hge := hgreatest ((hup other).2 ⟨other, hother, Nat.le_refl other⟩)
    rwa [Nat.le_antisymm hle hge]

theorem lastAtMost_eq_none_iff : lastAtMost sorted value = none ↔
    places sorted (· ≤ value) = ∅ := by
  rw [Set.eq_empty_iff_forall_notMem]
  constructor
  · intro hnone i hi
    obtain ⟨last, hlast, -⟩ := (mem_places_le_iff h value i).1 hi
    cases hnone.symm.trans hlast
  · intro hempty
    cases hlast : lastAtMost sorted value with
    | none => rfl
    | some last => exact absurd ((lastAtMost_eq_some_iff h value).1 hlast).1 (hempty last)

/-- The elements equal to `value` stand between the two indices. -/
theorem getElem?_eq_value_iff (i : Nat) : sorted[i]? = some value ↔
    firstAtLeast sorted value ≤ i ∧ ∃ last, lastAtMost sorted value = some last ∧ i ≤ last := by
  rw [lastAtMost_iff h, ← Nat.not_lt, lt_firstAtLeast_iff h]
  constructor
  · intro hi
    refine ⟨fun ⟨x, hx, hlt⟩ => ?_, value, hi, UInt64.le_refl value⟩
    cases hi.symm.trans hx
    exact UInt64.lt_irrefl value hlt
  · rintro ⟨hnot, x, hx, hle⟩
    have hge : value ≤ x := UInt64.not_lt.1 fun hlt => hnot ⟨x, hx, hlt⟩
    rwa [UInt64.le_antisymm hle hge] at hx

end Search

/-- **The searches are scans.** On every ascending array, an empty one and one with repeats among
them, `firstAtLeast` ends where a scan from the front first meets an element that is at least the
value, or past the end, and `lastAtMost` where a scan from the back first meets one that is at
most the value, if it meets any. The value is in the array exactly if the first index is inside
the array and not behind the second, and then it is at the indices from the one to the other. -/
theorem searches_eq_scans {sorted : Array UInt64} (ascending : sorted.toList.Pairwise (· ≤ ·))
    (value : UInt64) :
    let first := firstAtLeast sorted value
    let last? := lastAtMost sorted value
    let large := places sorted (value ≤ ·)
    let small := places sorted (· ≤ value)
    (first = sorted.toList.findIdx (value ≤ ·) ∧ IsLeast (insert sorted.size large) first) ∧
    (last? = (sorted.toList.reverse.findIdx? (· ≤ value)).map (sorted.size - 1 - ·) ∧
      (∀ last, last? = some last ↔ IsGreatest small last) ∧ (last? = none ↔ small = ∅)) ∧
    (value ∈ sorted ↔ first < sorted.size ∧ ∃ last, last? = some last ∧ first ≤ last) ∧
    ∀ i, sorted[i]? = some value ↔ first ≤ i ∧ ∃ last, last? = some last ∧ i ≤ last := by
  intro first last? large small
  have hfirst := isLeast_firstAtLeast ascending value
  have hequal := getElem?_eq_value_iff ascending value
  refine ⟨⟨hfirst.unique (isLeast_findIdx ..), hfirst⟩, ⟨Option.ext fun last => ?_, fun last =>
    lastAtMost_eq_some_iff ascending value, lastAtMost_eq_none_iff ascending value⟩, ?_, hequal⟩
  · rw [lastAtMost_eq_some_iff ascending, ← scan_from_back_iff]
  · constructor
    · intro hmem
      obtain ⟨i, hi⟩ := Array.mem_iff_getElem?.1 hmem
      obtain ⟨hle, last, hlast, hle'⟩ := (hequal i).1 hi
      exact ⟨Nat.lt_of_le_of_lt hle (Array.getElem?_eq_some_iff.1 hi).1, last, hlast,
        Nat.le_trans hle hle'⟩
    · rintro ⟨-, last, hlast, hle⟩
      exact Array.mem_of_getElem? ((hequal first).2 ⟨Nat.le_refl first, last, hlast, hle⟩)

/-- A value that stands three times, one below all and one above all. -/
theorem searches_eq_scans_repeats :
    let sorted : Array UInt64 := #[1, 5, 5, 5, 9]
    sorted.toList.Pairwise (· ≤ ·) ∧
      firstAtLeast sorted 5 = 1 ∧ lastAtMost sorted 5 = some 3 ∧
      firstAtLeast sorted 0 = 0 ∧ lastAtMost sorted 0 = none ∧
      firstAtLeast sorted 10 = 5 ∧ lastAtMost sorted 10 = some 4 := by
  intro sorted
  have ascending : sorted.toList.Pairwise (· ≤ ·) := by decide
  have hscans := searches_eq_scans ascending
  exact ⟨ascending, (hscans 5).1.1.trans (by decide), (hscans 5).2.1.1.trans (by decide),
    (hscans 0).1.1.trans (by decide), (hscans 0).2.1.1.trans (by decide),
    (hscans 10).1.1.trans (by decide), (hscans 10).2.1.1.trans (by decide)⟩

end EdgePlacement.Size

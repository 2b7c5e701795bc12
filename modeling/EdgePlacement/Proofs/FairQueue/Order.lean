import EdgePlacement.FairQueue

/-!
The heap order and the loops that restore it.

The order is stated on ranks: the rank of a position is the count of its entry, and a
position outside the heap outranks every entry, so that no pair of parent and child needs
a bound. While a loop runs there is a hole, the position of the entry on the move. Away
from the hole all pairs are in order, and the hole's children are in order with the hole's
parent (`OrderedOff`). What is open is the hole's own place: sifting up needs it before
its children, sifting down needs it after its parent, and raising to the root needs
neither. -/
namespace EdgePlacement.FairQueue

/-! ### Positions -/

theorem parent_lt {i : Nat} (h : 0 < i) : parent i < i := by
  unfold parent
  omega

theorem parent_le (i : Nat) : parent i ≤ i := by
  unfold parent
  omega

theorem parent_left (i : Nat) : parent (2 * i + 1) = i := by
  unfold parent
  omega

theorem parent_right (i : Nat) : parent (2 * i + 2) = i := by
  unfold parent
  omega

/-- A position other than the root is the left or the right child of its parent. -/
theorem parent_cases {i : Nat} (h : 0 < i) :
    i = 2 * parent i + 1 ∨ i = 2 * parent i + 2 := by
  unfold parent
  omega

/-- What holds of the left and of the right child holds of every child. -/
theorem forall_child_iff {i : Nat} {P : Nat → Prop} :
    (∀ k, 0 < k → parent k = i → P k) ↔ P (2 * i + 1) ∧ P (2 * i + 2) := by
  constructor
  · intro h
    exact ⟨h _ (by omega) (parent_left i), h _ (by omega) (parent_right i)⟩
  · intro ⟨hleft, hright⟩ k hk hp
    rcases parent_cases hk with heq | heq
    · rw [heq, hp]
      exact hleft
    · rw [heq, hp]
      exact hright

/-! ### Ranks -/

/-- The count of the entry at a position; more than any count outside the heap. -/
def rank (q : FairQueue) (i : Nat) : Nat := (q.heap[i]?.map (·.count.toNat)).getD UInt64.size

theorem rank_of_getElem? {q : FairQueue} {i : Nat} {e : Entry} (h : q.heap[i]? = some e) :
    q.rank i = e.count.toNat := by
  simp [rank, h]

theorem rank_of_size_le {q : FairQueue} {i : Nat} (h : q.size ≤ i) : q.rank i = UInt64.size := by
  simp [rank, Array.getElem?_eq_none h]

theorem rank_le (q : FairQueue) (i : Nat) : q.rank i ≤ UInt64.size := by
  by_cases h : i < q.size
  · rw [rank_of_getElem? (Array.getElem?_eq_getElem h)]
    exact Nat.le_of_lt (UInt64.toNat_lt_size _)
  · exact Nat.le_of_eq (rank_of_size_le (Nat.le_of_not_lt h))

/-- Comparing entries is comparing ranks, towards a position no later. -/
theorem before_iff {q : FairQueue} {i j : Nat} (h : j ≤ i) :
    q.before i j = true ↔ q.rank i < q.rank j := by
  by_cases hi : i < q.size
  · have hj : j < q.size := Nat.lt_of_le_of_lt h hi
    have hei := Array.getElem?_eq_getElem hi
    have hej := Array.getElem?_eq_getElem hj
    rw [rank_of_getElem? hei, rank_of_getElem? hej]
    simp [before, hei, hej, UInt64.lt_iff_toNat_lt]
  · have hb : q.before i j = false := by
      cases hb : q.before i j
      · rfl
      · exact absurd (lt_size_of_before hb) hi
    have := q.rank_le j
    rw [hb, rank_of_size_le (Nat.le_of_not_lt hi)]
    simp only [Bool.false_eq_true, false_iff]
    omega

theorem getElem?_swap {q : FairQueue} {i j : Nat} (hi : i < q.size) (hj : j < q.size) (k : Nat) :
    (q.swap i j).heap[k]? =
      if k = i then q.heap[j]? else if k = j then q.heap[i]? else q.heap[k]? := by
  have hei := Array.getElem?_eq_getElem hi
  have hej := Array.getElem?_eq_getElem hj
  unfold size at hi hj
  unfold swap
  by_cases hij : i = j
  · subst hij
    by_cases hk : k = i
    · rw [if_pos rfl, if_pos hk, hk]
    · rw [if_pos rfl, if_neg hk, if_neg hk]
  · simp only [if_neg hij, Array.swapIfInBounds_def, hi, hj, dite_true, Array.getElem?_swap]
    by_cases hki : k = i
    · rw [if_neg (fun h => hij (hki.symm.trans h.symm)), if_pos hki.symm, if_pos hki, hej]
    · by_cases hkj : k = j
      · rw [if_pos hkj.symm, if_neg hki, if_pos hkj, hei]
      · rw [if_neg (Ne.symm hkj), if_neg (Ne.symm hki), if_neg hki, if_neg hkj]

theorem rank_swap {q : FairQueue} {i j : Nat} (hi : i < q.size) (hj : j < q.size) (k : Nat) :
    (q.swap i j).rank k = if k = i then q.rank j else if k = j then q.rank i else q.rank k := by
  unfold rank
  rw [getElem?_swap hi hj]
  split
  · rfl
  · split <;> rfl

/-! ### Order with a hole -/

/-- No child comes before its parent. -/
def Ordered (q : FairQueue) : Prop := ∀ k, 0 < k → q.rank (parent k) ≤ q.rank k

/-- Whatever is at the hole, the rest is in order. -/
structure OrderedOff (q : FairQueue) (hole : Nat) : Prop where
  /-- The pairs that do not touch the hole. -/
  apart : ∀ k, 0 < k → k ≠ hole → parent k ≠ hole → q.rank (parent k) ≤ q.rank k
  /-- The hole's children with the hole's parent. -/
  across : 0 < hole → ∀ k, 0 < k → parent k = hole → q.rank (parent hole) ≤ q.rank k

/-- The entry at the hole comes no later than its children. -/
def LeadsChildren (q : FairQueue) (hole : Nat) : Prop :=
  ∀ k, 0 < k → parent k = hole → q.rank hole ≤ q.rank k

theorem leadsChildren_iff {q : FairQueue} {i : Nat} :
    q.LeadsChildren i ↔ q.rank i ≤ q.rank (2 * i + 1) ∧ q.rank i ≤ q.rank (2 * i + 2) :=
  forall_child_iff

/-- The entry at the hole comes no earlier than its parent. -/
def FollowsParent (q : FairQueue) (hole : Nat) : Prop :=
  0 < hole → q.rank (parent hole) ≤ q.rank hole

theorem OrderedOff.ordered {q : FairQueue} {hole : Nat} (h : q.OrderedOff hole)
    (hc : q.LeadsChildren hole) (hp : q.FollowsParent hole) : q.Ordered := by
  intro k hk
  by_cases hh : k = hole
  · subst hh
    exact hp hk
  · by_cases hph : parent k = hole
    · rw [hph]
      exact hc k hk hph
    · exact h.apart k hk hh hph

/-- In an ordered heap every position can be the hole. -/
theorem Ordered.off {q : FairQueue} (h : q.Ordered) (hole : Nat) : q.OrderedOff hole := by
  refine ⟨fun k hk _ _ => h k hk, fun hh k hk hph => ?_⟩
  have := h hole hh
  have := h k hk
  rw [hph] at this
  omega

theorem Ordered.leadsChildren {q : FairQueue} (h : q.Ordered) (i : Nat) : q.LeadsChildren i := by
  intro k hk hp
  rw [← hp]
  exact h k hk

/-- Only the hole itself differs between two heaps: order around it carries over. -/
theorem OrderedOff.of_rank_eq {q q' : FairQueue} {hole : Nat} (h : q.OrderedOff hole)
    (heq : ∀ k, k ≠ hole → q'.rank k = q.rank k) : q'.OrderedOff hole := by
  refine ⟨fun k hk hh hph => ?_, fun hh k hk hph => ?_⟩
  · rw [heq k hh, heq _ hph]
    exact h.apart k hk hh hph
  · have hne : k ≠ hole := by
      have := parent_lt hk
      omega
    rw [heq k hne, heq _ (Nat.ne_of_lt (parent_lt hh))]
    exact h.across hh k hk hph

/-- The root of an ordered heap comes before everything. -/
theorem Ordered.root_le {q : FairQueue} (h : q.Ordered) (i : Nat) : q.rank 0 ≤ q.rank i := by
  induction i using Nat.strongRecOn with
  | ind i ih =>
    rcases Nat.eq_zero_or_pos i with rfl | hi
    · exact Nat.le_refl _
    · exact Nat.le_trans (ih (parent i) (parent_lt hi)) (h i hi)

/-! ### Moving up -/

/-- Exchanging the hole's entry with its parent's moves the hole up, whatever the entry. -/
theorem OrderedOff.swap_parent {q : FairQueue} {i : Nat} (h : q.OrderedOff i) (hi : 0 < i)
    (his : i < q.size) : (q.swap i (parent i)).OrderedOff (parent i) := by
  have hp : parent i < i := parent_lt hi
  have hr := rank_swap his (Nat.lt_trans hp his)
  refine ⟨fun k hk hkp hpkp => ?_, fun hpp k hk hkp => ?_⟩
  · have hki : k ≠ i := by
      rintro rfl
      exact hpkp rfl
    rw [hr k, if_neg hki, if_neg hkp, hr (parent k)]
    by_cases hpk : parent k = i
    · rw [if_pos hpk]
      exact h.across hi k hk hpk
    · rw [if_neg hpk, if_neg hpkp]
      exact h.apart k hk hki hpk
  · have hpplt := parent_lt hpp
    have habove : q.rank (parent (parent i)) ≤ q.rank (parent i) :=
      h.apart (parent i) hpp (Nat.ne_of_lt hp) (by omega)
    rw [hr (parent (parent i)), if_neg (by omega), if_neg (by omega), hr k]
    by_cases hki : k = i
    · rw [if_pos hki]
      exact habove
    · have hkp' : k ≠ parent i := by
        have := parent_lt hk
        omega
      have hbeside := h.apart k hk hki (by omega)
      rw [if_neg hki, if_neg hkp']
      rw [hkp] at hbeside
      exact Nat.le_trans habove hbeside

/-- The entry moved up leads its new children, among them its former parent. -/
theorem OrderedOff.leadsChildren_swap {q : FairQueue} {i : Nat} (h : q.OrderedOff i)
    (hi : 0 < i) (his : i < q.size) (hlt : q.rank i < q.rank (parent i)) :
    (q.swap i (parent i)).LeadsChildren (parent i) := by
  intro k hk hkp
  have hp : parent i < i := parent_lt hi
  have hr := rank_swap his (Nat.lt_trans hp his)
  rw [hr (parent i), if_neg (Nat.ne_of_lt hp), if_pos rfl, hr k]
  by_cases hki : k = i
  · rw [if_pos hki]
    exact Nat.le_of_lt hlt
  · have hkp' : k ≠ parent i := by
      have := parent_lt hk
      omega
    have hbeside := h.apart k hk hki (by omega)
    rw [if_neg hki, if_neg hkp']
    rw [hkp] at hbeside
    omega

theorem ordered_siftUp {q : FairQueue} {i : Nat} (h : q.OrderedOff i)
    (hc : q.LeadsChildren i) : (q.siftUp i).2.Ordered := by
  fun_induction siftUp q i with
  | case1 q => exact h.ordered hc (fun h0 => absurd h0 (Nat.lt_irrefl 0))
  | case2 q i hi hb ih =>
    have his := lt_size_of_before hb
    have hpos := Nat.pos_of_ne_zero hi
    have hlt := (before_iff (parent_le i)).1 hb
    exact ih (h.swap_parent hpos his) (h.leadsChildren_swap hpos his hlt)
  | case3 q i hi hb =>
    refine h.ordered hc (fun _ => ?_)
    rw [before_iff (parent_le i)] at hb
    exact Nat.le_of_not_lt hb

/-- An entry that follows its parent stays where it is. -/
theorem siftUp_eq_self {q : FairQueue} {i : Nat} (h : q.FollowsParent i) : q.siftUp i = (i, q) := by
  unfold siftUp
  split
  · rfl
  · next hi =>
    rw [if_neg]
    rw [before_iff (parent_le i)]
    exact Nat.not_lt.2 (h (Nat.pos_of_ne_zero hi))

/-- Raising leaves order everywhere below the root's own pairs. -/
theorem orderedOff_raiseToRoot {q : FairQueue} {i : Nat} (h : q.OrderedOff i) (hi : i < q.size) :
    (q.raiseToRoot i).OrderedOff 0 := by
  fun_induction raiseToRoot q i with
  | case1 q => exact h
  | case2 q i hne ih =>
    have hpos := Nat.pos_of_ne_zero hne
    have hp := parent_lt hpos
    exact ih (h.swap_parent hpos hi) (by rw [size_swap]; omega)

/-! ### Moving down -/

theorem leastOfFamily_cases (q : FairQueue) (i : Nat) :
    q.leastOfFamily i = i ∨ q.leastOfFamily i = 2 * i + 1 ∨ q.leastOfFamily i = 2 * i + 2 := by
  unfold leastOfFamily
  simp only
  split <;> split <;> simp

/-- The choice within a family, told by ranks. -/
theorem leastOfFamily_eq_ite (q : FairQueue) (i : Nat) :
    q.leastOfFamily i =
      if q.rank (2 * i + 1) < q.rank i then
        if q.rank (2 * i + 2) < q.rank (2 * i + 1) then 2 * i + 2 else 2 * i + 1
      else
        if q.rank (2 * i + 2) < q.rank i then 2 * i + 2 else i := by
  have hli := before_iff (q := q) (i := 2 * i + 1) (j := i) (by omega)
  have hrl := before_iff (q := q) (i := 2 * i + 2) (j := 2 * i + 1) (by omega)
  have hri := before_iff (q := q) (i := 2 * i + 2) (j := i) (by omega)
  unfold leastOfFamily
  simp only [hli, hrl, hri]

/-- No member of the family comes before the chosen one, and the position itself is only
left for a child strictly before it. -/
theorem rank_leastOfFamily (q : FairQueue) (i : Nat) :
    q.rank (q.leastOfFamily i) ≤ q.rank (2 * i + 1) ∧
      q.rank (q.leastOfFamily i) ≤ q.rank (2 * i + 2) ∧
      (q.leastOfFamily i = i ∨ q.rank (q.leastOfFamily i) < q.rank i) := by
  rw [leastOfFamily_eq_ite]
  split <;> split <;> omega

/-- A child is chosen where it comes strictly before the position and no later than the other
child, and strictly before that if it is the right one. -/
theorem leastOfFamily_eq_iff {q : FairQueue} {i k : Nat} (below : k = 2 * i + 1 ∨ k = 2 * i + 2) :
    q.leastOfFamily i = k ↔ q.rank k < q.rank i ∧
      (q.rank k ≤ q.rank (2 * i + 1) ∧ q.rank k ≤ q.rank (2 * i + 2)) ∧
      (k = 2 * i + 2 → q.rank k < q.rank (2 * i + 1)) := by
  rw [leastOfFamily_eq_ite]
  rcases below with rfl | rfl
  · split <;> split <;> omega
  · split <;> split <;> omega

theorem parent_leastOfFamily {q : FairQueue} {i : Nat} (h : q.leastOfFamily i ≠ i) :
    parent (q.leastOfFamily i) = i := by
  rcases q.leastOfFamily_cases i with heq | heq | heq
  · exact absurd heq h
  · rw [heq, parent_left]
  · rw [heq, parent_right]

theorem rank_leastOfFamily_le_child (q : FairQueue) {i k : Nat} (hk : 0 < k)
    (hp : parent k = i) : q.rank (q.leastOfFamily i) ≤ q.rank k := by
  obtain ⟨hl, hr, _⟩ := q.rank_leastOfFamily i
  exact (forall_child_iff (P := fun k => q.rank (q.leastOfFamily i) ≤ q.rank k)).2 ⟨hl, hr⟩ k hk hp

/-- Where the position itself comes first, it leads its children. -/
theorem leadsChildren_of_leastOfFamily {q : FairQueue} {i : Nat} (h : q.leastOfFamily i = i) :
    q.LeadsChildren i := by
  intro k hk hp
  have := q.rank_leastOfFamily_le_child hk hp
  rwa [h] at this

/-- Exchanging the hole's entry with the first of its children moves the hole down. -/
theorem OrderedOff.swap_least {q : FairQueue} {i : Nat} (h : q.OrderedOff i)
    (hne : q.leastOfFamily i ≠ i) :
    (q.swap i (q.leastOfFamily i)).OrderedOff (q.leastOfFamily i) ∧
      (q.swap i (q.leastOfFamily i)).FollowsParent (q.leastOfFamily i) := by
  obtain ⟨hil, hls⟩ := lt_leastOfFamily hne
  have hpl := parent_leastOfFamily hne
  have hlt : q.rank (q.leastOfFamily i) < q.rank i := (q.rank_leastOfFamily i).2.2.resolve_left hne
  have hleast := fun k hk hp => q.rank_leastOfFamily_le_child (i := i) (k := k) hk hp
  generalize q.leastOfFamily i = l at *
  have hr := rank_swap (Nat.lt_trans hil hls) hls
  refine ⟨⟨fun k hk hkl hpkl => ?_, fun hl k hk hkp => ?_⟩, fun _ => ?_⟩
  · have hpk := parent_lt hk
    rw [hr k, hr (parent k), if_neg hkl, if_neg hpkl]
    by_cases hki : k = i
    · subst hki
      rw [if_pos rfl, if_neg (Nat.ne_of_lt hpk)]
      exact h.across hk l (by omega) hpl
    · rw [if_neg hki]
      by_cases hpki : parent k = i
      · rw [if_pos hpki]
        exact hleast k hk hpki
      · rw [if_neg hpki]
        exact h.apart k hk hki hpki
  · have hlk := parent_lt hk
    have hbelow := h.apart k hk (by omega) (by omega)
    rw [hkp] at hbelow
    rw [hpl, hr i, if_pos rfl, hr k, if_neg (by omega), if_neg (by omega)]
    exact hbelow
  · rw [hpl, hr i, if_pos rfl, hr l, if_neg (Nat.ne_of_gt hil), if_pos rfl]
    exact Nat.le_of_lt hlt

theorem ordered_siftDown {q : FairQueue} {i : Nat} (h : q.OrderedOff i)
    (hp : q.FollowsParent i) : (q.siftDown i).Ordered := by
  fun_induction siftDown q i with
  | case1 q i least heq => exact h.ordered (leadsChildren_of_leastOfFamily heq) hp
  | case2 q i least hne ih => exact ih (h.swap_least hne).1 (h.swap_least hne).2

/-- An entry that leads its children stays where it is. -/
theorem siftDown_eq_self {q : FairQueue} {i : Nat} (h : q.LeadsChildren i) :
    q.siftDown i = q := by
  by_cases heq : q.leastOfFamily i = i
  · unfold siftDown
    simp only [heq, if_true]
  · exfalso
    have hlt := (q.rank_leastOfFamily i).2.2.resolve_left heq
    have hil := (lt_leastOfFamily heq).1
    have := h (q.leastOfFamily i) (by omega) (parent_leastOfFamily heq)
    omega

/-- Whatever entry is written at a position of an ordered heap, one of the two loops
restores the order and the other has nothing to do. -/
theorem ordered_siftUp_siftDown {q : FairQueue} {i : Nat} (h : q.OrderedOff i) :
    ((q.siftUp i).2.siftDown (q.siftUp i).1).Ordered := by
  by_cases hp : q.FollowsParent i
  · rw [siftUp_eq_self hp]
    exact ordered_siftDown h hp
  · have hi : 0 < i ∧ q.rank i < q.rank (parent i) := by
      simpa only [FollowsParent, Classical.not_imp, Nat.not_le] using hp
    have hc : q.LeadsChildren i := fun k hk hpk =>
      Nat.le_trans (Nat.le_of_lt hi.2) (h.across hi.1 k hk hpk)
    have hup := ordered_siftUp h hc
    rw [siftDown_eq_self (hup.leadsChildren _)]
    exact hup

end EdgePlacement.FairQueue

import EdgePlacement.Proofs.FairQueue.Representation

/-!
Writing a new count over an entry of the heap.

The entry may then come before the one above it, or after one below it. It never does both, since
what is below it was in order with what is above it. So sifting up and then down from there
repairs the order, and one of the two loops finds nothing to do (`written_then_repaired`).

A loop that looked outside the heap would find no entry there and stop. That neither ever looks
there is said by the moves they make: `Rises` and `Sinks` tell these with every entry they read
within the heap, and sifting ends where they end (`exists_rises_iff`, `exists_sinks_iff`). A move
up halves the position and a move down doubles it, so that the moves are no more than the heap has
levels. -/
namespace EdgePlacement.FairQueue

/-! ### Moves up -/

/-- How an entry moves up from a position: it changes places with the one above while its count is
strictly smaller. Tells the positions it moves to, and the last of them with the queue left. -/
inductive Rises : FairQueue → Nat → List Nat → Nat × FairQueue → Prop where
  | root {q : FairQueue} (nonempty : 0 < q.heap.size) : Rises q 0 [] (0, q)
  | stays {q : FairQueue} {i : Nat} (pos : 0 < i) (hi : i < q.heap.size)
    (hp : parent i < q.heap.size) (inOrder : q.heap[parent i].count ≤ q.heap[i].count) :
    Rises q i [] (i, q)
  | moves {q : FairQueue} {i : Nat} {path : List Nat} {reached : Nat × FairQueue} (pos : 0 < i)
    (hi : i < q.heap.size) (hp : parent i < q.heap.size)
    (smaller : q.heap[i].count < q.heap[parent i].count)
    (next : Rises (q.swap i (parent i)) (parent i) path reached) :
    Rises q i (parent i :: path) reached

section Rises
variable {q : FairQueue} {i : Nat} {path : List Nat} {reached : Nat × FairQueue}

theorem before_parent_iff (hi : i < q.heap.size) (hp : parent i < q.heap.size) :
    q.before i (parent i) = true ↔ q.heap[i].count < q.heap[parent i].count :=
  (before_iff (parent_le i)).trans (rank_lt_iff hi hp)

theorem rises_siftUp (hi : i < q.size) : ∃ path, Rises q i path (q.siftUp i) := by
  fun_induction siftUp q i with
  | case1 q => exact ⟨[], .root hi⟩
  | case2 q i hne hb ih =>
    have hp : parent i < q.size := Nat.lt_of_le_of_lt (parent_le i) hi
    obtain ⟨path, hpath⟩ := ih (by rwa [size_swap])
    have hsmaller := (before_parent_iff hi hp).1 hb
    exact ⟨parent i :: path, .moves (Nat.pos_of_ne_zero hne) hi hp hsmaller hpath⟩
  | case3 q i hne hb =>
    have hp : parent i < q.size := Nat.lt_of_le_of_lt (parent_le i) hi
    rw [before_parent_iff hi hp, UInt64.not_lt] at hb
    exact ⟨[], .stays (Nat.pos_of_ne_zero hne) hi hp hb⟩

theorem Rises.reached_eq (h : Rises q i path reached) : reached = q.siftUp i := by
  induction h with
  | root => rw [siftUp, if_pos rfl]
  | stays pos hi hp inOrder => exact (siftUp_eq_self fun _ => (rank_le_iff hp hi).2 inOrder).symm
  | moves pos hi hp smaller next ih =>
    rw [siftUp, if_neg (Nat.ne_of_gt pos), if_pos ((before_parent_iff hi hp).2 smaller)]
    exact ih

/-- Sifting up from a position of the heap comes to where these moves end, and nowhere else. -/
theorem exists_rises_iff (hi : i < q.size) :
    (∃ path, Rises q i path reached) ↔ reached = q.siftUp i := by
  constructor
  · intro ⟨path, h⟩
    exact h.reached_eq
  · intro h
    rw [h]
    exact rises_siftUp hi

theorem Rises.eq_nil (h : Rises q i path reached) (hp : q.FollowsParent i) : path = [] := by
  cases h with
  | root => rfl
  | stays => rfl
  | moves pos hi hparent smaller next =>
    exact absurd ((rank_le_iff hparent hi).1 (hp pos)) (UInt64.not_le.2 smaller)

theorem Rises.lt_size (h : Rises q i path reached) : i < q.size := by
  cases h with
  | root nonempty => exact nonempty
  | stays pos hi => exact hi
  | moves pos hi => exact hi

theorem Rises.size_eq (h : Rises q i path reached) : reached.2.size = q.size := by
  rw [h.reached_eq]
  exact (rearranged_siftUp q i).size_eq

/-- Each move up halves the position. -/
theorem Rises.two_pow_length_le (h : Rises q i path reached) :
    2 ^ path.length * (reached.1 + 1) ≤ i + 1 := by
  induction h with
  | root => simp
  | stays => simp
  | @moves q i path reached pos hi hp smaller next ih =>
    calc 2 ^ (parent i :: path).length * (reached.1 + 1)
        = 2 * (2 ^ path.length * (reached.1 + 1)) := by
          rw [List.length_cons, Nat.pow_succ', Nat.mul_assoc]
      _ ≤ 2 * (parent i + 1) := Nat.mul_le_mul_left 2 ih
      _ ≤ i + 1 := by
        unfold parent
        omega

theorem Rises.reached_lt (h : Rises q i path reached) : reached.1 < reached.2.size := by
  have hpow := Nat.le_mul_of_pos_left (reached.1 + 1) (Nat.two_pow_pos path.length)
  have hle := h.two_pow_length_le
  have hlt := h.lt_size
  have hsize := h.size_eq
  omega

end Rises

/-! ### Moves down -/

/-- No entry right below `i` has a smaller count than the one at `k`. -/
def LeastBelow (q : FairQueue) (i k : Nat) (hk : k < q.heap.size) : Prop :=
  ∀ j (_ : j < q.heap.size), j = 2 * i + 1 ∨ j = 2 * i + 2 → q.heap[k].count ≤ q.heap[j].count

/-- How an entry moves down from a position: it changes places with the least of the entries right
below it while that count is strictly smaller, with the left one if they are level. Tells the
positions it moves to, and the queue left. -/
inductive Sinks : FairQueue → Nat → List Nat → FairQueue → Prop where
  | stays {q : FairQueue} {i : Nat} (hi : i < q.heap.size) (inOrder : q.LeastBelow i i hi) :
    Sinks q i [] q
  | moves {q left : FairQueue} {i k : Nat} {path : List Nat} (hk : k < q.heap.size)
    (below : k = 2 * i + 1 ∨ k = 2 * i + 2) (smaller : q.heap[k].count < q.heap[i].count)
    (least : q.LeastBelow i k hk)
    (strict : ∀ _ : k = 2 * i + 2, q.heap[k].count < q.heap[2 * i + 1].count)
    (next : Sinks (q.swap i k) k path left) : Sinks q i (k :: path) left

section Sinks
variable {q left : FairQueue} {i k : Nat} {path : List Nat}

theorem leastBelow_iff (hk : k < q.heap.size) :
    q.LeastBelow i k hk ↔ q.rank k ≤ q.rank (2 * i + 1) ∧ q.rank k ≤ q.rank (2 * i + 2) := by
  constructor
  · intro h
    have hchild : ∀ j, j = 2 * i + 1 ∨ j = 2 * i + 2 → q.rank k ≤ q.rank j := fun j hj => by
      by_cases hjs : j < q.heap.size
      · exact (rank_le_iff hk hjs).2 (h j hjs hj)
      · -- a child that is missing outranks every entry
        rw [rank_of_size_le (Nat.le_of_not_lt hjs)]
        exact rank_le q k
    exact ⟨hchild _ (.inl rfl), hchild _ (.inr rfl)⟩
  · intro ⟨hleft, hright⟩ j hjs hj
    refine (rank_le_iff hk hjs).1 ?_
    rcases hj with rfl | rfl
    · exact hleft
    · exact hright

theorem sinks_siftDown (hi : i < q.size) : ∃ path, Sinks q i path (q.siftDown i) := by
  fun_induction siftDown q i with
  | case1 q i least heq =>
    have hleads := leadsChildren_of_leastOfFamily heq
    exact ⟨[], .stays hi ((leastBelow_iff hi).2 (leadsChildren_iff.1 hleads))⟩
  | case2 q i least hne ih =>
    have hls : q.leastOfFamily i < q.heap.size := (lt_leastOfFamily hne).2
    have below := (q.leastOfFamily_cases i).resolve_left hne
    obtain ⟨hsmaller, hleast, hstrict⟩ := (leastOfFamily_eq_iff below).1 rfl
    obtain ⟨path, hpath⟩ := ih (by rwa [size_swap])
    exact ⟨least :: path, .moves hls below ((rank_lt_iff hls hi).1 hsmaller)
      ((leastBelow_iff hls).2 hleast)
      (fun hright => (rank_lt_iff hls (by omega)).1 (hstrict hright)) hpath⟩

theorem Sinks.left_eq (h : Sinks q i path left) : left = q.siftDown i := by
  induction h with
  | stays hi inOrder =>
    exact (siftDown_eq_self (leadsChildren_iff.2 ((leastBelow_iff hi).1 inOrder))).symm
  | @moves q left i k path hk below smaller least strict next ih =>
    have hi : i < q.heap.size := by omega
    have hfamily : q.leastOfFamily i = k := (leastOfFamily_eq_iff below).2
      ⟨(rank_lt_iff hk hi).2 smaller, (leastBelow_iff hk).1 least,
        fun hright => (rank_lt_iff hk (by omega)).2 (strict hright)⟩
    have hne : k ≠ i := by omega
    rw [siftDown]
    simp only [hfamily, if_neg hne]
    exact ih

/-- Sifting down from a position of the heap leaves what these moves leave, and nothing else. -/
theorem exists_sinks_iff (hi : i < q.size) :
    (∃ path, Sinks q i path left) ↔ left = q.siftDown i := by
  constructor
  · intro ⟨path, h⟩
    exact h.left_eq
  · intro h
    rw [h]
    exact sinks_siftDown hi

theorem Sinks.eq_nil (h : Sinks q i path left) (hc : q.LeadsChildren i) : path = [] := by
  cases h with
  | stays => rfl
  | @moves _ _ _ k path hk below smaller least strict next =>
    have hle := hc k (by omega) (by unfold parent; omega)
    exact absurd ((rank_le_iff _ hk).1 hle) (UInt64.not_le.2 smaller)

/-- Each move down doubles the position. -/
theorem Sinks.two_pow_length_le (h : Sinks q i path left) :
    2 ^ path.length * (i + 1) ≤ q.size := by
  induction h with
  | stays hi =>
    rw [List.length_nil, Nat.pow_zero, Nat.one_mul]
    exact hi
  | @moves q left i k path hk below smaller least strict next ih =>
    rw [size_swap] at ih
    calc 2 ^ (k :: path).length * (i + 1)
        = 2 ^ path.length * (2 * (i + 1)) := by rw [List.length_cons, Nat.pow_succ, Nat.mul_assoc]
      _ ≤ 2 ^ path.length * (k + 1) := Nat.mul_le_mul_left _ (by omega)
      _ ≤ q.size := ih

end Sinks

/-- Where one of the loops moves nothing, the other makes no more moves than there are levels. -/
theorem two_pow_moves_le {q left : FairQueue} {i : Nat} {up down : List Nat}
    {reached : Nat × FairQueue} (hup : Rises q i up reached)
    (hdown : Sinks reached.2 reached.1 down left) (hone : up = [] ∨ down = []) :
    2 ^ (up.length + down.length) ≤ q.size := by
  rcases hone with rfl | rfl
  · calc 2 ^ ([].length + down.length)
        = 2 ^ down.length := by rw [List.length_nil, Nat.zero_add]
      _ ≤ 2 ^ down.length * (reached.1 + 1) := Nat.le_mul_of_pos_right _ (Nat.succ_pos _)
      _ ≤ reached.2.size := hdown.two_pow_length_le
      _ = q.size := hup.size_eq
  · calc 2 ^ (up.length + [].length)
        ≤ 2 ^ up.length * (reached.1 + 1) := Nat.le_mul_of_pos_right _ (Nat.succ_pos _)
      _ ≤ i + 1 := hup.two_pow_length_le
      _ ≤ q.size := hup.lt_size

/-! ### Writing -/

section Set
variable {q : FairQueue} {i : Nat} {e : Entry}

theorem rank_set_self (hi : i < q.heap.size) (index : Std.HashMap String Nat) :
    rank ⟨q.heap.setIfInBounds i e, index⟩ i = e.count.toNat :=
  rank_of_getElem? (Array.getElem?_setIfInBounds_self_of_lt hi)

/-- A count that is no smaller stays behind the one above it. -/
theorem Ordered.followsParent_set (h : q.Ordered) (hi : i < q.heap.size)
    (hle : q.heap[i].count ≤ e.count) (index : Std.HashMap String Nat) :
    FollowsParent ⟨q.heap.setIfInBounds i e, index⟩ i := by
  intro hpos
  have habove := h i hpos
  rw [rank_of_getElem? (Array.getElem?_eq_getElem hi)] at habove
  rw [rank_set_self hi, rank_set_of_ne q e index (Nat.ne_of_lt (parent_lt hpos))]
  exact Nat.le_trans habove (UInt64.le_iff_toNat_le.1 hle)

/-- A count that is no greater stays before the ones below it. -/
theorem Ordered.leadsChildren_set (h : q.Ordered) (hi : i < q.heap.size)
    (hle : e.count ≤ q.heap[i].count) (index : Std.HashMap String Nat) :
    LeadsChildren ⟨q.heap.setIfInBounds i e, index⟩ i := by
  intro k hk hp
  have hik := parent_lt hk
  have hbelow := h k hk
  rw [hp] at hik hbelow
  rw [rank_of_getElem? (Array.getElem?_eq_getElem hi)] at hbelow
  rw [rank_set_self hi, rank_set_of_ne q e index (Nat.ne_of_gt hik)]
  exact Nat.le_trans (UInt64.le_iff_toNat_le.1 hle) hbelow

end Set

/-- **A new count is repaired in place.** Take a heap in order with a consistent index, write any
size and count over the entry at one of its positions, and sift up from there and then down from
where that ends. What comes out is in order, with a consistent index and the entries as written, and
is what inserting the entry makes of the queue. The loops read and move within the heap only. At
most one of them makes a move, sifting up only for a smaller count and sifting down only for a
greater one, and the moves are no more than the heap has levels. -/
theorem written_then_repaired {q : FairQueue} (ordered : q.HeapOrdered)
    (consistent : q.IndexConsistent) {i : Nat} (hi : i < q.heap.size) (size count : UInt64) :
    let e : Entry := ⟨q.heap[i].id, size, count⟩
    let written : FairQueue := ⟨q.heap.set i e, q.index⟩
    let raised := written.siftUp i
    let repaired := raised.2.siftDown raised.1
    (repaired.HeapOrdered ∧ repaired.IndexConsistent ∧ repaired.heap.Perm written.heap ∧
      q.insert e = repaired) ∧
    ∃ up down, Rises written i up raised ∧ Sinks raised.2 raised.1 down repaired ∧
      (up = [] ∨ down = []) ∧
      (q.heap[i].count ≤ count → up = []) ∧ (count ≤ q.heap[i].count → down = []) ∧
      2 ^ (up.length + down.length) ≤ q.heap.size := by
  intro e written raised repaired
  have hordered := heapOrdered_iff.1 ordered
  have hindexed := indexConsistent_iff.1 consistent
  have hposition : q.index[e.id]? = some i := hindexed.getElem?_index hi
  have hwritten : written = ⟨q.heap.setIfInBounds i e, q.index⟩ := by
    rw [show q.heap.setIfInBounds i e = q.heap.set i e from dif_pos hi]
  have hsize : written.size = q.heap.size := Array.size_set hi
  have hoff : written.OrderedOff i := by
    rw [hwritten]
    exact orderedOff_set hordered i e q.index
  have hindexedWritten : written.Indexed := by
    rw [hwritten]
    exact hindexed.set hposition
  have hrepaired := (rearranged_siftUp written i).trans (rearranged_siftDown raised.2 raised.1)
  refine ⟨⟨heapOrdered_iff.2 (ordered_siftUp_siftDown hoff),
    indexConsistent_iff.2 (hrepaired.indexed hindexedWritten), hrepaired.perm, ?_⟩, ?_⟩
  · unfold insert
    simp only [hposition, ← hwritten]
    rfl
  · obtain ⟨up, hup⟩ := (exists_rises_iff (hsize ▸ hi : i < written.size)).2 (Eq.refl raised)
    obtain ⟨down, hdown⟩ := (exists_sinks_iff hup.reached_lt).2 (Eq.refl repaired)
    have hupNil : q.heap[i].count ≤ count → up = [] := fun hle => by
      refine hup.eq_nil ?_
      rw [hwritten]
      exact hordered.followsParent_set hi hle q.index
    have hdownNil : count ≤ q.heap[i].count → down = [] := fun hle => by
      have hleads : written.LeadsChildren i := by
        rw [hwritten]
        exact hordered.leadsChildren_set hi hle q.index
      -- sifting up has already put everything in order, also where it ends
      exact hdown.eq_nil ((ordered_siftUp hoff hleads).leadsChildren raised.1)
    have hone : up = [] ∨ down = [] := (UInt64.le_total q.heap[i].count count).imp hupNil hdownNil
    refine ⟨up, down, hup, hdown, hone, hupNil, hdownNil, ?_⟩
    rw [← hsize]
    exact two_pow_moves_le hup hdown hone

/-- The entry written over stands above the last one, which has none beside it. -/
theorem written_then_repaired_above_last :
    let a : Entry := ⟨"a", 10, 0⟩
    let b : Entry := ⟨"b", 10, 5⟩
    let c : Entry := ⟨"c", 10, 1⟩
    let d : Entry := ⟨"d", 10, 6⟩
    let index : Std.HashMap String Nat :=
      (((Std.HashMap.insert ∅ "a" 0).insert "b" 1).insert "c" 2).insert "d" 3
    let q : FairQueue := ⟨#[a, b, c, d], index⟩
    let written : FairQueue := ⟨#[a, ⟨"b", 10, 7⟩, c, d], index⟩
    let raised := written.siftUp 1
    let repaired := raised.2.siftDown raised.1
    q.HeapOrdered ∧ q.IndexConsistent ∧ 1 < q.heap.size ∧
      (repaired.HeapOrdered ∧ repaired.IndexConsistent ∧ repaired.heap.Perm written.heap ∧
        q.insert ⟨"b", 10, 7⟩ = repaired) ∧
      ∃ up down, Rises written 1 up raised ∧ Sinks raised.2 raised.1 down repaired ∧ up = [] := by
  intro a b c d index q written raised repaired
  have ordered : q.HeapOrdered := by
    unfold HeapOrdered
    decide
  have consistent : q.IndexConsistent := by
    have hab : Indexed ⟨#[a, b], (Std.HashMap.insert ∅ "a" 0).insert "b" 1⟩ :=
      (indexed_empty.push (e := a) (by simp [empty])).push (e := b) (by simp [a, b, empty])
    have hcd : q.Indexed :=
      (hab.push (e := c) (by simp [c])).push (e := d) (by simp [c, d])
    exact indexConsistent_iff.2 hcd
  have hi : 1 < q.heap.size := by decide
  have hgreater : q.heap[1].count ≤ 7 := show (5 : UInt64) ≤ 7 by decide
  obtain ⟨hrepaired, up, down, hup, hdown, -, hupNil, -⟩ :=
    written_then_repaired ordered consistent hi 10 7
  exact ⟨ordered, consistent, hi, hrepaired, up, down, hup, hdown, hupNil hgreater⟩

end EdgePlacement.FairQueue

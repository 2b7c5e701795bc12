import EdgePlacement.Proofs.FairQueue.Refinement

/-!
How a queue is stored.

An entry is found through the index and ordered through the heap, and nothing but the
operations keeps the two in step. Soundness says so in terms of look-ups and ranks; here it
is read off the stored parts themselves: the index has the ids of the heap for its keys,
each once and at its position, and the count above a position is at most the count at it
(`run_stored`). An operation that fails, or that breaks the order of a whole path before it
restores it, leaves this behind like any other. Both can be checked entry by entry
(`HeapOrdered`, `IndexConsistent`), and the checks say no less than soundness does. -/
namespace EdgePlacement.FairQueue

section Stored
variable {q : FairQueue}

theorem Indexed.getElem?_index (h : q.Indexed) {i : Nat} (hi : i < q.heap.size) :
    q.index[q.heap[i].id]? = some i :=
  (h _ i).2 (idAt?_eq_some_iff.2 ⟨q.heap[i], Array.getElem?_eq_getElem hi, rfl⟩)

/-- The index knows the ids of the heap and no others. -/
theorem Indexed.mem_index_iff (h : q.Indexed) {id : String} : id ∈ q.index ↔ id ∈ q.ids := by
  rw [h.mem_ids_iff, ← h.contains_eq]
  exact Std.HashMap.contains_iff_mem.symm

/-- The keys of the index are the ids of the heap, each once. -/
theorem Indexed.keys_perm_ids (h : q.Indexed) : q.index.keys.Perm q.ids := by
  refine (List.perm_ext_iff_of_nodup Std.HashMap.nodup_keys h.nodup_ids).2 fun id => ?_
  rw [Std.HashMap.mem_keys, h.mem_index_iff]

theorem Indexed.size_index (h : q.Indexed) : q.index.size = q.heap.size := by
  rw [← Std.HashMap.length_keys, h.keys_perm_ids.length_eq, length_ids]
  rfl

theorem rank_le_iff {i j : Nat} (hi : i < q.heap.size) (hj : j < q.heap.size) :
    q.rank i ≤ q.rank j ↔ q.heap[i].count ≤ q.heap[j].count := by
  rw [rank_of_getElem? (Array.getElem?_eq_getElem hi),
    rank_of_getElem? (Array.getElem?_eq_getElem hj), UInt64.le_iff_toNat_le]

theorem rank_lt_iff {i j : Nat} (hi : i < q.heap.size) (hj : j < q.heap.size) :
    q.rank i < q.rank j ↔ q.heap[i].count < q.heap[j].count := by
  rw [← Nat.not_le, rank_le_iff hj hi, UInt64.not_le]

/-- An entry and the one above it. -/
theorem rank_parent_le_iff {i : Nat} (hi : i < q.heap.size) :
    q.rank (parent i) ≤ q.rank i ↔ q.heap[(i - 1) / 2].count ≤ q.heap[i].count := by
  have hp : (i - 1) / 2 < q.heap.size := by omega
  exact rank_le_iff hp hi

theorem Ordered.count_parent_le (h : q.Ordered) {i : Nat} (hpos : 0 < i) (hi : i < q.heap.size) :
    q.heap[(i - 1) / 2].count ≤ q.heap[i].count :=
  (rank_parent_le_iff hi).1 (h i hpos)

/-! ### Checks -/

variable (q) in
/-- No entry has a smaller count than the one above it. -/
def HeapOrdered : Prop :=
  ∀ i (_ : i < q.heap.size), 0 < i → q.heap[(i - 1) / 2].count ≤ q.heap[i].count

variable (q) in
/-- The index is as large as the heap and maps the id of every entry to its position. -/
def IndexConsistent : Prop :=
  q.index.size = q.heap.size ∧ ∀ i (_ : i < q.heap.size), q.index[q.heap[i].id]? = some i

theorem heapOrdered_iff : q.HeapOrdered ↔ q.Ordered := by
  constructor
  · intro h i hpos
    by_cases hi : i < q.heap.size
    · exact (rank_parent_le_iff hi).2 (h i hi hpos)
    · rw [rank_of_size_le (Nat.le_of_not_lt hi)]
      exact rank_le ..
  · intro h i hi hpos
    exact h.count_parent_le hpos hi

theorem IndexConsistent.nodup_ids (h : q.IndexConsistent) : q.ids.Nodup := by
  have hpositions : q.ids.map (fun id => q.index[id]?) = (List.range q.heap.size).map some :=
    List.ext_getElem (by simp [ids]) fun i hi _ => by
      simpa [ids] using h.2 i (by simpa [ids] using hi)
  refine List.Nodup.of_map (fun id => q.index[id]?) ?_
  rw [hpositions]
  exact List.nodup_range.map (Option.some_injective Nat)

/-- There are as many keys as entries, and the id of every entry is one, so there are no others. -/
theorem IndexConsistent.mem_ids (h : q.IndexConsistent) {id : String} {i : Nat}
    (hid : q.index[id]? = some i) : id ∈ q.ids := by
  have hsub : q.ids ⊆ q.index.keys := fun id hid => by
    obtain ⟨i, hi, rfl⟩ := List.mem_iff_getElem.1 hid
    have hposition := h.2 i (by simpa [ids] using hi)
    rw [Std.HashMap.mem_keys, Std.HashMap.mem_iff_isSome_getElem?]
    simp [ids, hposition]
  have hlength : q.index.keys.length ≤ q.ids.length := by
    rw [Std.HashMap.length_keys, h.1, length_ids]
    exact Nat.le_refl _
  have hperm := (List.subperm_of_subset h.nodup_ids hsub).perm_of_length_le hlength
  rw [hperm.mem_iff, Std.HashMap.mem_keys, Std.HashMap.mem_iff_isSome_getElem?, hid]
  rfl

/-- The check tells all there is to an index that is right. -/
theorem indexConsistent_iff : q.IndexConsistent ↔ q.Indexed := by
  constructor
  · intro h id i
    rw [idAt?_eq_some_iff]
    constructor
    · intro hid
      obtain ⟨e, he, rfl⟩ := List.mem_map.1 (h.mem_ids hid)
      obtain ⟨k, hk⟩ := Array.mem_iff_getElem?.1 (Array.mem_toList_iff.1 he)
      obtain ⟨hlt, rfl⟩ := Array.getElem?_eq_some_iff.1 hk
      cases (h.2 k hlt).symm.trans hid
      exact ⟨_, hk, rfl⟩
    · rintro ⟨e, he, rfl⟩
      obtain ⟨hlt, rfl⟩ := Array.getElem?_eq_some_iff.1 he
      exact h.2 i hlt
  · intro h
    exact ⟨h.size_index, fun i hi => h.getElem?_index hi⟩

end Stored

/-- **What is stored stays in step.** After every list of commands on an empty queue, failed
ones among them, the ids in the heap are distinct; the index has exactly these ids for its
keys and maps each to the position of its entry; and no entry has a smaller count than the
one above it. -/
theorem run_stored (commands : List Command) :
    let q := (empty.run commands).2
    q.ids.Nodup ∧
    (∀ i (_ : i < q.heap.size), q.index[q.heap[i].id]? = some i) ∧
    (∀ id, id ∈ q.index ↔ id ∈ q.ids) ∧
    q.index.size = q.heap.size ∧
    ∀ i (_ : i < q.heap.size), 0 < i → q.heap[(i - 1) / 2].count ≤ q.heap[i].count := by
  intro q
  have hq : q.Sound := sound_run sound_empty commands
  exact ⟨hq.indexed.nodup_ids, fun i hi => hq.indexed.getElem?_index hi,
    fun id => hq.indexed.mem_index_iff, hq.indexed.size_index,
    fun i hi hpos => hq.ordered.count_parent_le hpos hi⟩

end EdgePlacement.FairQueue

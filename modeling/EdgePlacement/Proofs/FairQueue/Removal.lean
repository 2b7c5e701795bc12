import EdgePlacement.Proofs.FairQueue.Representation

/-!
Taking an entry out from anywhere in the heap.

Raising an entry to the root moves all of its ancestors one level down, each next to a subtree it
was above before, so that the order is lost at the root alone. Popping does not need it there: it
puts the last entry in place of the root and sifts that down. What remains is in order, whichever
position the entry was raised from (`raised_then_popped`). -/
namespace EdgePlacement.FairQueue

/-! ### Popping -/

/-- What is popped and what is left are what there was. -/
theorem perm_popMin {q rest : FairQueue} {e : Entry} (hpop : q.popMin = (some e, rest)) :
    (rest.heap.push e).Perm q.heap := by
  unfold popMin at hpop
  simp only at hpop
  split at hpop
  · cases hpop
  · next last hlast =>
    cases hpop
    obtain ⟨others, hothers⟩ := Array.back?_eq_some_iff.1 hlast
    have hpos : 0 < q.size := by
      have hsize : (q.swap 0 (q.size - 1)).size = others.size + 1 := by
        rw [size, hothers, Array.size_push]
      rw [size_swap] at hsize
      omega
    have hswap := perm_swap hpos (Nat.sub_lt hpos Nat.one_pos)
    have hdown := (rearranged_siftDown
      ⟨(q.swap 0 (q.size - 1)).heap.pop, (q.swap 0 (q.size - 1)).index.erase e.id⟩ 0).perm
    simp only [hothers, Array.pop_push] at hswap hdown ⊢
    exact (hdown.push e).trans hswap

/-- **An entry can be taken out from anywhere.** Take a heap in order with a consistent index, and
any of its positions. Raising the entry there to the root brings it to the root, keeps the entries
and a consistent index, and leaves every pair of an entry and the one above it in order that does
not involve the root. Popping then yields that entry, as taking it out by its id does, and leaves
a heap in order with a consistent index of all the other entries. -/
theorem raised_then_popped {q : FairQueue} (ordered : q.HeapOrdered)
    (consistent : q.IndexConsistent) {i : Nat} (hi : i < q.heap.size) :
    let e := q.heap[i]
    let raised := q.raiseToRoot i
    (raised.heap[0]? = some e ∧ raised.heap.Perm q.heap ∧ raised.IndexConsistent ∧
      ∀ k (_ : k < raised.heap.size), 0 < (k - 1) / 2 →
        raised.heap[(k - 1) / 2].count ≤ raised.heap[k].count) ∧
    ∃ rest, raised.popMin = (some e, rest) ∧ q.extract e.id = (.ok e, rest) ∧
      rest.HeapOrdered ∧ rest.IndexConsistent ∧ (rest.heap.push e).Perm q.heap := by
  intro e raised
  have hordered := heapOrdered_iff.1 ordered
  have hindexed := indexConsistent_iff.1 consistent
  have hraised := rearranged_raiseToRoot hi
  have hoff : raised.OrderedOff 0 := orderedOff_raiseToRoot (hordered.off i) hi
  have hroot : raised.heap[0]? = some e :=
    (getElem?_raiseToRoot hi).trans (Array.getElem?_eq_getElem hi)
  refine ⟨⟨hroot, hraised.perm, indexConsistent_iff.2 (hraised.indexed hindexed),
    fun k hk hparent => (rank_parent_le_iff hk).1 ?_⟩, ?_⟩
  · have hpos : 0 < k := by omega
    exact hoff.apart k hpos (Nat.ne_of_gt hpos) (Nat.ne_of_gt hparent)
  · obtain ⟨rest, hpop, htaken⟩ := taken_popMin (hraised.indexed hindexed) hoff hroot
    refine ⟨rest, hpop, ?_, heapOrdered_iff.2 htaken.sound.ordered,
      indexConsistent_iff.2 htaken.sound.indexed, (perm_popMin hpop).trans hraised.perm⟩
    unfold extract
    rw [hindexed.getElem?_index hi]
    simp only [hpop]

/-- The last entry stands right below the one that is taken out. -/
theorem raised_then_popped_above_last :
    let b : Entry := ⟨"b", 10, 5⟩
    let heap : Array Entry := #[⟨"a", 10, 0⟩, b, ⟨"c", 10, 1⟩, ⟨"d", 10, 6⟩]
    let index : Std.HashMap String Nat :=
      (((Std.HashMap.insert ∅ "a" 0).insert "b" 1).insert "c" 2).insert "d" 3
    let q : FairQueue := ⟨heap, index⟩
    q.HeapOrdered ∧ q.IndexConsistent ∧
      ∃ rest, (q.raiseToRoot 1).popMin = (some b, rest) ∧ q.extract "b" = (.ok b, rest) ∧
        rest.HeapOrdered ∧ rest.IndexConsistent ∧ (rest.heap.push b).Perm heap := by
  intro b heap index q
  have ordered : q.HeapOrdered := by
    unfold HeapOrdered
    decide
  have consistent : q.IndexConsistent := by
    have hlookup : ∀ id : String, index[id]? = if id = "d" then some 3 else if id = "c" then some 2
        else if id = "b" then some 1 else if id = "a" then some 0 else none := fun id => by
      simp only [index, getElem?_insert_id, Std.HashMap.getElem?_empty]
    refine ⟨by simp [q, index, heap, Std.HashMap.size_insert], fun i hi => (hlookup _).trans ?_⟩
    revert i
    decide
  exact ⟨ordered, consistent, (raised_then_popped ordered consistent (i := 1) (by decide)).2⟩

end EdgePlacement.FairQueue

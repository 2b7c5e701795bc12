import EdgePlacement.Proofs.FairQueue.Index

/-!
What the operations do to the entries of a queue.

A sound queue is ordered and rightly indexed, and every operation keeps it so. Seen through
`get?`, inserting sets the entry of one id, and taking out, by `popMin` or by id, clears
the entry of one id and touches no other. The entry that `popMin` takes out has the least
count of all (`Taken`, `popMin_cases`). So `drain` lists the entries once each, by
ascending count (`drain_sorted`). -/
namespace EdgePlacement.FairQueue

structure Sound (q : FairQueue) : Prop where
  indexed : q.Indexed
  ordered : q.Ordered

theorem sound_empty : empty.Sound where
  indexed := indexed_empty
  ordered k _ := by
    rw [rank_of_size_le (show empty.size ≤ k from Nat.zero_le k)]
    exact rank_le _ _

/-! ### Inserting -/

theorem rank_set_of_ne (q : FairQueue) (e : Entry) (index : Std.HashMap String Nat) {i k : Nat}
    (hk : k ≠ i) : rank ⟨q.heap.setIfInBounds i e, index⟩ k = q.rank k := by
  unfold rank
  rw [Array.getElem?_setIfInBounds_ne (Ne.symm hk)]

theorem orderedOff_set {q : FairQueue} (h : q.Ordered) (i : Nat) (e : Entry)
    (index : Std.HashMap String Nat) : OrderedOff ⟨q.heap.setIfInBounds i e, index⟩ i :=
  (h.off i).of_rank_eq fun _ hk => rank_set_of_ne q e index hk

theorem orderedOff_push {q : FairQueue} (h : q.Ordered) (e : Entry)
    (index : Std.HashMap String Nat) :
    OrderedOff ⟨q.heap.push e, index⟩ q.size ∧ LeadsChildren ⟨q.heap.push e, index⟩ q.size := by
  constructor
  · refine (h.off q.size).of_rank_eq (fun k hk => ?_)
    unfold rank
    rw [Array.getElem?_push, if_neg (show k ≠ q.heap.size from hk)]
  · intro k hk hp
    have hlt := parent_lt hk
    have hsize : size ⟨q.heap.push e, index⟩ ≤ k := by
      unfold size at *
      rw [Array.size_push]
      omega
    rw [rank_of_size_le hsize]
    exact rank_le _ _

theorem sound_insert {q : FairQueue} (h : q.Sound) (e : Entry) : (q.insert e).Sound := by
  unfold insert
  split
  · next i hi =>
    have hset := h.indexed.set hi
    exact ⟨(rearranged_siftDown _ _).indexed ((rearranged_siftUp _ _).indexed hset),
      ordered_siftUp_siftDown (orderedOff_set h.ordered i e q.index)⟩
  · next hi =>
    have hpush := h.indexed.push hi
    obtain ⟨hoff, hleads⟩ := orderedOff_push h.ordered e (q.index.insert e.id q.size)
    exact ⟨(rearranged_siftUp _ _).indexed hpush, ordered_siftUp hoff hleads⟩

theorem get?_insert {q : FairQueue} (h : q.Sound) (e : Entry) (id : String) :
    (q.insert e).get? id = if id = e.id then some e else q.get? id := by
  unfold insert
  split
  · next i hi =>
    have hset := h.indexed.set hi
    have hup := rearranged_siftUp ⟨q.heap.setIfInBounds i e, q.index⟩ i
    rw [← h.indexed.get?_set hi, ← hup.get?_eq hset]
    exact (rearranged_siftDown _ _).get?_eq (hup.indexed hset) id
  · next hi =>
    rw [← h.indexed.get?_push]
    exact (rearranged_siftUp _ _).get?_eq (h.indexed.push hi) id

/-! ### Taking out -/

theorem popMin_of_size_eq_zero {q : FairQueue} (h : q.size = 0) : q.popMin = (none, q) := by
  have hheap : q.heap = #[] := Array.eq_empty_of_size_eq_zero h
  unfold popMin swap
  rw [h, if_pos rfl]
  simp [hheap]

theorem popMin_of_min? {q : FairQueue} {e : Entry} (h : q.min? = some e) :
    q.popMin = (some e, ((q.swap 0 (q.size - 1)).dropLast e).siftDown 0) := by
  have hpos : 0 < q.size := (Array.getElem?_eq_some_iff.1 h).1
  have hback : (q.swap 0 (q.size - 1)).heap.back? = some e := by
    rw [Array.back?_eq_getElem?, show (q.swap 0 (q.size - 1)).heap.size = q.size from size_swap _ _ _,
      getElem?_swap hpos (by omega)]
    by_cases h0 : q.size - 1 = 0
    · rw [if_pos h0, h0]
      exact h
    · rw [if_neg h0, if_pos rfl]
      exact h
  unfold popMin
  simp only [hback]
  rfl

theorem rank_dropLast (q : FairQueue) (e : Entry) (k : Nat) :
    (q.dropLast e).rank k = if k < q.size - 1 then q.rank k else UInt64.size := by
  unfold rank dropLast size
  rw [Array.getElem?_pop]
  split <;> rfl

/-- Popping only needs the order off the root. -/
theorem orderedOff_dropLast {q : FairQueue} (h : q.OrderedOff 0) (hpos : 0 < q.size) (e : Entry) :
    ((q.swap 0 (q.size - 1)).dropLast e).OrderedOff 0 := by
  have hr := rank_swap hpos (show q.size - 1 < q.size by omega)
  refine ⟨fun k hk hk0 hp0 => ?_, fun h0 => absurd h0 (Nat.lt_irrefl 0)⟩
  have hlt := parent_lt hk
  rw [rank_dropLast _ _ k, size_swap]
  by_cases hks : k < q.size - 1
  · rw [rank_dropLast, size_swap, if_pos hks, if_pos (Nat.lt_trans hlt hks), hr k, hr (parent k),
      if_neg hk0, if_neg hp0, if_neg (Nat.ne_of_lt hks), if_neg (by omega)]
    exact h.apart k hk hk0 hp0
  · rw [if_neg hks]
    exact rank_le _ _

/-- `q'` is `q` without its entry `e`. -/
structure Taken (q : FairQueue) (e : Entry) (q' : FairQueue) : Prop where
  sound : q'.Sound
  get?_self : q.get? e.id = some e
  get?_rest : ∀ id, q'.get? id = if id = e.id then none else q.get? id

theorem taken_popMin {q : FairQueue} {e : Entry} (hi : q.Indexed) (ho : q.OrderedOff 0)
    (h : q.min? = some e) : ∃ q', q.popMin = (some e, q') ∧ Taken q e q' := by
  have hpos : 0 < q.size := (Array.getElem?_eq_some_iff.1 h).1
  have hlast : q.size - 1 < q.size := by omega
  have hswap := rearranged_swap hpos hlast
  have hend : (q.swap 0 (q.size - 1)).heap[(q.swap 0 (q.size - 1)).size - 1]? = some e := by
    rw [size_swap, getElem?_swap hpos hlast]
    by_cases h0 : q.size - 1 = 0
    · rw [if_pos h0, h0]
      exact h
    · rw [if_neg h0, if_pos rfl]
      exact h
  have hdrop := (hswap.indexed hi).dropLast hend
  have hdown := rearranged_siftDown ((q.swap 0 (q.size - 1)).dropLast e) 0
  refine ⟨_, popMin_of_min? h, ⟨hdown.indexed hdrop, ?_⟩, ?_, fun id => ?_⟩
  · exact ordered_siftDown (orderedOff_dropLast ho hpos e) (fun h0 => absurd h0 (Nat.lt_irrefl 0))
  · exact hi.get?_eq_some_iff.2 ⟨Array.mem_of_getElem? h, rfl⟩
  · rw [hdown.get?_eq hdrop, (hswap.indexed hi).get?_dropLast hend, hswap.get?_eq hi]

theorem Indexed.get?_eq_none_of_size_eq_zero {q : FairQueue} (h : q.Indexed) (hs : q.size = 0)
    (id : String) : q.get? id = none := by
  cases hg : q.get? id with
  | none => rfl
  | some e =>
    have hmem := (h.get?_eq_some_iff.1 hg).1
    have := Array.size_pos_of_mem hmem
    unfold size at hs
    omega

/-- The root of a sound queue has the least count. -/
theorem Sound.min?_le {q : FairQueue} (h : q.Sound) {e e' : Entry} {id : String}
    (hmin : q.min? = some e) (hg : q.get? id = some e') : e.count ≤ e'.count := by
  obtain ⟨i, hi⟩ := Array.mem_iff_getElem?.1 (h.indexed.get?_eq_some_iff.1 hg).1
  have := h.ordered.root_le i
  rwa [rank_of_getElem? hmin, rank_of_getElem? hi, ← UInt64.le_iff_toNat_le] at this

/-- Everything `popMin` can do: nothing to an empty queue, and else take out an entry of
least count. -/
theorem popMin_cases {q : FairQueue} (h : q.Sound) :
    (q.popMin = (none, q) ∧ q.min? = none ∧ ∀ id, q.get? id = none) ∨
      ∃ e q', q.popMin = (some e, q') ∧ q.min? = some e ∧ Taken q e q' ∧
        ∀ id e', q.get? id = some e' → e.count ≤ e'.count := by
  cases hmin : q.min? with
  | none =>
    have hs : q.size = 0 := by
      have := Array.getElem?_eq_none_iff.1 hmin
      unfold size
      omega
    exact .inl ⟨popMin_of_size_eq_zero hs, rfl, h.indexed.get?_eq_none_of_size_eq_zero hs⟩
  | some e =>
    obtain ⟨q', hpop, htaken⟩ := taken_popMin h.indexed (h.ordered.off 0) hmin
    exact .inr ⟨e, q', hpop, rfl, htaken, fun id e' hg => h.min?_le hmin hg⟩

theorem taken_of_popMin {q q' : FairQueue} {e : Entry} (h : q.Sound)
    (hpop : q.popMin = (some e, q')) :
    Taken q e q' ∧ ∀ id e', q.get? id = some e' → e.count ≤ e'.count := by
  rcases popMin_cases h with ⟨hnone, -, -⟩ | ⟨e₁, q₁, hsome, -, htaken, hle⟩
  · rw [hnone] at hpop
    cases hpop
  · rw [hsome] at hpop
    cases hpop
    exact ⟨htaken, hle⟩

/-- Where nothing is popped there is nothing, and the queue stays as it is. -/
theorem empty_of_popMin {q q' : FairQueue} (h : q.Sound) (hpop : q.popMin = (none, q')) :
    q' = q ∧ q.min? = none ∧ ∀ id, q.get? id = none := by
  rcases popMin_cases h with ⟨hnone, hmin, hempty⟩ | ⟨e, q₁, hsome, -⟩
  · rw [hnone] at hpop
    cases hpop
    exact ⟨rfl, hmin, hempty⟩
  · rw [hsome] at hpop
    cases hpop

theorem extract_of_get?_eq_none {q : FairQueue} (h : q.Indexed) {id : String}
    (hg : q.get? id = none) : q.extract id = (.error (.notFound id), q) := by
  unfold extract
  cases hx : q.index[id]? with
  | none => rfl
  | some i =>
    have hc := h.contains_eq id
    rw [hg, contains, Std.HashMap.contains_eq_isSome_getElem?, hx] at hc
    cases hc

theorem extract_of_get? {q : FairQueue} (h : q.Sound) {id : String} {e : Entry}
    (hg : q.get? id = some e) : ∃ q', q.extract id = (.ok e, q') ∧ Taken q e q' := by
  obtain ⟨i, hx, he⟩ := Option.bind_eq_some_iff.1 hg
  have hi : i < q.size := (Array.getElem?_eq_some_iff.1 he).1
  have hup := rearranged_raiseToRoot hi
  have hmin : (q.raiseToRoot i).min? = some e := by
    rw [min?, getElem?_raiseToRoot hi, he]
  obtain ⟨q', hpop, htaken⟩ := taken_popMin (hup.indexed h.indexed)
    (orderedOff_raiseToRoot (h.ordered.off i) hi) hmin
  refine ⟨q', ?_, htaken.sound, ?_, fun id => ?_⟩
  · unfold extract
    simp only [hx, hpop]
  · rw [← hup.get?_eq h.indexed]
    exact htaken.get?_self
  · rw [htaken.get?_rest, hup.get?_eq h.indexed]

/-! ### Draining -/

theorem drain_of_popMin {q q' : FairQueue} {e : Entry} (h : q.popMin = (some e, q')) :
    q.drain = e :: q'.drain := by
  rw [drain]
  split
  · next hpop =>
    rw [h] at hpop
    cases hpop
  · next hpop =>
    rw [h] at hpop
    cases hpop
    rfl

theorem mem_drain_iff {q : FairQueue} (h : q.Sound) {e : Entry} :
    e ∈ q.drain ↔ q.get? e.id = some e := by
  fun_induction drain q with
  | case1 q q' hpop =>
    simp [(empty_of_popMin h hpop).2.2]
  | case2 q e₁ q' hpop ih =>
    have htaken := (taken_of_popMin h hpop).1
    rw [List.mem_cons, ih htaken.sound, htaken.get?_rest]
    by_cases hid : e.id = e₁.id
    · rw [if_pos hid, hid, htaken.get?_self]
      simp [eq_comm]
    · rw [if_neg hid]
      simp only [or_iff_right_iff_imp]
      rintro rfl
      exact absurd rfl hid

theorem get?_eq_none_iff {q : FairQueue} (h : q.Sound) {id : String} :
    q.get? id = none ↔ id ∉ q.drain.map (·.id) := by
  rw [List.mem_map]
  constructor
  · rintro hg ⟨e, he, rfl⟩
    rw [(mem_drain_iff h).1 he] at hg
    cases hg
  · intro hid
    cases hg : q.get? id with
    | none => rfl
    | some e =>
      have heq := h.indexed.id_of_get? hg
      subst heq
      exact absurd ⟨e, (mem_drain_iff h).2 hg, rfl⟩ hid

theorem drain_nodup {q : FairQueue} (h : q.Sound) : (q.drain.map (·.id)).Nodup := by
  fun_induction drain q with
  | case1 q q' hpop => exact .nil
  | case2 q e q' hpop ih =>
    have htaken := (taken_of_popMin h hpop).1
    refine List.nodup_cons.2 ⟨fun hmem => ?_, ih htaken.sound⟩
    obtain ⟨e', hmem', hid⟩ := List.mem_map.1 hmem
    have hg := (mem_drain_iff htaken.sound).1 hmem'
    rw [htaken.get?_rest, if_pos hid] at hg
    cases hg

theorem drain_sorted {q : FairQueue} (h : q.Sound) :
    q.drain.Pairwise fun a b => a.count ≤ b.count := by
  fun_induction drain q with
  | case1 q q' hpop => exact .nil
  | case2 q e q' hpop ih =>
    obtain ⟨htaken, hle⟩ := taken_of_popMin h hpop
    refine List.pairwise_cons.2 ⟨fun e' hmem => ?_, ih htaken.sound⟩
    have hg := (mem_drain_iff htaken.sound).1 hmem
    rw [htaken.get?_rest] at hg
    split at hg
    · cases hg
    · exact hle _ _ hg

end EdgePlacement.FairQueue

import EdgePlacement.Proofs.FairQueue.Order

/-!
The index beside the heap.

An index is right when it maps exactly the ids of the heap, each to the position of its
entry (`Indexed`); then no id is queued twice, and looking an id up is finding its entry in
the heap (`get?_eq_some_iff`). The loops move entries by exchanges only, so all they do to
a queue is a rearrangement: the same entries, the index still right (`Rearranged`). -/
namespace EdgePlacement

/-! ### Maps by id -/

theorem getElem?_insert_id {β : Type} (m : Std.HashMap String β) (id : String) (b : β)
    (other : String) : (m.insert id b)[other]? = if other = id then some b else m[other]? := by
  rw [Std.HashMap.getElem?_insert]
  by_cases ho : other = id
  · rw [if_pos ho, if_pos (by simpa using ho.symm)]
  · rw [if_neg ho, if_neg (by simpa using Ne.symm ho)]

theorem getElem?_erase_id {β : Type} (m : Std.HashMap String β) (id other : String) :
    (m.erase id)[other]? = if other = id then none else m[other]? := by
  rw [Std.HashMap.getElem?_erase]
  by_cases ho : other = id
  · rw [if_pos ho, if_pos (by simpa using ho.symm)]
  · rw [if_neg ho, if_neg (by simpa using Ne.symm ho)]

namespace FairQueue

/-! ### Positions -/

/-- The id of the entry at a position. -/
def idAt? (q : FairQueue) (i : Nat) : Option String := q.heap[i]?.map (·.id)

theorem idAt?_eq_some_iff {q : FairQueue} {i : Nat} {id : String} :
    q.idAt? i = some id ↔ ∃ e, q.heap[i]? = some e ∧ e.id = id := by
  simp [idAt?]

theorem lt_size_of_idAt? {q : FairQueue} {i : Nat} {id : String} (h : q.idAt? i = some id) :
    i < q.size := by
  obtain ⟨e, he, -⟩ := idAt?_eq_some_iff.1 h
  exact (Array.getElem?_eq_some_iff.1 he).1

/-- The index maps the ids of the heap to their positions and knows no others. -/
def Indexed (q : FairQueue) : Prop := ∀ id i, q.index[id]? = some i ↔ q.idAt? i = some id

theorem indexed_empty : empty.Indexed := by
  intro id i
  simp [empty, idAt?]

/-- No id is queued at two positions. -/
theorem Indexed.position_unique {q : FairQueue} (h : q.Indexed) {id : String} {i j : Nat}
    (hi : q.idAt? i = some id) (hj : q.idAt? j = some id) : i = j := by
  have := (h id i).2 hi
  rw [(h id j).2 hj] at this
  exact (Option.some.inj this).symm

theorem Indexed.get?_eq_some_iff {q : FairQueue} (h : q.Indexed) {id : String} {e : Entry} :
    q.get? id = some e ↔ e ∈ q.heap ∧ e.id = id := by
  unfold get?
  constructor
  · intro hg
    obtain ⟨i, hi, he⟩ := Option.bind_eq_some_iff.1 hg
    obtain ⟨e', he', hid⟩ := idAt?_eq_some_iff.1 ((h id i).1 hi)
    rw [he] at he'
    cases he'
    exact ⟨Array.mem_of_getElem? he, hid⟩
  · rintro ⟨hmem, rfl⟩
    obtain ⟨i, hi⟩ := Array.mem_iff_getElem?.1 hmem
    have hx := (h e.id i).2 (idAt?_eq_some_iff.2 ⟨e, hi, rfl⟩)
    rw [hx]
    exact hi

theorem Indexed.id_of_get? {q : FairQueue} (h : q.Indexed) {id : String} {e : Entry}
    (hg : q.get? id = some e) : e.id = id :=
  (h.get?_eq_some_iff.1 hg).2

/-- The index contains an id exactly when it finds an entry. -/
theorem Indexed.contains_eq {q : FairQueue} (h : q.Indexed) (id : String) :
    q.contains id = (q.get? id).isSome := by
  unfold contains get?
  rw [Std.HashMap.contains_eq_isSome_getElem?]
  cases hx : q.index[id]? with
  | none => rfl
  | some i =>
    obtain ⟨e, he, -⟩ := idAt?_eq_some_iff.1 ((h id i).1 hx)
    simp [he]

/-- The ids of the heap in the order of their positions. -/
def ids (q : FairQueue) : List String := q.heap.toList.map (·.id)

theorem length_ids (q : FairQueue) : q.ids.length = q.size := by
  simp [ids, size]

theorem Indexed.nodup_ids {q : FairQueue} (h : q.Indexed) : q.ids.Nodup := by
  rw [List.nodup_iff_pairwise_ne, List.pairwise_iff_getElem]
  intro i j hi hj hij heq
  have hat : ∀ k (hk : k < q.ids.length), q.idAt? k = some q.ids[k] := by
    intro k hk
    have hks : k < q.heap.size := by rwa [length_ids] at hk
    rw [idAt?, Array.getElem?_eq_getElem hks]
    simp [ids]
  exact Nat.ne_of_lt hij (h.position_unique (hat i hi) (heq ▸ hat j hj))

theorem Indexed.mem_ids_iff {q : FairQueue} (h : q.Indexed) {id : String} :
    id ∈ q.ids ↔ (q.get? id).isSome = true := by
  simp only [ids, List.mem_map, Array.mem_toList_iff, Option.isSome_iff_exists,
    h.get?_eq_some_iff]

/-! ### Rearranging -/

theorem idAt?_swap {q : FairQueue} {i j : Nat} (hi : i < q.size) (hj : j < q.size) (k : Nat) :
    (q.swap i j).idAt? k =
      if k = i then q.idAt? j else if k = j then q.idAt? i else q.idAt? k := by
  unfold idAt?
  rw [getElem?_swap hi hj]
  split
  · rfl
  · split <;> rfl

theorem index_swap {q : FairQueue} {i j : Nat} (hi : i < q.size) (hj : j < q.size) (hij : i ≠ j)
    (id : String) :
    (q.swap i j).index[id]? =
      if q.idAt? i = some id then some j
      else if q.idAt? j = some id then some i else q.index[id]? := by
  have hat := getElem?_swap hi hj
  unfold swap at hat ⊢
  simp only [if_neg hij] at hat ⊢
  unfold reindex idAt?
  rw [hat i, if_pos rfl, hat j, if_neg (Ne.symm hij), if_pos rfl,
    Array.getElem?_eq_getElem hi, Array.getElem?_eq_getElem hj]
  simp only [Std.HashMap.getElem?_insert, Option.map_some, Option.some.injEq, beq_iff_eq]

theorem Indexed.swap {q : FairQueue} (h : q.Indexed) {i j : Nat} (hi : i < q.size)
    (hj : j < q.size) : (q.swap i j).Indexed := by
  by_cases hij : i = j
  · unfold FairQueue.swap
    rwa [if_pos hij]
  · intro id k
    rw [index_swap hi hj hij, idAt?_swap hi hj]
    -- The entry of `id` is at `i`, at `j` or elsewhere.
    by_cases hidi : q.idAt? i = some id
    · rw [if_pos hidi]
      have hidj : q.idAt? j ≠ some id := fun hidj => hij (h.position_unique hidi hidj)
      by_cases hki : k = i
      · simp [hki, hidj, Ne.symm hij]
      · by_cases hkj : k = j
        · simp [hkj, hidi, Ne.symm hij]
        · have hidk : q.idAt? k ≠ some id := fun hidk => hki (h.position_unique hidk hidi)
          simp [hki, hkj, hidk, Ne.symm hkj]
    · rw [if_neg hidi]
      by_cases hidj : q.idAt? j = some id
      · rw [if_pos hidj]
        by_cases hki : k = i
        · simp [hki, hidj]
        · by_cases hkj : k = j
          · simp [hkj, hidi, hij, Ne.symm hij]
          · have hidk : q.idAt? k ≠ some id := fun hidk => hkj (h.position_unique hidk hidj)
            simp [hki, hkj, hidk, Ne.symm hki]
      · rw [if_neg hidj, h id k]
        by_cases hki : k = i
        · simp [hki, hidi, hidj]
        · by_cases hkj : k = j
          · simp [hkj, hidi, hidj, Ne.symm hij]
          · simp [hki, hkj]

theorem perm_swap {q : FairQueue} {i j : Nat} (hi : i < q.size) (hj : j < q.size) :
    (q.swap i j).heap.Perm q.heap := by
  unfold size at hi hj
  unfold swap
  split
  · exact .refl _
  · simp only [Array.swapIfInBounds_def, hi, hj, dite_true]
    exact Array.swap_perm hi hj

/-- The same entries in another arrangement. -/
structure Rearranged (q q' : FairQueue) : Prop where
  perm : q'.heap.Perm q.heap
  indexed : q.Indexed → q'.Indexed

namespace Rearranged
variable {q q' q'' : FairQueue}

theorem refl (q : FairQueue) : Rearranged q q := ⟨.refl _, id⟩

theorem trans (h : Rearranged q q') (h' : Rearranged q' q'') : Rearranged q q'' :=
  ⟨h'.perm.trans h.perm, fun hq => h'.indexed (h.indexed hq)⟩

theorem size_eq (h : Rearranged q q') : q'.size = q.size := h.perm.size_eq

theorem get?_eq (h : Rearranged q q') (hq : q.Indexed) (id : String) :
    q'.get? id = q.get? id := by
  apply Option.ext
  intro e
  rw [(h.indexed hq).get?_eq_some_iff, hq.get?_eq_some_iff, h.perm.mem_iff]

end Rearranged

theorem rearranged_swap {q : FairQueue} {i j : Nat} (hi : i < q.size) (hj : j < q.size) :
    Rearranged q (q.swap i j) :=
  ⟨perm_swap hi hj, fun h => h.swap hi hj⟩

theorem rearranged_siftUp (q : FairQueue) (i : Nat) : Rearranged q (q.siftUp i).2 := by
  fun_induction siftUp q i with
  | case1 q => exact .refl q
  | case2 q i hi hb ih =>
    have his := lt_size_of_before hb
    exact (rearranged_swap his (Nat.lt_of_le_of_lt (parent_le i) his)).trans ih
  | case3 q i hi hb => exact .refl q

theorem rearranged_siftDown (q : FairQueue) (i : Nat) : Rearranged q (q.siftDown i) := by
  fun_induction siftDown q i with
  | case1 q i least heq => exact .refl q
  | case2 q i least hne ih =>
    obtain ⟨hil, hls⟩ := lt_leastOfFamily hne
    exact (rearranged_swap (Nat.lt_trans hil hls) hls).trans ih

theorem rearranged_raiseToRoot {q : FairQueue} {i : Nat} (hi : i < q.size) :
    Rearranged q (q.raiseToRoot i) := by
  fun_induction raiseToRoot q i with
  | case1 q => exact .refl q
  | case2 q i hne ih =>
    have hp := Nat.lt_of_le_of_lt (parent_le i) hi
    exact (rearranged_swap hi hp).trans (ih (by rwa [size_swap]))

/-- The entry raised arrives at the root. -/
theorem getElem?_raiseToRoot {q : FairQueue} {i : Nat} (hi : i < q.size) :
    (q.raiseToRoot i).heap[0]? = q.heap[i]? := by
  fun_induction raiseToRoot q i with
  | case1 q => rfl
  | case2 q i hne ih =>
    have hlt := parent_lt (Nat.pos_of_ne_zero hne)
    have hp := Nat.lt_trans hlt hi
    rw [ih (by rwa [size_swap]), getElem?_swap hi hp, if_neg (Nat.ne_of_lt hlt), if_pos rfl]

/-! ### Writing over an entry -/

section Set
variable {q : FairQueue} {e : Entry} {i : Nat}

theorem idAt?_set (hi : q.idAt? i = some e.id) (k : Nat) :
    idAt? ⟨q.heap.setIfInBounds i e, q.index⟩ k = q.idAt? k := by
  have his : i < q.heap.size := lt_size_of_idAt? hi
  unfold idAt?
  rw [Array.getElem?_setIfInBounds]
  by_cases hik : i = k
  · subst hik
    rw [if_pos rfl, if_pos his]
    exact hi.symm
  · rw [if_neg hik]

/-- Writing over an entry of the same id. -/
theorem Indexed.set (h : q.Indexed) (hi : q.index[e.id]? = some i) :
    Indexed ⟨q.heap.setIfInBounds i e, q.index⟩ := by
  intro id k
  rw [idAt?_set ((h e.id i).1 hi) k]
  exact h id k

theorem Indexed.get?_set (h : q.Indexed) (hi : q.index[e.id]? = some i) (id : String) :
    get? ⟨q.heap.setIfInBounds i e, q.index⟩ id = if id = e.id then some e else q.get? id := by
  have hat := (h e.id i).1 hi
  have his : i < q.heap.size := lt_size_of_idAt? hat
  unfold get?
  by_cases hid : id = e.id
  · subst hid
    rw [if_pos rfl, hi]
    simp [Array.getElem?_setIfInBounds, his]
  · rw [if_neg hid]
    cases hx : q.index[id]? with
    | none => rfl
    | some k =>
      have hik : i ≠ k := by
        rintro rfl
        have := (h id i).1 hx
        rw [hat] at this
        exact hid (Option.some.inj this).symm
      simp [Array.getElem?_setIfInBounds, hik]

end Set

/-! ### Appending an entry -/

section Push
variable {q : FairQueue} {e : Entry}

theorem idAt?_push (q : FairQueue) (e : Entry) (index : Std.HashMap String Nat) (k : Nat) :
    idAt? ⟨q.heap.push e, index⟩ k = if k = q.size then some e.id else q.idAt? k := by
  unfold idAt? size
  rw [Array.getElem?_push]
  split <;> rfl

/-- Appending an entry of a new id. -/
theorem Indexed.push (h : q.Indexed) (hi : q.index[e.id]? = none) :
    Indexed ⟨q.heap.push e, q.index.insert e.id q.size⟩ := by
  intro id k
  have hend : q.idAt? q.size = none := by simp [idAt?, size]
  rw [idAt?_push, getElem?_insert_id]
  by_cases hid : id = e.id
  · subst hid
    have hold : q.idAt? k ≠ some e.id := by
      intro hold
      rw [(h e.id k).2 hold] at hi
      cases hi
    by_cases hk : k = q.size
    · simp [hk]
    · simp [hk, Ne.symm hk, hold]
  · rw [if_neg hid, h id k]
    by_cases hk : k = q.size
    · simp [hk, hend, Ne.symm hid]
    · rw [if_neg hk]

theorem Indexed.get?_push (h : q.Indexed) (id : String) :
    get? ⟨q.heap.push e, q.index.insert e.id q.size⟩ id =
      if id = e.id then some e else q.get? id := by
  unfold get?
  rw [getElem?_insert_id]
  by_cases hid : id = e.id
  · simp [hid, size]
  · rw [if_neg hid, if_neg hid]
    cases hx : q.index[id]? with
    | none => rfl
    | some k =>
      have hk : k < q.heap.size := lt_size_of_idAt? ((h id k).1 hx)
      simp [Array.getElem?_push, Nat.ne_of_lt hk]

end Push

/-! ### Dropping the last entry -/

/-- The queue without its last entry, which is `e`. -/
def dropLast (q : FairQueue) (e : Entry) : FairQueue := ⟨q.heap.pop, q.index.erase e.id⟩

section DropLast
variable {q : FairQueue} {e : Entry}

theorem idAt?_dropLast (q : FairQueue) (e : Entry) (k : Nat) :
    (q.dropLast e).idAt? k = if k < q.size - 1 then q.idAt? k else none := by
  unfold idAt? dropLast size
  rw [Array.getElem?_pop]
  split <;> rfl

/-- An entry with another id than the last one stands before it. -/
theorem lt_last_of_ne {id last : String} {k : Nat} (hlast : q.idAt? (q.size - 1) = some last)
    (hk : q.idAt? k = some id) (hid : id ≠ last) : k < q.size - 1 := by
  have hsize := lt_size_of_idAt? hk
  have hne : k ≠ q.size - 1 := by
    rintro rfl
    rw [hlast] at hk
    exact hid (Option.some.inj hk).symm
  omega

theorem Indexed.dropLast (h : q.Indexed) (he : q.heap[q.size - 1]? = some e) :
    (q.dropLast e).Indexed := by
  intro id k
  have hlast : q.idAt? (q.size - 1) = some e.id := idAt?_eq_some_iff.2 ⟨e, he, rfl⟩
  rw [idAt?_dropLast, show (q.dropLast e).index[id]? = _ from getElem?_erase_id q.index e.id id]
  by_cases hid : id = e.id
  · have hk : k < q.size - 1 → q.idAt? k ≠ some e.id := fun hk hold =>
      Nat.ne_of_lt hk (h.position_unique hold hlast)
    by_cases hks : k < q.size - 1
    · simp [hid, hks, hk hks]
    · simp [hid, hks]
  · rw [if_neg hid, h id k]
    by_cases hks : k < q.size - 1
    · rw [if_pos hks]
    · rw [if_neg hks]
      exact ⟨fun hold => absurd (lt_last_of_ne hlast hold hid) hks, fun hold => by cases hold⟩

theorem Indexed.get?_dropLast (h : q.Indexed) (he : q.heap[q.size - 1]? = some e) (id : String) :
    (q.dropLast e).get? id = if id = e.id then none else q.get? id := by
  have hlast : q.idAt? (q.size - 1) = some e.id := idAt?_eq_some_iff.2 ⟨e, he, rfl⟩
  unfold get?
  rw [show (q.dropLast e).index[id]? = _ from getElem?_erase_id q.index e.id id]
  by_cases hid : id = e.id
  · rw [if_pos hid, if_pos hid]
    rfl
  · rw [if_neg hid, if_neg hid]
    cases hx : q.index[id]? with
    | none => rfl
    | some k =>
      have hks : k < q.heap.size - 1 := lt_last_of_ne hlast ((h id k).1 hx) hid
      simp [FairQueue.dropLast, Array.getElem?_pop, hks]

end DropLast
end FairQueue
end EdgePlacement

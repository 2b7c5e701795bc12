import EdgePlacement.Proofs.Placement.Requests
import EdgePlacement.Proofs.Placement.Walk

/-!
The allocator and what is registered.

Two records say what an allocator tracks, the class each id is placed in and the queues.
They agree with each other and with what is registered (`Consistent`): an id is queued in
the class of its registered size, with that size, and nowhere else. A request for space
changes nothing of this; all it does to the entries is to count the ids it chose
(`get?_allocate`). -/
namespace EdgePlacement.Greedy

structure Consistent (g : Greedy) (t : Tracked) : Prop where
  size : g.queues.size = g.table.size
  sound : ∀ c, (g.queue c).Sound
  placed : ∀ id, g.placed[id]? = (t id).map g.table.classFor
  queued : ∀ c id e, (g.queue c).get? id = some e → t id = some e.size ∧ g.table.classFor e.size = c
  found : ∀ id size, t id = some size → ((g.queue (g.table.classFor size)).get? id).isSome = true

theorem queue_new (table : SizeTable) (c : Nat) : (new table).queue c = .empty := by
  unfold queue new
  rw [Array.getElem?_replicate]
  split <;> rfl

theorem consistent_new (table : SizeTable) : (new table).Consistent Tracked.none := by
  have hnone : ∀ id, FairQueue.empty.get? id = none :=
    FairQueue.indexed_empty.get?_eq_none_of_size_eq_zero rfl
  constructor
  case size => simp [new]
  case sound =>
    intro c
    rw [queue_new]
    exact FairQueue.sound_empty
  case placed => simp [new, Tracked.none]
  case queued =>
    intro c id e hg
    rw [queue_new, hnone id] at hg
    cases hg
  case found =>
    intro id size ht
    cases ht

section Consistent
variable {g : Greedy} {t : Tracked}

theorem Consistent.class_lt (h : g.Consistent t) (size : UInt64) :
    g.table.classFor size < g.queues.size := by
  rw [h.size]
  exact g.table.classFor_lt size

theorem Consistent.contains_placed (h : g.Consistent t) (id : String) :
    g.placed.contains id = (t id).isSome := by
  rw [Std.HashMap.contains_eq_isSome_getElem?, h.placed id, Option.isSome_map]

theorem Consistent.get?_of_some (h : g.Consistent t) {id : String} {size : UInt64}
    (ht : t id = some size) : g.get? id = (g.queue (g.table.classFor size)).get? id := by
  unfold get?
  rw [h.placed id, ht]
  rfl

theorem Consistent.get?_of_none (h : g.Consistent t) {id : String} (ht : t id = none) :
    g.get? id = none := by
  unfold get?
  rw [h.placed id, ht]
  rfl

/-- The tracked ids are those with an entry, and the entry has the registered size. -/
theorem Consistent.size_get? (h : g.Consistent t) (id : String) :
    (g.get? id).map (·.size) = t id := by
  cases ht : t id with
  | none =>
    rw [h.get?_of_none ht]
    rfl
  | some size =>
    rw [h.get?_of_some ht]
    obtain ⟨e, he⟩ := Option.isSome_iff_exists.1 (h.found id size ht)
    rw [he, Option.map_some, ← (h.queued _ id e he).1, ht]

/-- The entry of an id is the one in the queue of its class. -/
theorem Consistent.get?_eq_some_iff (h : g.Consistent t) {id : String} {e : Entry} :
    g.get? id = some e ↔ (g.queue (g.table.classFor e.size)).get? id = some e := by
  refine ⟨fun hg => ?_, fun hq => ?_⟩
  · have hsize := h.size_get? id
    rw [hg, Option.map_some] at hsize
    rwa [h.get?_of_some hsize.symm] at hg
  · rw [h.get?_of_some (h.queued _ _ _ hq).1]
    exact hq

theorem Consistent.exists_entry (h : g.Consistent t) {id : String} {size : UInt64}
    (ht : t id = some size) : ∃ e, g.get? id = some e ∧ e.id = id ∧ e.size = size := by
  have hsize := h.size_get? id
  rw [ht] at hsize
  obtain ⟨e, he, hes⟩ := Option.map_eq_some_iff.1 hsize
  exact ⟨e, he, (h.sound _).indexed.id_of_get? (h.get?_eq_some_iff.1 he), hes⟩

/-- An id that is not tracked is in no queue. -/
theorem Consistent.get?_queue_of_none (h : g.Consistent t) {id : String} (ht : t id = none)
    (c : Nat) : (g.queue c).get? id = none := by
  cases he : (g.queue c).get? id with
  | none => rfl
  | some e =>
    have := (h.queued c id e he).1
    rw [ht] at this
    cases this

/-- A tracked id is in no queue but the one of its class. -/
theorem Consistent.get?_queue_of_ne (h : g.Consistent t) {id : String} {size : UInt64}
    (ht : t id = some size) {c : Nat} (hc : c ≠ g.table.classFor size) :
    (g.queue c).get? id = none := by
  cases he : (g.queue c).get? id with
  | none => rfl
  | some e =>
    obtain ⟨hsize, hclass⟩ := h.queued c id e he
    rw [ht] at hsize
    cases hsize
    exact absurd hclass.symm hc

/-! ### Registration -/

/-- The allocator with another queue for a class and other placements. -/
def replace (g : Greedy) (c : Nat) (q : FairQueue) (placed : Std.HashMap String Nat) : Greedy :=
  { g.setQueue c q with placed := placed }

theorem queue_replace {c : Nat} (hc : c < g.queues.size) (q : FairQueue)
    (placed : Std.HashMap String Nat) (k : Nat) :
    (g.replace c q placed).queue k = if k = c then q else g.queue k := by
  split
  · next hk =>
    rw [hk]
    exact queue_setQueue_self hc q
  · next hk => exact queue_setQueue_of_ne g q hk

/-- Replacing a queue by one that differs in one id does not touch the other ids. -/
theorem get?_queue_replace {c : Nat} (hc : c < g.queues.size) {q : FairQueue} {id other : String}
    (hrest : ∀ other, other ≠ id → q.get? other = (g.queue c).get? other) (ho : other ≠ id)
    (placed : Std.HashMap String Nat) (k : Nat) :
    ((g.replace c q placed).queue k).get? other = (g.queue k).get? other := by
  rw [queue_replace hc]
  split
  · next hk => rw [hk, hrest other ho]
  · rfl

theorem get?_replace_of_ne {c : Nat} (hc : c < g.queues.size) {q : FairQueue} {id other : String}
    (hrest : ∀ other, other ≠ id → q.get? other = (g.queue c).get? other) (ho : other ≠ id)
    {placed : Std.HashMap String Nat} (hplaced : placed[other]? = g.placed[other]?) :
    (g.replace c q placed).get? other = g.get? other := by
  unfold get?
  show (placed[other]?.bind fun k => _) = _
  rw [hplaced]
  congr
  funext k
  exact get?_queue_replace hc hrest ho placed k

/-- Changing what is known of one id, in the one queue it can be in. -/
theorem Consistent.replace (h : g.Consistent t) {id : String} {c : Nat} (hc : c < g.queues.size)
    {size : Option UInt64} {q : FairQueue} {placed : Std.HashMap String Nat}
    (hclass : ∀ s, size = some s → g.table.classFor s = c)
    (helse : ∀ k, k ≠ c → (g.queue k).get? id = none) (hq : q.Sound)
    (hself : (q.get? id).map (·.size) = size)
    (hrest : ∀ other, other ≠ id → q.get? other = (g.queue c).get? other)
    (hplaced : ∀ other, placed[other]? =
      if other = id then size.map g.table.classFor else g.placed[other]?) :
    (g.replace c q placed).Consistent (t.set id size) := by
  have hqueue := queue_replace hc q placed
  have hget : ∀ k other, other ≠ id →
      ((g.replace c q placed).queue k).get? other = (g.queue k).get? other :=
    fun k other ho => get?_queue_replace hc hrest ho placed k
  constructor
  case size => exact (size_queues_setQueue g c q).trans h.size
  case sound =>
    intro k
    rw [hqueue k]
    split
    · exact hq
    · exact h.sound k
  case placed =>
    intro other
    show placed[other]? = (t.set id size other).map g.table.classFor
    rw [hplaced other]
    by_cases ho : other = id
    · rw [if_pos ho, ho, t.set_self]
    · rw [if_neg ho, t.set_of_ne _ ho, h.placed other]
  case queued =>
    intro k other e he
    by_cases ho : other = id
    · subst ho
      rw [hqueue k] at he
      rw [t.set_self]
      split at he
      · next hk =>
        rw [he, Option.map_some] at hself
        exact ⟨hself.symm, (hclass _ hself.symm).trans hk.symm⟩
      · next hk =>
        rw [helse k hk] at he
        cases he
    · rw [hget k other ho] at he
      rw [t.set_of_ne _ ho]
      exact h.queued k other e he
  case found =>
    intro other s hs
    by_cases ho : other = id
    · subst ho
      rw [t.set_self] at hs
      show (((g.replace c q placed).queue (g.table.classFor s)).get? other).isSome = true
      rw [hqueue, if_pos (hclass s hs), ← Option.isSome_map, hself, hs]
      rfl
    · rw [t.set_of_ne _ ho] at hs
      show (((g.replace c q placed).queue (g.table.classFor s)).get? other).isSome = true
      rw [hget _ other ho]
      exact h.found other s hs

/-- Registering an id that is tracked changes nothing. -/
theorem register_of_tracked (h : g.Consistent t) {id : String} (ht : (t id).isSome = true)
    (size : UInt64) : g.register id size = (.error (.duplicateEntry id), g) := by
  unfold register
  rw [h.contains_placed id, ht]
  rfl

theorem register_of_untracked (h : g.Consistent t) {id : String} (ht : t id = none)
    (size : UInt64) :
    g.register id size = (.ok (), g.replace (g.table.classFor size)
      ((g.queue (g.table.classFor size)).insert ⟨id, size, 0⟩)
      (g.placed.insert id (g.table.classFor size))) := by
  unfold register
  rw [h.contains_placed id, ht]
  rfl

theorem consistent_register (h : g.Consistent t) (id : String) (size : UInt64) :
    (g.register id size).2.Consistent (t.next (.register id size)) := by
  simp only [Tracked.next]
  cases ht : t id with
  | some old =>
    rw [register_of_tracked h (by rw [ht]; rfl)]
    exact h
  | none =>
    have hq := h.sound (g.table.classFor size)
    rw [register_of_untracked h ht]
    refine h.replace (h.class_lt size) ?_ (fun k _ => h.get?_queue_of_none ht k)
      (FairQueue.sound_insert hq _) ?_ (fun other ho => ?_) (getElem?_insert_id _ _ _)
    · intro s hs
      cases hs
      rfl
    · rw [FairQueue.get?_insert hq, if_pos rfl]
      rfl
    · rw [FairQueue.get?_insert hq, if_neg ho]

/-- A registration adds a fresh entry for an id that has none. -/
theorem get?_register (h : g.Consistent t) (id : String) (size : UInt64) (other : String) :
    (g.register id size).2.get? other =
      if other = id ∧ t id = none then some ⟨id, size, 0⟩ else g.get? other := by
  cases ht : t id with
  | some old =>
    rw [register_of_tracked h (by rw [ht]; rfl)]
    simp
  | none =>
    have hq := h.sound (g.table.classFor size)
    have hc := h.class_lt size
    rw [register_of_untracked h ht]
    by_cases ho : other = id
    · rw [if_pos ⟨ho, rfl⟩, ho]
      unfold get?
      show ((g.placed.insert id (g.table.classFor size))[id]?.bind fun k => _) = _
      rw [getElem?_insert_id, if_pos rfl, Option.bind_some, queue_replace hc, if_pos rfl,
        FairQueue.get?_insert hq, if_pos rfl]
    · rw [if_neg fun hand => ho hand.1]
      refine get?_replace_of_ne hc (fun other ho => ?_) ho ?_
      · rw [FairQueue.get?_insert hq, if_neg ho]
      · rw [getElem?_insert_id, if_neg ho]

/-- Removing an id that is not tracked changes nothing. -/
theorem unregister_of_untracked (h : g.Consistent t) {id : String} (ht : t id = none) :
    g.unregister id = (.error (.notFound id), g) := by
  unfold unregister
  rw [h.placed id, ht]
  rfl

/-- Removing a tracked id takes its entry out of the queue of its class. -/
theorem unregister_of_tracked (h : g.Consistent t) {id : String} {size : UInt64}
    (ht : t id = some size) :
    ∃ e q, FairQueue.Taken (g.queue (g.table.classFor size)) e q ∧ e.id = id ∧
      g.unregister id = (.ok (), g.replace (g.table.classFor size) q (g.placed.erase id)) := by
  obtain ⟨e, he⟩ := Option.isSome_iff_exists.1 (h.found id size ht)
  have hq := h.sound (g.table.classFor size)
  obtain ⟨q, hx, htaken⟩ := FairQueue.extract_of_get? hq he
  refine ⟨e, q, htaken, hq.indexed.id_of_get? he, ?_⟩
  unfold unregister
  rw [h.placed id, ht]
  have hx' : (queue { g with placed := g.placed.erase id } (g.table.classFor size)).extract id =
      (.ok e, q) := hx
  simp only [Option.map_some, hx']
  rfl

theorem consistent_unregister (h : g.Consistent t) (id : String) :
    (g.unregister id).2.Consistent (t.next (.unregister id)) := by
  simp only [Tracked.next]
  cases ht : t id with
  | none =>
    rw [unregister_of_untracked h ht, t.set_none_of_none ht]
    exact h
  | some size =>
    obtain ⟨e, q, htaken, rfl, hun⟩ := unregister_of_tracked h ht
    rw [hun]
    refine h.replace (h.class_lt size) (fun s hs => absurd hs (Option.some_ne_none s).symm)
      (fun k hk => h.get?_queue_of_ne ht hk) htaken.sound ?_ (fun other ho => ?_)
      (getElem?_erase_id _ _)
    · rw [htaken.get?_rest, if_pos rfl]
      rfl
    · rw [htaken.get?_rest, if_neg ho]

/-- A removal leaves the entries of the other ids. -/
theorem get?_unregister (h : g.Consistent t) (id other : String) :
    (g.unregister id).2.get? other = if other = id then none else g.get? other := by
  by_cases ho : other = id
  · rw [if_pos ho, ho]
    exact (consistent_unregister h id).get?_of_none (t.set_self id none)
  · rw [if_neg ho]
    cases ht : t id with
    | none => rw [unregister_of_untracked h ht]
    | some size =>
      obtain ⟨e, q, htaken, rfl, hun⟩ := unregister_of_tracked h ht
      rw [hun]
      refine get?_replace_of_ne (h.class_lt size) (fun other ho => ?_) ho ?_
      · rw [htaken.get?_rest, if_neg ho]
      · rw [getElem?_erase_id, if_neg ho]

end Consistent
end EdgePlacement.Greedy

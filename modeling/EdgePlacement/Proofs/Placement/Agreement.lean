import Mathlib.Algebra.GroupWithZero.Nat
import Mathlib.Data.List.Nodup
import EdgePlacement.Proofs.Placement.Choice

/-!
The two records of an allocator, held against each other.

An id is placed in a class exactly if it is queued there, so the queues, read class by
class, list the placed ids once each (`ids_perm_placed`), and the numbers queued add up to
the number tracked. Each operation updates the two records one after the other. A removal
has cleared the placement when it turns to the queue; that the queue then has the id is why
it cannot fail there (`extract_of_placed`). -/
namespace EdgePlacement.Greedy

section Consistent
variable {g : Greedy} {t : Tracked}

theorem queue_of_getElem? {c : Nat} {q : FairQueue} (hq : g.queues[c]? = some q) :
    g.queue c = q := by
  unfold queue
  rw [hq]
  rfl

theorem Consistent.get?_isSome_iff (h : g.Consistent t) {id : String} {c : Nat} :
    ((g.queue c).get? id).isSome = true ↔ g.placed[id]? = some c := by
  rw [h.placed id, Option.map_eq_some_iff, Option.isSome_iff_exists]
  constructor
  · rintro ⟨e, he⟩
    obtain ⟨hsize, hclass⟩ := h.queued c id e he
    exact ⟨e.size, hsize, hclass⟩
  · rintro ⟨size, hsize, rfl⟩
    exact Option.isSome_iff_exists.1 (h.found id size hsize)

/-- The placements are into classes of the table. -/
theorem Consistent.placed_lt (h : g.Consistent t) {id : String} {c : Nat}
    (hc : g.placed[id]? = some c) : c < g.queues.size := by
  rw [h.placed id] at hc
  obtain ⟨size, -, rfl⟩ := Option.map_eq_some_iff.1 hc
  exact h.class_lt size

/-- An id is placed in a class exactly if the queue of that class contains it. -/
theorem Consistent.placed_iff_queued (h : g.Consistent t) {id : String} {c : Nat} :
    g.placed[id]? = some c ↔ ∃ q, g.queues[c]? = some q ∧ q.contains id = true := by
  have hcontains := (h.sound c).indexed.contains_eq id
  rw [← h.get?_isSome_iff, ← hcontains]
  constructor
  · intro hc
    have hlt : c < g.queues.size :=
      h.placed_lt (h.get?_isSome_iff.1 (hcontains ▸ hc))
    refine ⟨g.queues[c], Array.getElem?_eq_getElem hlt, ?_⟩
    rwa [queue_of_getElem? (Array.getElem?_eq_getElem hlt)] at hc
  · rintro ⟨q, hq, hc⟩
    rwa [queue_of_getElem? hq]

/-- What is queued under an id is what was registered under it. -/
theorem Consistent.entry_of_placed (h : g.Consistent t) {id : String} {c : Nat}
    (hc : g.placed[id]? = some c) : ∃ e, (g.queue c).get? id = some e ∧ e.id = id ∧
      t id = some e.size ∧ c = g.table.classFor e.size := by
  obtain ⟨e, he⟩ := Option.isSome_iff_exists.1 (h.get?_isSome_iff.2 hc)
  obtain ⟨hsize, hclass⟩ := h.queued c id e he
  exact ⟨e, he, (h.sound c).indexed.id_of_get? he, hsize, hclass.symm⟩

/-- The queue of the class an id is placed in gives its entry out. -/
theorem Consistent.extract_of_placed (h : g.Consistent t) {id : String} {c : Nat}
    (hc : g.placed[id]? = some c) :
    ∃ e q, (g.queue c).extract id = (.ok e, q) ∧ e.id = id := by
  obtain ⟨e, he, hid, -, -⟩ := h.entry_of_placed hc
  obtain ⟨q, hx, -⟩ := FairQueue.extract_of_get? (h.sound c) he
  exact ⟨e, q, hx, hid⟩

/-- So removing a placed id succeeds. -/
theorem Consistent.unregister_of_placed (h : g.Consistent t) {id : String} {c : Nat}
    (hc : g.placed[id]? = some c) : (g.unregister id).1 = .ok () := by
  rw [h.placed id] at hc
  obtain ⟨size, ht, -⟩ := Option.map_eq_some_iff.1 hc
  obtain ⟨e, q, -, -, hun⟩ := unregister_of_tracked h ht
  rw [hun]

/-! ### Numbers -/

theorem Consistent.mem_ids_iff (h : g.Consistent t) {c : Nat} (hlt : c < g.queues.size)
    {id : String} : id ∈ g.queues[c].ids ↔ g.placed[id]? = some c := by
  have hsound := h.sound c
  rw [← h.get?_isSome_iff]
  rw [queue_of_getElem? (Array.getElem?_eq_getElem hlt)] at hsound ⊢
  exact hsound.indexed.mem_ids_iff

/-- The ids queued, class by class, are the ids placed, each once. -/
theorem Consistent.ids_perm_placed (h : g.Consistent t) :
    (g.queues.toList.flatMap FairQueue.ids).Perm g.placed.keys := by
  have hnodup : (g.queues.toList.flatMap FairQueue.ids).Nodup := by
    rw [List.nodup_flatMap]
    constructor
    · intro q hq
      obtain ⟨c, hc⟩ := Array.mem_iff_getElem?.1 (Array.mem_toList_iff.1 hq)
      have hsound := h.sound c
      rw [queue_of_getElem? hc] at hsound
      exact hsound.indexed.nodup_ids
    · rw [List.pairwise_iff_getElem]
      intro c d hc hd hcd id hidc hidd
      rw [Array.length_toList] at hc hd
      have hplaced := (h.mem_ids_iff hc).1 hidc
      rw [(h.mem_ids_iff hd).1 hidd] at hplaced
      exact Nat.ne_of_gt hcd (Option.some.inj hplaced)
  refine (List.perm_ext_iff_of_nodup hnodup Std.HashMap.nodup_keys).2 fun id => ?_
  rw [List.mem_flatMap, Std.HashMap.mem_keys, ← Std.HashMap.isSome_getElem?_iff_mem,
    Option.isSome_iff_exists]
  constructor
  · rintro ⟨q, hq, hid⟩
    obtain ⟨c, hc⟩ := Array.mem_iff_getElem?.1 (Array.mem_toList_iff.1 hq)
    obtain ⟨hlt, rfl⟩ := Array.getElem?_eq_some_iff.1 hc
    exact ⟨c, (h.mem_ids_iff hlt).1 hid⟩
  · rintro ⟨c, hc⟩
    have hlt := h.placed_lt hc
    exact ⟨g.queues[c], Array.mem_toList_iff.2 (Array.getElem_mem hlt), (h.mem_ids_iff hlt).2 hc⟩

/-- The numbers queued add up to the number tracked. -/
theorem Consistent.size_eq_sum (h : g.Consistent t) : g.size = g.perClass.sum := by
  have hlen := h.ids_perm_placed.length_eq
  rw [List.length_flatMap, Std.HashMap.length_keys] at hlen
  unfold Greedy.size perClass
  rw [← hlen]
  exact congrArg List.sum (List.map_congr_left fun q _ => q.length_ids)

theorem Consistent.length_perClass (h : g.Consistent t) : g.perClass.length = g.table.size := by
  unfold perClass
  rw [List.length_map, Array.length_toList, h.size]

end Consistent

/-- **The two records agree after every run.** Whatever requests a new allocator has served,
refused ones among them, it has one queue per class; an id is placed in a class exactly if
the queue of that class contains it, and it is placed at all exactly if it is registered;
its entry has the size it was registered with, which gives the class; the numbers queued in
the classes add up to the number tracked; and removing a placed id succeeds, since the
queue of its class, to which the removal turns when it has cleared the placement, gives the
entry out. -/
theorem records_agree (table : SizeTable) (requests : List Request) :
    let g := after table requests
    let t := Tracked.after requests
    g.queues.size = table.size ∧
    (∀ id c, g.placed[id]? = some c ↔
      ∃ q : FairQueue, g.queues[c]? = some q ∧ q.contains id = true) ∧
    (∀ id, g.placed.contains id = (t id).isSome) ∧
    (∀ id c, g.placed[id]? = some c → ∃ e, (g.queue c).get? id = some e ∧ e.id = id ∧
      t id = some e.size ∧ c = table.classFor e.size) ∧
    g.size = g.perClass.sum ∧ g.perClass.length = table.size ∧
    ∀ id c, g.placed[id]? = some c →
      (∃ e q, (queue { g with placed := g.placed.erase id } c).extract id = (.ok e, q) ∧
        e.id = id) ∧
      (g.unregister id).1 = .ok () := by
  intro g t
  have h : g.Consistent t := consistent_after table requests
  have htable : g.table = table := table_after table requests
  refine ⟨htable ▸ h.size, fun id c => h.placed_iff_queued, h.contains_placed, ?_,
    h.size_eq_sum, htable ▸ h.length_perClass, ?_⟩
  · intro id c hc
    rw [← htable]
    exact h.entry_of_placed hc
  · intro id c hc
    exact ⟨h.extract_of_placed hc, h.unregister_of_placed hc⟩

end EdgePlacement.Greedy

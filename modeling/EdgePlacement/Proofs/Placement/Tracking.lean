import Mathlib.Data.Finset.Card
import EdgePlacement.Placement.Allocator
import EdgePlacement.Proofs.Placement.Choice
import EdgePlacement.Proofs.Placement.Prepared

/-!
What an allocator of either strategy tracks.

The strategies keep their entries in different ways and agree on what is registered: a
registration is refused exactly where the id is tracked, a removal exactly where it is not,
and requests for space and cycles change nothing of it. `Tracks` states what an allocator
keeps in terms of `Tracked` alone, with one lemma per operation, so that nothing above it
has to tell the strategies apart. -/
namespace EdgePlacement

namespace Allocator

/-- An allocator as it is made, without cycles in the background. -/
inductive New (key : String) : Allocator → Prop where
  | greedy (table : SizeTable) : New key (.greedy (.new table))
  | prepared (menu : SizeTable) : New key (.prepared (.new menu key))

/-- The allocator keeps what is tracked and, if its answers are prepared, asks for rankings
under `key`. -/
def Tracks (key : String) : Allocator → Tracked → Prop
  | .greedy g, t => g.Consistent t
  | .prepared p, t => ∃ menu record, Prepared.Follows menu key p record ∧ record.live = t

section Tracks
variable {key : String} {a : Allocator} {t : Tracked}

theorem tracks_new (h : a.New key) : a.Tracks key .none := by
  cases h with
  | greedy table => exact Greedy.consistent_new table
  | prepared menu => exact ⟨menu, .empty, Prepared.follows_new menu key, rfl⟩

/-! ### Sizes -/

theorem Tracks.bytes?_eq (h : a.Tracks key t) (id : String) : a.bytes? id = t id := by
  cases a with
  | greedy g => exact Greedy.Consistent.size_get? h id
  | prepared p =>
    obtain ⟨menu, record, hp, rfl⟩ := h
    exact hp.live id

/-! ### Registration -/

theorem Tracks.register (h : a.Tracks key t) (id : String) (size : UInt64) :
    (a.register id size).1 =
        (if (t id).isSome then .error (.duplicateEntry id) else .ok ()) ∧
      (a.register id size).2.Tracks key (t.next (.register id size)) := by
  cases a with
  | greedy g =>
    refine ⟨?_, Greedy.consistent_register h id size⟩
    show (g.register id size).1 = _
    unfold Greedy.register
    rw [Greedy.Consistent.contains_placed h]
    split <;> rfl
  | prepared p =>
    obtain ⟨menu, record, hp, rfl⟩ := h
    refine ⟨?_, menu, _, Prepared.follows_serve hp (.register id size), rfl⟩
    show (p.register id size).1 = _
    unfold Prepared.register
    rw [hp.contains_live]
    split <;> rfl

theorem Tracks.unregister (h : a.Tracks key t) (id : String) :
    (a.unregister id).1 = (if (t id).isSome then .ok () else .error (.notFound id)) ∧
      (a.unregister id).2.Tracks key (t.next (.unregister id)) := by
  cases a with
  | greedy g =>
    refine ⟨?_, Greedy.consistent_unregister h id⟩
    show (g.unregister id).1 = _
    cases ht : t id with
    | none =>
      rw [Greedy.unregister_of_untracked h ht]
      rfl
    | some size =>
      obtain ⟨e, q, -, -, hun⟩ := Greedy.unregister_of_tracked h ht
      rw [hun]
      rfl
  | prepared p =>
    obtain ⟨menu, record, hp, rfl⟩ := h
    refine ⟨?_, menu, _, Prepared.follows_serve hp (.unregister id), rfl⟩
    show (p.unregister id).1 = _
    unfold Prepared.unregister
    rw [hp.contains_live]
    split <;> rfl

/-! ### Requests and cycles -/

theorem Tracks.allocate (h : a.Tracks key t) (available : UInt64) :
    (a.allocate available).2.Tracks key t := by
  cases a with
  | greedy g => exact Greedy.consistent_allocate h available
  | prepared p => exact h

theorem cycle_prepared (p : Prepared) (coordinator : Coordinator) :
    (prepared p).cycle coordinator =
      ((p.cycle coordinator).1.map some, .prepared (p.cycle coordinator).2) := by
  simp only [cycle]
  rcases p.cycle coordinator with ⟨_ | _, _⟩ <;> rfl

theorem Tracks.cycle (h : a.Tracks key t) (coordinator : Coordinator) :
    (a.cycle coordinator).2.Tracks key t := by
  cases a with
  | greedy g => exact h
  | prepared p =>
    obtain ⟨menu, record, hp, rfl⟩ := h
    rw [cycle_prepared]
    refine ⟨menu, _, Prepared.follows_cycle hp coordinator, ?_⟩
    cases coordinator key <;> rfl

/-- A cycle fails only because the key gets no answer. -/
theorem Tracks.answer_of_cycle (h : a.Tracks key t) {coordinator : Coordinator} {e : Failure}
    (hfail : (a.cycle coordinator).1 = .error e) : coordinator key = .error e := by
  cases a with
  | greedy g => cases hfail
  | prepared p =>
    obtain ⟨menu, record, hp, rfl⟩ := h
    rw [cycle_prepared] at hfail
    cases hc : coordinator p.key with
    | error e' =>
      rw [Prepared.cycle_of_error hc] at hfail
      cases hfail
      rw [← hp.key, hc]
    | ok ranking =>
      unfold Prepared.cycle at hfail
      rw [hc] at hfail
      cases hfail

/-- Where the key gets no answer a cycle changes nothing. -/
theorem Tracks.cycle_eq_self (h : a.Tracks key t) {coordinator : Coordinator} {e : Failure}
    (hfail : coordinator key = .error e) : (a.cycle coordinator).2 = a := by
  cases a with
  | greedy g => rfl
  | prepared p =>
    obtain ⟨menu, record, hp, rfl⟩ := h
    rw [← hp.key] at hfail
    rw [cycle_prepared, Prepared.cycle_of_error hfail]

/-! ### Numbers -/

theorem size_eq_card {β : Type} {m : Std.HashMap String β} {ids : Finset String}
    (h : ∀ id, id ∈ ids ↔ m[id]?.isSome = true) : m.size = ids.card := by
  have hkeys : m.keys.toFinset = ids := by
    ext id
    rw [List.mem_toFinset, Std.HashMap.mem_keys, h, Std.HashMap.isSome_getElem?_iff_mem]
  rw [← hkeys, List.toFinset_card_of_nodup Std.HashMap.nodup_keys, Std.HashMap.length_keys]

/-- An allocator has as many entries as ids are tracked. -/
theorem Tracks.size_eq (h : a.Tracks key t) {ids : Finset String}
    (hids : ∀ id, id ∈ ids ↔ (t id).isSome = true) : a.size = ids.card := by
  cases a with
  | greedy g =>
    refine size_eq_card fun id => ?_
    rw [hids, Greedy.Consistent.placed h, Option.isSome_map]
  | prepared p =>
    obtain ⟨menu, record, hp, rfl⟩ := h
    refine size_eq_card fun id => ?_
    rw [hids, hp.live]

end Tracks
end Allocator
end EdgePlacement

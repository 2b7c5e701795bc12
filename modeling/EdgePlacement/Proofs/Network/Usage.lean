import EdgePlacement.Proofs.Network.Slots

/-!
A registry that is not used through its own calls alone.

Whoever has asked a registry for the allocator of a location may call the allocator directly,
for as long as he likes, past the live counts and also when the location has ended. `Use` is
what can happen to a service then. For a slot there are six things that a use can come to
(`Turn`): that the slot is absent or stays, that a registration makes or raises it, and that a
removal lowers or ends it. Direct calls are never more than calls on an allocator that stays
where it is. -/
namespace EdgePlacement

namespace Registry
open Allocator

/-! ### What a slot goes through -/

/-- What can become of the slot of a location, where a registration there has been accepted
or not and a removal there has been accepted or not. -/
inductive Turn (P : Call → Prop) (r r' : Registry) (location : String) : Bool → Bool → Prop where
  | absent (before : r.slots[location]? = none) (after : r'.slots[location]? = none) :
    Turn P r r' location false false
  | stays {slot : Slot} {a : Allocator} (before : r.slots[location]? = some slot)
    (after : r'.slots[location]? = some { slot with allocator := a })
    (leads : slot.allocator.Leads P a) : Turn P r r' location false false
  | makes {a b : Allocator} (before : r.slots[location]? = none)
    (after : r'.slots[location]? = some ⟨r.made, b, 1⟩) (counted : r.made < r'.made)
    (makes : r.factory location = .ok a) (leads : a.Leads P b) : Turn P r r' location true false
  | raises {slot : Slot} {a : Allocator} (before : r.slots[location]? = some slot)
    (after : r'.slots[location]? = some { slot with live := slot.live + 1, allocator := a })
    (leads : slot.allocator.Leads P a) : Turn P r r' location true false
  | lowers {slot : Slot} {a : Allocator} (before : r.slots[location]? = some slot)
    (more : 1 < slot.live)
    (after : r'.slots[location]? = some { slot with live := slot.live - 1, allocator := a })
    (leads : slot.allocator.Leads P a) : Turn P r r' location false true
  | ends {slot : Slot} (before : r.slots[location]? = some slot) (last : slot.live = 1)
    (after : r'.slots[location]? = none) (retires : slot.number ∈ r'.retired) :
    Turn P r r' location false true

section Turn
variable {P : Call → Prop} {r r' : Registry} {location : String} {accepted removed : Bool}

/-- A slot counts something after its turn if it did before. -/
theorem Turn.counts (h : Turn P r r' location accepted removed)
    (hbefore : ∀ slot, r.slots[location]? = some slot → 1 ≤ slot.live) (slot : Slot)
    (hslot : r'.slots[location]? = some slot) : 1 ≤ slot.live := by
  cases h with
  | absent before after => cases after.symm.trans hslot
  | stays before after leads =>
    cases after.symm.trans hslot
    have hlive := hbefore _ before
    exact hlive
  | makes before after counted makes leads =>
    cases after.symm.trans hslot
    exact Nat.le_refl 1
  | raises before after leads =>
    cases after.symm.trans hslot
    exact Nat.le_add_left 1 _
  | lowers before more after leads =>
    cases after.symm.trans hslot
    exact Nat.le_sub_one_of_lt more
  | ends before last after retires => cases after.symm.trans hslot

/-- A slot was there before, except for its count and calls on its allocator, or was made. -/
theorem Turn.came_from (h : Turn P r r' location accepted removed) {slot : Slot}
    (hslot : r'.slots[location]? = some slot) :
    (∃ old, r.slots[location]? = some old ∧ old.number = slot.number ∧
        old.allocator.Leads P slot.allocator) ∨
      r.slots[location]? = none ∧ slot.number = r.made ∧ r.made < r'.made ∧
        ∃ a, r.factory location = .ok a ∧ a.Leads P slot.allocator := by
  cases h with
  | absent before after => cases after.symm.trans hslot
  | makes before after counted makes leads =>
    cases after.symm.trans hslot
    exact .inr ⟨before, rfl, counted, _, makes, leads⟩
  | ends before last after retires => cases after.symm.trans hslot
  | stays before after leads | raises before after leads | lowers before more after leads =>
    cases after.symm.trans hslot
    exact .inl ⟨_, before, rfl, leads⟩

/-- A slot is there after, except for its count and calls on its allocator, or has ended. -/
theorem Turn.goes_on (h : Turn P r r' location accepted removed) {slot : Slot}
    (hslot : r.slots[location]? = some slot) :
    (∃ later, r'.slots[location]? = some later ∧ later.number = slot.number ∧
        slot.allocator.Leads P later.allocator) ∨
      r'.slots[location]? = none ∧ slot.number ∈ r'.retired ∧ removed = true := by
  cases h with
  | absent before after => cases before.symm.trans hslot
  | makes before after counted makes leads => cases before.symm.trans hslot
  | ends before last after retires =>
    cases before.symm.trans hslot
    exact .inr ⟨after, retires, rfl⟩
  | stays before after leads | raises before after leads | lowers before more after leads =>
    cases before.symm.trans hslot
    exact .inl ⟨_, after, rfl, leads⟩

/-- A slot that is not touched takes no turn. -/
theorem Turn.of_same (h : r'.slots[location]? = r.slots[location]?) :
    Turn P r r' location false false := by
  cases hslot : r.slots[location]? with
  | none => exact .absent hslot (h.trans hslot)
  | some slot => exact .stays hslot (h.trans hslot) (.refl P slot.allocator)

theorem Refits.turn (h : Refits P r r') (location : String) :
    Turn P r r' location false false := by
  have hslot := h.slots location
  generalize hbefore : r.slots[location]? = before at hslot
  generalize hafter : r'.slots[location]? = after at hslot
  cases hslot with
  | absent => exact .absent hbefore hafter
  | there leads => exact .stays hbefore hafter leads

theorem turn_register (hcounts : r.Counts) (id : String) (size : UInt64)
    (h : P (.request (.register id size))) (location other : String) :
    Turn P r (r.register location id size).2 other
      (decide (other = location) && (r.register location id size).1.isOk) false := by
  have hout := r.registering location id size
  generalize r.register location id size = out at hout ⊢
  cases hout with
  | unmade absent fails =>
    show Turn P r r other (_ && false) false
    rw [Bool.and_false]
    exact .of_same rfl
  | @accepted slot made opens accepts =>
    have hleads : slot.allocator.Leads P (slot.allocator.register id size).2 :=
      .one h slot.allocator
    by_cases ho : other = location
    · subst ho
      rw [decide_eq_true rfl]
      have hslot := (slots_setSlot { r with made } other
        { slot with live := slot.live + 1, allocator := (slot.allocator.register id size).2 }
        other).trans (if_pos rfl)
      cases opens with
      | live there => exact .raises there hslot hleads
      | made absent makes => exact .makes absent hslot (Nat.lt_succ_self _) makes hleads
    · rw [decide_eq_false ho]
      exact .of_same ((slots_setSlot ..).trans (if_neg ho))
  | @refused slot made opens refuses =>
    show Turn P r _ other (_ && false) false
    rw [Bool.and_false]
    exact .of_same (slots_refused hcounts opens other)

theorem turn_unregister (hcounts : r.Counts) (id : String)
    (h : P (.request (.unregister id))) (location other : String) :
    Turn P r (r.unregister location id).2 other false
      (decide (other = location) && (r.unregister location id).1.isOk) := by
  have hout := r.unregistering location id
  generalize r.unregister location id = out at hout ⊢
  cases hout with
  | absent absent =>
    show Turn P r r other false (_ && false)
    rw [Bool.and_false]
    exact .of_same rfl
  | @accepted slot there accepts =>
    by_cases ho : other = location
    · subst ho
      rw [decide_eq_true rfl]
      have hlive := hcounts other slot there
      have hslot := (slots_release r other
        { slot with allocator := (slot.allocator.unregister id).2 } other).trans (if_pos rfl)
      by_cases hlast : slot.live = 1
      · refine .ends there hlast (hslot.trans (if_pos (by simp only; omega))) ?_
        unfold release
        rw [if_pos (by simp only; omega)]
        exact Std.HashMap.mem_insert_self
      · exact .lowers there (by omega) (hslot.trans (if_neg (by simp only; omega)))
          (.one h slot.allocator)
    · rw [decide_eq_false ho]
      exact .of_same ((slots_release ..).trans (if_neg ho))
  | @refused slot e there refuses =>
    show Turn P r _ other false (_ && false)
    rw [Bool.and_false]
    exact (refits_setSlot there (.one h slot.allocator)).turn other

end Turn
end Registry

/-! ### Uses -/

/-- What can happen to a service. -/
inductive Use where
  /-- A call through the registry, or a change of the coordinator. -/
  | event (event : Event)
  /-- A call on an allocator, whether or not its location is live. -/
  | direct (handle : Handle) (call : Allocator.Call)
  /-- The background workers take their turn. -/
  | tick

/-- The calls on allocators that a use may make. -/
def Use.Asks : Use → Allocator.Call → Prop
  | .event (.register _ id size), call => call = .request (.register id size)
  | .event (.unregister _ id), call => call = .request (.unregister id)
  | .event (.allocate _ available), call => call = .request (.allocate available)
  | .event (.cycle _), call => ∃ coordinator, call = .cycle coordinator
  | .event (.change _), _ => False
  | .direct _ own, call => call = own
  | .tick, call => ∃ coordinator, call = .tick coordinator

namespace Service

def use (s : Service) : Use → Service
  | .event event => (s.perform event).2
  | .direct handle call =>
    { s with registry := (s.registry.act handle fun a => ((), a.next call)).2 }
  | .tick => { s with registry := s.registry.tick s.coordinator }

def run (s : Service) (uses : List Use) : Service := uses.foldl use s

/-- The use is a registration at the location, and it is accepted. -/
def registers (location : String) (s : Service) : Use → Bool
  | .event (.register other id size) =>
    decide (location = other) && (s.registry.register other id size).1.isOk
  | _ => false

/-- The use is a removal at the location, and it is accepted. -/
def removes (location : String) (s : Service) : Use → Bool
  | .event (.unregister other id) =>
    decide (location = other) && (s.registry.unregister other id).1.isOk
  | _ => false

/-- In how many of the uses, each made of the service as it is by then, something happens. -/
def tally (happens : Service → Use → Bool) (s : Service) : List Use → Nat
  | [] => 0
  | u :: rest => (happens s u).toNat + tally happens (s.use u) rest

theorem run_append (s : Service) (before since : List Use) :
    s.run (before ++ since) = (s.run before).run since := List.foldl_append ..

section Use
variable {s : Service}

/-- One use of a service, as a slot sees it. -/
theorem turn_use {P : Allocator.Call → Prop} (hcounts : s.registry.Counts) (u : Use)
    (hP : ∀ call, u.Asks call → P call) (location : String) :
    s.registry.Turn P (s.use u).registry location (s.registers location u)
      (s.removes location u) := by
  cases u with
  | event event =>
    cases event with
    | register other id size =>
      exact Registry.turn_register hcounts id size (hP _ rfl) other location
    | unregister other id =>
      exact Registry.turn_unregister hcounts id (hP _ rfl) other location
    | allocate other available =>
      exact (Registry.refits_allocate _ other available (hP _ rfl)).turn location
    | cycle order =>
      exact (Registry.refits_cycleEach _ _ _ _ (hP _ ⟨s.coordinator, rfl⟩)).turn location
    | change coordinator => exact .of_same rfl
  | direct handle call =>
    exact (Registry.refits_act _ handle fun a => .one (hP _ rfl) a).turn location
  | tick => exact (Registry.refits_tick _ _ (hP _ ⟨s.coordinator, rfl⟩)).turn location

/-- A use of any kind. -/
theorem any_turn (hcounts : s.registry.Counts) (u : Use) (location : String) :
    s.registry.Turn (fun _ => True) (s.use u).registry location (s.registers location u)
      (s.removes location u) :=
  turn_use hcounts u (fun _ _ => trivial) location

/-- What is called directly on a live allocator is called on that of the slot. -/
theorem slots_direct (handle : Handle) {slot : Slot}
    (there : s.registry.slots[handle.location]? = some slot) (same : slot.number = handle.number)
    (call : Allocator.Call) : (s.use (.direct handle call)).registry.slots[handle.location]? =
      some { slot with allocator := slot.allocator.next call } := by
  show (s.registry.act handle _).2.slots[handle.location]? = _
  rw [Registry.act_of_live there same]
  exact (Registry.slots_setSlot ..).trans (if_pos rfl)

theorem counts_use {s : Service} (h : s.registry.Counts) (u : Use) :
    (s.use u).registry.Counts := fun location =>
  (any_turn h u location).counts (h location)

theorem counts_run {s : Service} (h : s.registry.Counts) (uses : List Use) :
    (s.run uses).registry.Counts := by
  induction uses generalizing s with
  | nil => exact h
  | cons u rest ih => exact ih (counts_use h u)

theorem continues_use (s : Service) (u : Use) : s.registry.Continues (s.use u).registry := by
  cases u with
  | event event =>
    cases event with
    | register other id size => exact Registry.continues_register ..
    | unregister other id => exact Registry.continues_unregister ..
    | allocate other available =>
      exact (Registry.refits_allocate (P := fun _ => True) _ other available trivial).toContinues
    | cycle order =>
      exact (Registry.refits_cycleEach (P := fun _ => True) _ _ _ _ trivial).toContinues
    | change coordinator => exact .refl _
  | direct handle call =>
    have hleads : ∀ a, Allocator.Leads (fun _ => True) a (a.next call) := .one trivial
    exact (Registry.refits_act _ handle hleads).toContinues
  | tick => exact (Registry.refits_tick (P := fun _ => True) _ _ trivial).toContinues

end Use
end Service
end EdgePlacement

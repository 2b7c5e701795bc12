import EdgePlacement.Proofs.Network.Calls

/-!
A registry slot by slot.

A slot is a site with the number of its allocator, which tells the allocator from any other
that was ever made. `registering` and `unregistering` say all that the two calls can come to.
Everything else leaves the slots and lets calls on their allocators pass (`Refits`). Nothing
makes an allocator disappear once it is made: it has a slot or is among the retired
(`Continues`). -/
namespace EdgePlacement.Registry
open Allocator

/-! ### Registration -/

/-- The slot that a registration works on, the one that is there or one just made, and how
many allocators have been made with it. -/
inductive Opens (r : Registry) (location : String) : Slot → Nat → Prop where
  | live {slot : Slot} (there : r.slots[location]? = some slot) : Opens r location slot r.made
  | made {a : Allocator} (absent : r.slots[location]? = none)
    (makes : r.factory location = .ok a) : Opens r location ⟨r.made, a, 0⟩ (r.made + 1)

/-- Everything a registration can come to. -/
inductive Registering (r : Registry) (location id : String) (size : UInt64) :
    Except Failure Unit × Registry → Prop where
  | unmade {e : Failure} (absent : r.slots[location]? = none)
    (fails : r.factory location = .error e) : Registering r location id size (.error e, r)
  | accepted {slot : Slot} {made : Nat} (opens : r.Opens location slot made)
    (accepts : (slot.allocator.register id size).1 = .ok ()) :
    Registering r location id size (.ok (), { r with made }.setSlot location
      { slot with live := slot.live + 1, allocator := (slot.allocator.register id size).2 })
  | refused {slot : Slot} {made : Nat} (opens : r.Opens location slot made)
    (refuses : (slot.allocator.register id size).1 = .error (.duplicateEntry id)) :
    Registering r location id size (.error (.duplicateEntry id),
      { r with made }.release location { slot with live := slot.live + 1 })

theorem slotFor_opens (r : Registry) (location : String) :
    (∃ e, r.slotFor location = .error e ∧ r.slots[location]? = none ∧
        r.factory location = .error e) ∨
      ∃ slot made, r.slotFor location = .ok (slot, { r with made }) ∧
        r.Opens location slot made := by
  unfold slotFor
  cases hslot : r.slots[location]? with
  | some slot => exact .inr ⟨slot, r.made, rfl, .live hslot⟩
  | none =>
    cases hmade : r.factory location with
    | error e => exact .inl ⟨e, rfl, rfl, rfl⟩
    | ok a => exact .inr ⟨_, _, rfl, .made hslot hmade⟩

theorem registering (r : Registry) (location id : String) (size : UInt64) :
    r.Registering location id size (r.register location id size) := by
  unfold register
  rcases r.slotFor_opens location with ⟨e, hslot, habsent, hfails⟩ | ⟨slot, made, hslot, hopens⟩
  · rw [hslot]
    exact .unmade habsent hfails
  · rw [hslot]
    simp only
    rcases hx : slot.allocator.register id size with ⟨e | _, a⟩
    · obtain ⟨rfl, hsame⟩ := register_of_error (congrArg Prod.fst hx)
      rw [hx] at hsame
      cases hsame
      exact .refused hopens (congrArg Prod.fst hx)
    · have haccepted := Registering.accepted hopens (congrArg Prod.fst hx)
      rwa [hx] at haccepted

/-- A live location answers a registration as its allocator does. -/
theorem register_answer {r : Registry} {location : String} {slot : Slot}
    (there : r.slots[location]? = some slot) (id : String) (size : UInt64) :
    (r.register location id size).1 = (slot.allocator.register id size).1 := by
  unfold register slotFor
  rw [there]
  simp only
  rcases slot.allocator.register id size with ⟨e | _, a⟩ <;> rfl

/-- Every slot there is counts something. -/
def Counts (r : Registry) : Prop :=
  ∀ (location : String) slot, r.slots[location]? = some slot → 1 ≤ slot.live

theorem slots_new (factory : String → Except Failure Allocator) (location : String) :
    (Registry.new factory).slots[location]? = none := Std.TreeMap.getElem?_emptyc

theorem counts_new (factory : String → Except Failure Allocator) : (Registry.new factory).Counts :=
  fun location slot hslot => by cases (slots_new factory location).symm.trans hslot

/-- A refusal leaves every slot as it was: one that was there before counts something else, so
lowering its count again does not end it, and one just made for nothing does not stay. -/
theorem slots_refused {r : Registry} (hcounts : r.Counts) {location : String} {slot : Slot}
    {made : Nat} (opens : r.Opens location slot made) (other : String) :
    ({ r with made }.release location { slot with live := slot.live + 1 }).slots[other]? =
      r.slots[other]? := by
  rw [slots_release]
  split
  · next ho =>
    rw [ho]
    cases opens with
    | live there =>
      have := hcounts location slot there
      rw [there, Nat.add_sub_cancel, if_neg (by omega)]
    | made absent makes =>
      rw [absent]
      rfl
  · rfl

/-! ### Removal -/

/-- Everything a removal can come to. -/
inductive Unregistering (r : Registry) (location id : String) :
    Except Failure Unit × Registry → Prop where
  | absent (absent : r.slots[location]? = none) :
    Unregistering r location id (.error (.unknownLocation location), r)
  | accepted {slot : Slot} (there : r.slots[location]? = some slot)
    (accepts : (slot.allocator.unregister id).1 = .ok ()) :
    Unregistering r location id (.ok (),
      r.release location { slot with allocator := (slot.allocator.unregister id).2 })
  | refused {slot : Slot} {e : Failure} (there : r.slots[location]? = some slot)
    (refuses : (slot.allocator.unregister id).1 = .error e) :
    Unregistering r location id (.error e,
      r.setSlot location { slot with allocator := (slot.allocator.unregister id).2 })

theorem unregistering (r : Registry) (location id : String) :
    r.Unregistering location id (r.unregister location id) := by
  unfold unregister
  cases hslot : r.slots[location]? with
  | none => exact .absent hslot
  | some slot =>
    simp only
    rcases hx : slot.allocator.unregister id with ⟨e | _, a⟩
    · have hrefused := Unregistering.refused hslot (congrArg Prod.fst hx)
      rwa [hx] at hrefused
    · have haccepted := Unregistering.accepted hslot (congrArg Prod.fst hx)
      rwa [hx] at haccepted

/-- A live location answers a removal as its allocator does. -/
theorem unregister_answer {r : Registry} {location : String} {slot : Slot}
    (there : r.slots[location]? = some slot) (id : String) :
    (r.unregister location id).1 = (slot.allocator.unregister id).1 := by
  unfold unregister
  rw [there]
  simp only
  rcases slot.allocator.unregister id with ⟨e | _, a⟩ <;> rfl

/-! ### What goes on -/

/-- A later registry: allocators made are not made again and are still there when their
locations have ended. -/
structure Continues (r r' : Registry) : Prop where
  factory : r'.factory = r.factory
  made : r.made ≤ r'.made
  retired : ∀ number ∈ r.retired, number ∈ r'.retired

section Continues
variable {r r' r'' : Registry}

theorem Continues.refl (r : Registry) : r.Continues r := ⟨rfl, Nat.le_refl _, fun _ h => h⟩

theorem Continues.trans (h : r.Continues r') (h' : r'.Continues r'') : r.Continues r'' :=
  ⟨h'.factory.trans h.factory, Nat.le_trans h.made h'.made,
    fun number hn => h'.retired number (h.retired number hn)⟩

theorem continues_setSlot (r : Registry) (location : String) (slot : Slot) :
    r.Continues (r.setSlot location slot) := ⟨rfl, Nat.le_refl _, fun _ h => h⟩

theorem continues_release (r : Registry) (location : String) (slot : Slot) :
    r.Continues (r.release location slot) := by
  unfold release
  split
  · exact ⟨rfl, Nat.le_refl _, fun _ h => Std.HashMap.mem_insert.2 (.inr h)⟩
  · exact continues_setSlot ..

theorem Opens.continues {location : String} {slot : Slot} {made : Nat}
    (h : r.Opens location slot made) : r.Continues { r with made } := by
  refine ⟨rfl, ?_, fun _ h => h⟩
  cases h with
  | live there => exact Nat.le_refl _
  | made absent makes => exact Nat.le_succ _

theorem continues_register (r : Registry) (location id : String) (size : UInt64) :
    r.Continues (r.register location id size).2 := by
  have h := r.registering location id size
  generalize r.register location id size = out at h ⊢
  cases h with
  | unmade absent fails => exact .refl r
  | accepted opens accepts => exact opens.continues.trans (continues_setSlot ..)
  | refused opens refuses => exact opens.continues.trans (continues_release ..)

theorem continues_unregister (r : Registry) (location id : String) :
    r.Continues (r.unregister location id).2 := by
  have h := r.unregistering location id
  generalize r.unregister location id = out at h ⊢
  cases h with
  | absent absent => exact .refl r
  | accepted there accepts => exact continues_release ..
  | refused there refuses => exact continues_setSlot ..

end Continues

/-! ### The same slots with other allocators -/

/-- The slot is the same, except that calls of a kind have changed its allocator. -/
inductive Refit (P : Call → Prop) : Option Slot → Option Slot → Prop where
  | absent : Refit P none none
  | there {slot : Slot} {a : Allocator} (leads : slot.allocator.Leads P a) :
    Refit P (some slot) (some { slot with allocator := a })

/-- A later registry with the same slots, except that calls of a kind have changed their
allocators. -/
structure Refits (P : Call → Prop) (r r' : Registry) : Prop extends Continues r r' where
  slots : ∀ location : String, Refit P r.slots[location]? r'.slots[location]?

section Refits
variable {P : Call → Prop} {r r' r'' : Registry}

theorem Refit.refl (slot : Option Slot) : Refit P slot slot := by
  cases slot with
  | none => exact .absent
  | some slot => exact .there (.refl P slot.allocator)

theorem Refit.trans {a b c : Option Slot} (hab : Refit P a b) (hbc : Refit P b c) :
    Refit P a c := by
  cases hab with
  | absent => exact hbc
  | there leads =>
    cases hbc with
    | there leads' => exact .there (leads.trans leads')

theorem Refits.refl (r : Registry) : Refits P r r :=
  ⟨.refl r, fun _ => .refl _⟩

theorem Refits.trans (h : Refits P r r') (h' : Refits P r' r'') : Refits P r r'' :=
  ⟨h.toContinues.trans h'.toContinues, fun location => (h.slots location).trans (h'.slots location)⟩

/-- Calls on the allocator of one slot. -/
theorem refits_setSlot {location : String} {slot : Slot} {a : Allocator}
    (there : r.slots[location]? = some slot) (leads : slot.allocator.Leads P a) :
    Refits P r (r.setSlot location { slot with allocator := a }) where
  toContinues := continues_setSlot ..
  slots other := by
    rw [slots_setSlot]
    split
    · next ho =>
      rw [ho, there]
      exact .there leads
    · exact .refl _

theorem refits_allocate (r : Registry) (location : String) (available : UInt64)
    (h : P (.request (.allocate available))) : Refits P r (r.allocate location available).2 := by
  unfold allocate
  cases hslot : r.slots[location]? with
  | none => exact .refl r
  | some slot => exact refits_setSlot hslot (.one h slot.allocator)

theorem refits_cycleEach (r : Registry) (coordinator : Coordinator) (published : Nat)
    (locations : List String) (h : P (.cycle coordinator)) :
    Refits P r (r.cycleEach coordinator published locations).2 := by
  induction locations generalizing r published with
  | nil => exact .refl r
  | cons location rest ih =>
    cases hslot : r.slots[location]? with
    | none =>
      rw [cycleEach_of_none hslot]
      exact ih r published
    | some slot =>
      have hone : slot.allocator.Leads P (slot.allocator.cycle coordinator).2 :=
        .one h slot.allocator
      rcases hx : slot.allocator.cycle coordinator with ⟨e | generation, a⟩
      · rw [hx] at hone
        rw [cycleEach_of_error hslot hx]
        exact refits_setSlot hslot hone
      · rw [hx] at hone
        rw [cycleEach_of_ok hslot hx]
        exact (refits_setSlot hslot hone).trans (ih _ _)

theorem refits_tick (r : Registry) (coordinator : Coordinator) (h : P (.tick coordinator)) :
    Refits P r (r.tick coordinator) where
  toContinues := ⟨rfl, Nat.le_refl _, fun _ h => h⟩
  slots location := by
    unfold Registry.tick
    rw [Std.TreeMap.getElem?_map]
    cases r.slots[location]? with
    | none => exact .absent
    | some slot => exact .there (.one h slot.allocator)

theorem act_of_live {handle : Handle} {slot : Slot} {α : Type}
    (there : r.slots[handle.location]? = some slot) (same : slot.number = handle.number)
    (f : Allocator → α × Allocator) :
    r.act handle f = (some (f slot.allocator).1,
      r.setSlot handle.location { slot with allocator := (f slot.allocator).2 }) := by
  unfold act
  rw [there, Option.filter_some, if_pos (decide_eq_true same)]

/-- Acting on the allocator of a handle, live or retired. -/
theorem refits_act (r : Registry) (handle : Handle) {α : Type} {f : Allocator → α × Allocator}
    (h : ∀ a, Leads P a (f a).2) : Refits P r (r.act handle f).2 := by
  unfold act
  simp only
  split
  · next slot hlive =>
    exact refits_setSlot (Option.filter_eq_some_iff.1 hlive).1 (h slot.allocator)
  · exact ⟨⟨rfl, Nat.le_refl _, fun _ h => Std.HashMap.mem_insert.2 (.inr h)⟩, fun _ => .refl _⟩
  · exact .refl r

end Refits
end EdgePlacement.Registry

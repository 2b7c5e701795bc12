import EdgePlacement.Network.Registry

/-!
A registry location by location.

What a registry has at a location is a site: an allocator and a live count, or nothing. A
call for a location is answered from its site, and from what the factory makes for the
location where the site is empty; it changes that site and no other (`ActsAt`). A round of
cycles takes the locations in turn and may stop early, so what it does to a site is not told
by the site alone. -/
namespace EdgePlacement

/-- What there is at a location: an allocator with its live count, or nothing. -/
abbrev Site := Option (Allocator × Nat)

namespace Site

/-- The size of an entry at a site. -/
def bytes? (site : Site) (id : String) : Option UInt64 := site.bind fun (a, _) => a.bytes? id

/-- The live count of a site, 0 where there is none. -/
def live (site : Site) : Nat := (site.map (·.2)).getD 0

/-- A site with its live count lowered; it ends at zero. -/
def release (a : Allocator) (live : Nat) : Site :=
  if live - 1 = 0 then none else some (a, live - 1)

/-- The allocator of a site and its live count, with `made` where the site is empty. -/
def opened (site : Site) (made : Except Failure Allocator) : Except Failure (Allocator × Nat) :=
  match site with
  | some (a, live) => .ok (a, live)
  | none => made.map fun a => (a, 0)

def register (site : Site) (made : Except Failure Allocator) (id : String) (size : UInt64) :
    Except Failure Unit × Site :=
  match site.opened made with
  | .error e => (.error e, site)
  | .ok (a, live) =>
    match a.register id size with
    | (.ok _, a) => (.ok (), some (a, live + 1))
    | (.error e, a) => (.error e, release a (live + 1))

def unregister (site : Site) (location id : String) : Except Failure Unit × Site :=
  match site with
  | none => (.error (.unknownLocation location), none)
  | some (a, live) =>
    match a.unregister id with
    | (.ok _, a) => (.ok (), release a live)
    | (.error e, a) => (.error e, some (a, live))

def allocate (site : Site) (location : String) (available : UInt64) :
    Except Failure (List String) × Site :=
  match site with
  | none => (.error (.unknownLocation location), none)
  | some (a, live) => (.ok (a.allocate available).1, some ((a.allocate available).2, live))

/-- One cycle of the allocator, if there is one. -/
def cycle (site : Site) (coordinator : Coordinator) : Site :=
  site.map fun (a, live) => ((a.cycle coordinator).2, live)

/-- One background cycle of the allocator, if it runs in the background. -/
def tick (site : Site) (coordinator : Coordinator) : Site :=
  site.map fun (a, live) => (a.tick coordinator, live)

end Site

namespace Registry

def site (r : Registry) (location : String) : Site :=
  r.slots[location]?.map fun slot => (slot.allocator, slot.live)

theorem site_of_none {r : Registry} {location : String} (h : r.slots[location]? = none) :
    r.site location = none := by
  unfold site
  rw [h]
  rfl

theorem site_of_some {r : Registry} {location : String} {slot : Slot}
    (h : r.slots[location]? = some slot) : r.site location = some (slot.allocator, slot.live) := by
  unfold site
  rw [h]
  rfl

theorem site_new (factory : String → Except Failure Allocator) (location : String) :
    (new factory).site location = none := by
  simp [new, site]

/-! ### Looking -/

theorem allocator?_eq (r : Registry) (location : String) :
    r.allocator? location = (r.site location).map (·.1) := by
  unfold allocator? site
  rw [Option.map_map]
  rfl

theorem live_eq (r : Registry) (location : String) :
    r.live location = ((r.site location).map (·.2)).getD 0 := by
  unfold live site
  rw [Option.map_map]
  rfl

theorem mem_locations_iff (r : Registry) (location : String) :
    location ∈ r.locations ↔ (r.site location).isSome = true := by
  unfold locations site
  rw [Std.TreeMap.mem_keys, Option.isSome_map, Std.TreeMap.isSome_getElem?_iff_mem]

theorem nodup_locations (r : Registry) : r.locations.Nodup := Std.TreeMap.nodup_keys

theorem compare_eq_lt_iff {a b : String} : compare a b = .lt ↔ a < b := by
  rw [show compare a b = compareOfLessAndEq a b from rfl]
  exact compareOfLessAndEq_eq_lt

theorem pairwise_locations (r : Registry) : r.locations.Pairwise (· < ·) :=
  Std.TreeMap.ordered_keys.imp compare_eq_lt_iff.1

theorem length_locations (r : Registry) : r.locations.length = r.size := Std.TreeMap.length_keys

theorem isEmpty_eq (r : Registry) : r.isEmpty = (r.size == 0) :=
  Std.TreeMap.isEmpty_eq_size_eq_zero

/-! ### Changing one slot -/

theorem slots_setSlot (r : Registry) (location : String) (slot : Slot) (other : String) :
    (r.setSlot location slot).slots[other]? =
      if other = location then some slot else r.slots[other]? := by
  unfold setSlot
  simp only [Std.TreeMap.getElem?_insert, Std.compare_eq_iff_eq, eq_comm (a := location)]

theorem slots_release (r : Registry) (location : String) (slot : Slot) (other : String) :
    (r.release location slot).slots[other]? =
      if other = location then
        if slot.live - 1 = 0 then none else some { slot with live := slot.live - 1 }
      else r.slots[other]? := by
  unfold release
  by_cases hzero : slot.live - 1 = 0
  · simp only [if_pos hzero, Std.TreeMap.getElem?_erase, Std.compare_eq_iff_eq,
      eq_comm (a := location)]
  · simp only [if_neg hzero, slots_setSlot]

theorem site_setSlot (r : Registry) (location : String) (slot : Slot) (other : String) :
    (r.setSlot location slot).site other =
      if other = location then some (slot.allocator, slot.live) else r.site other := by
  unfold site
  rw [slots_setSlot]
  split <;> rfl

theorem site_release (r : Registry) (location : String) (slot : Slot) (other : String) :
    (r.release location slot).site other =
      if other = location then .release slot.allocator slot.live else r.site other := by
  unfold site Site.release
  rw [slots_release]
  split
  · split <;> rfl
  · rfl

@[simp] theorem factory_release (r : Registry) (location : String) (slot : Slot) :
    (r.release location slot).factory = r.factory := by
  unfold release
  split <;> rfl

/-! ### Calls -/

/-- A call is answered as at the site of its location, and changes that site only. -/
structure ActsAt {α : Type} (r : Registry) (location : String) (call : α × Registry)
    (here : α × Site) : Prop where
  answer : call.1 = here.1
  site : ∀ other, call.2.site other = if other = location then here.2 else r.site other
  factory : call.2.factory = r.factory

section ActsAt
variable {r : Registry} {location : String} {α β : Type}

/-- A call that changes nothing. -/
theorem ActsAt.of_same {here : Site} (h : r.site location = here) (answer : α) :
    ActsAt r location (answer, r) (answer, here) where
  answer := rfl
  site other := by
    split
    · next heq => rw [heq, h]
    · rfl
  factory := rfl

variable {call : α × Registry} {here : α × Site}

theorem ActsAt.map (h : ActsAt r location call here) (f : α → β) :
    ActsAt r location (f call.1, call.2) (f here.1, here.2) where
  answer := congrArg f h.answer
  site := h.site
  factory := h.factory

theorem ActsAt.site_here (h : ActsAt r location call here) : call.2.site location = here.2 := by
  rw [h.site, if_pos rfl]

theorem ActsAt.site_other (h : ActsAt r location call here) {other : String}
    (hother : other ≠ location) : call.2.site other = r.site other := by
  rw [h.site, if_neg hother]

end ActsAt

section Calls
variable (r : Registry) (location : String)

/-- Everything opening a slot can do: it fails where the factory fails, and else yields what
is at the site or was made for it, and all it does to the registry is to count it. -/
theorem slotFor_cases :
    (∃ e, r.slotFor location = .error e ∧
        (r.site location).opened (r.factory location) = .error e) ∨
      ∃ slot made, r.slotFor location = .ok (slot, { r with made := made }) ∧
        (r.site location).opened (r.factory location) = .ok (slot.allocator, slot.live) := by
  unfold slotFor site Site.opened
  cases r.slots[location]? with
  | some slot => exact .inr ⟨slot, r.made, rfl, rfl⟩
  | none =>
    cases r.factory location with
    | error e => exact .inl ⟨e, rfl, rfl⟩
    | ok a => exact .inr ⟨⟨r.made, a, 0⟩, r.made + 1, rfl, rfl⟩

theorem acts_register (id : String) (size : UInt64) :
    ActsAt r location (r.register location id size)
      ((r.site location).register (r.factory location) id size) := by
  unfold register Site.register
  rcases r.slotFor_cases location with ⟨e, hslot, hopen⟩ | ⟨slot, made, hslot, hopen⟩
  · rw [hslot, hopen]
    exact .of_same rfl _
  · rw [hslot, hopen]
    simp only
    rcases slot.allocator.register id size with ⟨_ | _, a⟩
    · exact ⟨rfl, site_release _ _ _, factory_release _ _ _⟩
    · exact ⟨rfl, site_setSlot _ _ _, rfl⟩

theorem acts_unregister (id : String) :
    ActsAt r location (r.unregister location id)
      ((r.site location).unregister location id) := by
  unfold unregister
  cases hs : r.slots[location]? with
  | none =>
    rw [site_of_none hs]
    exact .of_same (site_of_none hs) _
  | some slot =>
    rw [site_of_some hs]
    simp only [Site.unregister]
    rcases slot.allocator.unregister id with ⟨_ | _, a⟩
    · exact ⟨rfl, site_setSlot _ _ _, rfl⟩
    · exact ⟨rfl, site_release _ _ _, factory_release _ _ _⟩

theorem acts_allocate (available : UInt64) :
    ActsAt r location (r.allocate location available)
      ((r.site location).allocate location available) := by
  unfold allocate
  cases hs : r.slots[location]? with
  | none =>
    rw [site_of_none hs]
    exact .of_same (site_of_none hs) _
  | some slot =>
    rw [site_of_some hs]
    exact ⟨rfl, site_setSlot _ _ _, rfl⟩

end Calls

/-! ### Cycles -/

section Cycles
variable {r : Registry} {coordinator : Coordinator} {location : String} {slot : Slot}
  {a : Allocator}

theorem cycleEach_of_none (h : r.slots[location]? = none) (published : Nat)
    (rest : List String) : r.cycleEach coordinator published (location :: rest) =
      r.cycleEach coordinator published rest := by
  rw [cycleEach, h]

/-- A cycle that fails ends the round. -/
theorem cycleEach_of_error {e : Failure} (h : r.slots[location]? = some slot)
    (hcycle : slot.allocator.cycle coordinator = (.error e, a)) (published : Nat)
    (rest : List String) : r.cycleEach coordinator published (location :: rest) =
      (.error e, r.setSlot location { slot with allocator := a }) := by
  rw [cycleEach, h]
  simp only [hcycle]

theorem cycleEach_of_ok {generation : Option UInt64} (h : r.slots[location]? = some slot)
    (hcycle : slot.allocator.cycle coordinator = (.ok generation, a)) (published : Nat)
    (rest : List String) : r.cycleEach coordinator published (location :: rest) =
      (r.setSlot location { slot with allocator := a }).cycleEach coordinator
        (if generation.isSome then published + 1 else published) rest := by
  rw [cycleEach, h]
  simp only [hcycle]

/-- A round that passes a live location has cycled its site, failed or not. -/
theorem site_setSlot_cycle {answer : Except Failure (Option UInt64)}
    (h : r.slots[location]? = some slot)
    (hcycle : slot.allocator.cycle coordinator = (answer, a)) (other : String) :
    (r.setSlot location { slot with allocator := a }).site other =
      if other = location then (r.site location).cycle coordinator else r.site other := by
  rw [site_setSlot, site_of_some h]
  simp only [Site.cycle, Option.map_some, hcycle]

theorem site_tick (r : Registry) (coordinator : Coordinator) (location : String) :
    (r.tick coordinator).site location = (r.site location).tick coordinator := by
  unfold Registry.tick site Site.tick
  rw [Std.TreeMap.getElem?_map, Option.map_map, Option.map_map]
  rfl

end Cycles
end Registry
end EdgePlacement

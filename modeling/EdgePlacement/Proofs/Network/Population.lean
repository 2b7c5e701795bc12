import Mathlib.Data.Finmap
import EdgePlacement.Proofs.Network.Occupancy

/-!
A registry is a map from locations to sets of ids.

A `Population` has the ids registered at each location, and only locations that have any. It
follows from the calls alone, given for which locations an allocator can be made: a
registration adds an id, a removal clears one, and the rest changes nothing. Everything a
registry answers about what it holds, and every call it refuses, is told by the population
that its calls amount to (`Registry.Shows`, `population_shown`). -/
namespace EdgePlacement

/-- The ids at each location; a location without ids is not among the keys. -/
abbrev Population := Finmap fun _ : String => Finset String

namespace Population

/-- The ids at a location, none if it is absent. -/
def ids (m : Population) (location : String) : Finset String := (m.lookup location).getD ∅

/-- The population with other ids at a location, which is absent if there are none. -/
def put (m : Population) (location : String) (ids : Finset String) : Population :=
  if ids = ∅ then m.erase location else m.insert location ids

/-- A registration adds an id where its location is present or an allocator can be made for
it, a removal clears one, and no other event changes who is there. -/
def next (factory : String → Except Failure Allocator) (m : Population) : Event → Population
  | .register location id _ =>
    if location ∈ m ∨ (factory location).isOk then
      m.put location (insert id (m.ids location))
    else m
  | .unregister location id => m.put location ((m.ids location).erase id)
  | .allocate .. => m
  | .cycle _ => m
  | .change _ => m

/-- What events amount to at locations that were all absent before them. -/
def after (factory : String → Except Failure Allocator) (events : List Event) : Population :=
  events.foldl (next factory) ∅

/-- No location is present without ids. -/
def Proper (m : Population) : Prop :=
  ∀ location ids, m.lookup location = some ids → ids.Nonempty

theorem ids_empty (location : String) : ids ∅ location = ∅ := by
  unfold ids
  rw [Finmap.lookup_empty]
  rfl

theorem proper_empty : Proper ∅ := by
  intro location ids h
  rw [Finmap.lookup_empty] at h
  cases h

section Put
variable (m : Population) (location : String) (ids : Finset String)

theorem lookup_put (other : String) : (m.put location ids).lookup other =
    if other = location then if ids = ∅ then none else some ids else m.lookup other := by
  unfold put
  by_cases ho : other = location
  · subst ho
    rw [if_pos rfl]
    split
    · exact Finmap.lookup_erase other m
    · exact Finmap.lookup_insert m
  · rw [if_neg ho]
    split
    · exact Finmap.lookup_erase_ne ho
    · exact Finmap.lookup_insert_of_ne m ho

theorem ids_put (other : String) :
    (m.put location ids).ids other = if other = location then ids else m.ids other := by
  unfold Population.ids
  rw [lookup_put]
  split
  · split
    · next hempty => exact hempty.symm
    · rfl
  · rfl

end Put

variable {m : Population}

theorem Proper.put (h : m.Proper) (location : String) (ids : Finset String) :
    (m.put location ids).Proper := by
  intro other found hfound
  rw [lookup_put] at hfound
  split at hfound
  · split at hfound
    · cases hfound
    · next hne =>
      cases hfound
      exact Finset.nonempty_iff_ne_empty.2 hne
  · exact h other found hfound

/-- The locations present are those with ids. -/
theorem Proper.mem_iff (h : m.Proper) {location : String} :
    location ∈ m ↔ (m.ids location).Nonempty := by
  rw [← Finmap.lookup_isSome]
  unfold ids
  cases hl : m.lookup location with
  | none => simp
  | some found => simpa using h location found hl

theorem Proper.put_ids (h : m.Proper) (location : String) :
    m.put location (m.ids location) = m := by
  apply Finmap.ext_lookup
  intro other
  rw [lookup_put]
  split
  · next ho =>
    subst ho
    unfold ids
    cases hl : m.lookup other with
    | none => rfl
    | some found => exact if_neg (Finset.nonempty_iff_ne_empty.1 (h other found hl))
  · rfl

end Population

namespace Registry

/-! ### Following the population -/

/-- The registry's sites hold the ids of the population, and allocators made for it are new
ones. -/
structure Populated (key : String) (r : Registry) (m : Population) : Prop where
  occupied : r.Occupied key m.ids
  proper : m.Proper
  makes : ∀ location a, r.factory location = .ok a → a.New key

section Populated
variable {key : String} {r : Registry} {m : Population}

theorem populated_new {factory : String → Except Failure Allocator}
    (hmakes : ∀ location a, factory location = .ok a → a.New key) :
    (new factory).Populated key ∅ where
  occupied location := by
    rw [Population.ids_empty]
    exact occupied_new key factory location
  proper := Population.proper_empty
  makes := hmakes

/-- An absent location has no site and no ids; at a present one the live count is the number
of the ids, and the allocator keeps these. -/
theorem Populated.site_cases (h : r.Populated key m) (location : String) :
    (location ∉ m ∧ r.site location = none ∧ m.ids location = ∅) ∨
      (location ∈ m ∧ ∃ a, r.site location = some (a, (m.ids location).card) ∧
        a.Keeps key (m.ids location)) := by
  have hmem : location ∈ m ↔ (m.ids location).Nonempty := h.proper.mem_iff
  have hholds := h.occupied location
  generalize r.site location = site at hholds ⊢
  generalize m.ids location = ids at hholds hmem ⊢
  cases hholds with
  | empty => exact .inl ⟨fun hm => Finset.not_nonempty_empty (hmem.1 hm), rfl, rfl⟩
  | @live a ids nonempty keeps => exact .inr ⟨hmem.2 nonempty, a, rfl, keeps⟩

/-- The locations present are the live ones. -/
theorem Populated.isSome_site_iff (h : r.Populated key m) (location : String) :
    (r.site location).isSome = true ↔ location ∈ m := by
  obtain ⟨hm, hsite, -⟩ | ⟨hm, a, hsite, -⟩ := h.site_cases location
  · simp [hm, hsite]
  · simp [hm, hsite]

theorem Populated.acts (h : r.Populated key m) {α : Type} {location : String}
    {call : α × Registry} {here : α × Site} (hacts : ActsAt r location call here)
    {ids : Finset String} (hhere : here.2.Holds key ids) :
    call.2.Populated key (m.put location ids) where
  occupied other := by
    rw [hacts.site, Population.ids_put]
    split
    · exact hhere
    · exact h.occupied other
  proper := h.proper.put location ids
  makes := by
    rw [hacts.factory]
    exact h.makes

/-- A call that leaves the ids of its location leaves the population. -/
theorem Populated.acts_same (h : r.Populated key m) {α : Type} {location : String}
    {call : α × Registry} {here : α × Site} (hacts : ActsAt r location call here)
    (hhere : here.2.Holds key (m.ids location)) : call.2.Populated key m := by
  have hput := h.acts hacts hhere
  rwa [h.proper.put_ids] at hput

/-- A site can be opened if its location is present or an allocator can be made for it. -/
theorem Populated.isOk_opened_iff (h : r.Populated key m) (location : String) :
    ((r.site location).opened (r.factory location)).isOk = true ↔
      location ∈ m ∨ (r.factory location).isOk = true := by
  obtain ⟨hm, hsite, -⟩ | ⟨hm, a, hsite, -⟩ := h.site_cases location
  · rw [hsite, or_iff_right hm]
    cases r.factory location <;> rfl
  · rw [hsite]
    exact iff_of_true rfl (.inl hm)

theorem Populated.keeps_made (h : r.Populated key m) (location : String) (a : Allocator)
    (hmade : r.factory location = .ok a) : a.Keeps key ∅ :=
  Allocator.keeps_new (h.makes location a hmade)

/-- One event keeps a registry and the population together. -/
theorem populated_perform {s : Service} (h : s.registry.Populated key m) (event : Event) :
    (s.perform event).2.registry.Populated key (m.next s.registry.factory event) ∧
      (s.perform event).2.registry.factory = s.registry.factory := by
  cases event with
  | register location id size =>
    have hacts := s.registry.acts_register location id size
    refine ⟨?_, hacts.factory⟩
    obtain ⟨-, hholds⟩ := (h.occupied location).register (h.keeps_made location) id size
    simp only [Population.next]
    by_cases hopen : location ∈ m ∨ (s.registry.factory location).isOk = true
    · rw [if_pos ((h.isOk_opened_iff location).2 hopen)] at hholds
      rw [if_pos hopen]
      exact h.acts hacts hholds
    · rw [if_neg fun hok => hopen ((h.isOk_opened_iff location).1 hok)] at hholds
      rw [if_neg hopen]
      exact h.acts_same hacts hholds
  | unregister location id =>
    have hacts := s.registry.acts_unregister location id
    obtain ⟨-, hholds⟩ := (h.occupied location).unregister location id
    exact ⟨h.acts hacts hholds, hacts.factory⟩
  | allocate location available =>
    have hacts := s.registry.acts_allocate location available
    have hholds := (h.occupied location).allocate location available
    exact ⟨h.acts_same hacts hholds, hacts.factory⟩
  | cycle order =>
    have hfactory := s.registry.factory_cycleIn order s.coordinator
    refine ⟨⟨fun location => ?_, h.proper, ?_⟩, hfactory⟩
    · show Site.Holds key ((s.registry.cycleIn order s.coordinator).2.site location) _
      rw [h.occupied.site_cycleIn]
      exact (h.occupied location).cycle s.coordinator
    · show ∀ location a, (s.registry.cycleIn order s.coordinator).2.factory location = .ok a → _
      rw [hfactory]
      exact h.makes
  | change coordinator => exact ⟨h, rfl⟩

/-- A run keeps them together. -/
theorem populated_after {s : Service} (h : s.registry.Populated key m) (events : List Event) :
    (s.after events).registry.Populated key
        (events.foldl (Population.next s.registry.factory) m) ∧
      (s.after events).registry.factory = s.registry.factory := by
  induction events generalizing s m with
  | nil => exact ⟨h, rfl⟩
  | cons event rest ih =>
    obtain ⟨hnext, hfactory⟩ := populated_perform h event
    obtain ⟨hrest, hsame⟩ := ih hnext
    rw [hfactory] at hrest hsame
    exact ⟨hrest, hsame⟩

/-- A registry in use from the start has the population that the events amount to. -/
theorem Built.populated (hr : r.Built) (coordinator : Coordinator) (events : List Event) :
    ∃ key, (Service.after ⟨r, coordinator⟩ events).registry.Populated key
        (Population.after r.factory events) ∧
      (Service.after ⟨r, coordinator⟩ events).registry.factory = r.factory := by
  obtain ⟨factory, key, rfl, hmakes⟩ := hr.factory
  exact ⟨key, populated_after (s := ⟨new factory, coordinator⟩) (populated_new hmakes) events⟩

end Populated

/-! ### Showing the population -/

/-- What a registry answers, calls it refuses included, is told by a population. -/
structure Shows (r : Registry) (m : Population) : Prop where
  register : ∀ location id size, (r.register location id size).1 =
    if id ∈ m.ids location then .error (.duplicateEntry id)
    else if location ∈ m then .ok ()
    else (r.factory location).map fun _ => ()
  unregister : ∀ location id, (r.unregister location id).1 =
    if id ∈ m.ids location then .ok ()
    else if location ∈ m then .error (.notFound id)
    else .error (.unknownLocation location)
  allocate : ∀ location available,
    if location ∈ m then ∃ ids, (r.allocate location available).1 = .ok ids
    else (r.allocate location available).1 = .error (.unknownLocation location)
  /-- The locations are listed in strictly ascending order. -/
  ascending : r.locations.Pairwise (· < ·)
  locations : ∀ location, location ∈ r.locations ↔ location ∈ m
  live : ∀ location, r.live location = (m.ids location).card
  allocator : ∀ location, (r.allocator? location).map (·.size) =
    if location ∈ m then some (m.ids location).card else none
  size : r.size = m.keys.card
  isEmpty : r.isEmpty = true ↔ m = ∅

section Shows
variable {key : String} {r : Registry} {m : Population}

theorem Populated.shows_register (h : r.Populated key m) (location id : String)
    (size : UInt64) : (r.register location id size).1 =
      if id ∈ m.ids location then .error (.duplicateEntry id)
      else if location ∈ m then .ok ()
      else (r.factory location).map fun _ => () := by
  rw [(r.acts_register location id size).answer,
    ((h.occupied location).register (h.keeps_made location) id size).1]
  congr 1
  obtain ⟨hm, hsite, -⟩ | ⟨hm, a, hsite, -⟩ := h.site_cases location
  · rw [if_neg hm, hsite]
    cases r.factory location <;> rfl
  · rw [if_pos hm, hsite]
    rfl

theorem Populated.shows_unregister (h : r.Populated key m) (location id : String) :
    (r.unregister location id).1 =
      if id ∈ m.ids location then .ok ()
      else if location ∈ m then .error (.notFound id)
      else .error (.unknownLocation location) := by
  rw [(r.acts_unregister location id).answer, ((h.occupied location).unregister location id).1]
  obtain ⟨hm, hsite, hids⟩ | ⟨hm, a, hsite, -⟩ := h.site_cases location
  · rw [hsite, hids, if_neg (Finset.notMem_empty id), if_neg hm]
    rfl
  · rw [hsite, if_pos hm]
    rfl

theorem Populated.shows_allocate (h : r.Populated key m) (location : String)
    (available : UInt64) :
    if location ∈ m then ∃ ids, (r.allocate location available).1 = .ok ids
    else (r.allocate location available).1 = .error (.unknownLocation location) := by
  rw [(r.acts_allocate location available).answer]
  obtain ⟨hm, hsite, -⟩ | ⟨hm, a, hsite, -⟩ := h.site_cases location
  · rw [if_neg hm, hsite]
    rfl
  · rw [if_pos hm, hsite]
    exact ⟨_, rfl⟩

theorem Populated.shows_locations (h : r.Populated key m) (location : String) :
    location ∈ r.locations ↔ location ∈ m := by
  rw [r.mem_locations_iff, h.isSome_site_iff]

theorem Populated.shows_live (h : r.Populated key m) (location : String) :
    r.live location = (m.ids location).card := by
  rw [r.live_eq]
  obtain ⟨-, hsite, hids⟩ | ⟨-, a, hsite, -⟩ := h.site_cases location
  · rw [hsite, hids]
    rfl
  · rw [hsite]
    rfl

theorem Populated.shows_allocator (h : r.Populated key m) (location : String) :
    (r.allocator? location).map (·.size) =
      if location ∈ m then some (m.ids location).card else none := by
  rw [r.allocator?_eq]
  obtain ⟨hm, hsite, -⟩ | ⟨hm, a, hsite, hkeeps⟩ := h.site_cases location
  · rw [hsite, if_neg hm]
    rfl
  · rw [hsite, if_pos hm]
    exact congrArg some hkeeps.size_eq

/-- The locations listed are the keys, each once. -/
theorem Populated.shows_size (h : r.Populated key m) : r.size = m.keys.card := by
  have hkeys : r.locations.toFinset = m.keys := by
    ext location
    rw [List.mem_toFinset, h.shows_locations, Finmap.mem_keys]
  rw [← r.length_locations, ← hkeys, List.toFinset_card_of_nodup r.nodup_locations]

theorem Populated.shows_isEmpty (h : r.Populated key m) : r.isEmpty = true ↔ m = ∅ := by
  rw [r.isEmpty_eq, beq_iff_eq, h.shows_size, Finset.card_eq_zero]
  constructor
  · intro hkeys
    apply Finmap.ext_lookup
    intro location
    rw [Finmap.lookup_empty, Finmap.lookup_eq_none, ← Finmap.mem_keys, hkeys]
    exact Finset.notMem_empty location
  · rintro rfl
    exact Finmap.keys_empty

theorem Populated.shows (h : r.Populated key m) : r.Shows m where
  register := h.shows_register
  unregister := h.shows_unregister
  allocate := h.shows_allocate
  ascending := r.pairwise_locations
  locations := h.shows_locations
  live := h.shows_live
  allocator := h.shows_allocator
  size := h.shows_size
  isEmpty := h.shows_isEmpty

end Shows

/-- After any events a registry shows the population that they amount to. -/
theorem population_shown {r : Registry} (hr : r.Built) (coordinator : Coordinator)
    (events : List Event) :
    (Population.after r.factory events).Proper ∧
      (Service.after ⟨r, coordinator⟩ events).registry.factory = r.factory ∧
      (Service.after ⟨r, coordinator⟩ events).registry.Shows
        (Population.after r.factory events) := by
  obtain ⟨key, hpopulated, hfactory⟩ := hr.populated coordinator events
  exact ⟨hpopulated.proper, hfactory, hpopulated.shows⟩

/-- One location has ended, an allocator is refused for another, and a third has kept the ids
that were new to it. -/
theorem population_shown_refusing :
    let r := refusing (.ofList [1024]) ["closed"]
    let events : List Event :=
      [.register "ended" "a" 1, .register "closed" "a" 1, .register "kept" "a" 2,
        .register "kept" "b" 2, .unregister "ended" "a", .cycle .listed, .register "kept" "a" 2]
    let m := Population.after r.factory events
    r.Built ∧ m.keys = {"kept"} ∧ m.ids "kept" = {"a", "b"} ∧
      (Service.after ⟨r, .refusing "down"⟩ events).registry.Shows m :=
  ⟨built_refusing _ _, by decide, by decide,
    (population_shown (built_refusing _ _) (.refusing "down") _).2.2⟩

end Registry
end EdgePlacement

import EdgePlacement.Proofs.Network.Occupancy

/-!
What is registered where, and in which size.

The content of a registry is the size of each entry by location and id, and the live count
of each location. A registration that is accepted adds its entry, and one that is refused
changes nothing of it, though it may have opened a site in between; it is refused exactly
if the entry is there or no allocator can be made (`Coherent.register_cases`). For this the
allocators have to have what is counted (`Coherent`), and whatever is done through the registry
keeps it so. They may ask under different keys and may run cycles in the background. -/
namespace EdgePlacement

namespace Allocator

/-! ### Fresh allocators -/

/-- An allocator as it is made, whether or not it runs cycles in the background. -/
inductive Fresh : Allocator → Prop where
  | greedy (table : SizeTable) : Fresh (.greedy (.new table))
  | prepared (menu : SizeTable) (key : String) : Fresh (.prepared (.new menu key))
  | started (menu : SizeTable) (key : String) : Fresh (.prepared (Prepared.new menu key).start)

theorem New.fresh {key : String} {a : Allocator} (h : a.New key) : a.Fresh := by
  cases h with
  | greedy table => exact .greedy table
  | prepared menu => exact .prepared menu key

/-- What an allocator asks for rankings under, if it asks for any. -/
def key : Allocator → String
  | .greedy _ => ""
  | .prepared p => p.key

theorem Fresh.keeps {a : Allocator} (h : a.Fresh) : a.Keeps a.key ∅ := by
  cases h with
  | greedy table => exact keeps_new (.greedy table)
  | prepared menu key => exact keeps_new (.prepared menu)
  | started menu key =>
    have hfollows := Prepared.follows_next (Prepared.follows_new menu key) .start
    exact ⟨.none, ⟨menu, _, hfollows, rfl⟩, fun id => by simp [Tracked.none]⟩

end Allocator

namespace Registry

/-- The size of an entry at a location. -/
def bytes? (r : Registry) (location id : String) : Option UInt64 :=
  (r.allocator? location).bind (·.bytes? id)

theorem bytes?_eq (r : Registry) (location id : String) :
    r.bytes? location id = (r.site location).bytes? id := by
  rw [bytes?, r.allocator?_eq, Option.bind_map]
  rfl

theorem live_eq_site (r : Registry) (location : String) :
    r.live location = (r.site location).live := r.live_eq location

/-! ### Coherence -/

/-- Every site holds some ids, in allocators that ask under the keys of their locations, and
what the factory makes holds none. -/
structure Coherent (keys : String → String) (r : Registry) : Prop where
  holds : ∀ location, ∃ ids, (r.site location).Holds (keys location) ids
  makes : ∀ location a, r.factory location = .ok a → a.Keeps (keys location) ∅
  refuses : ∀ location e, r.factory location = .error e → ∃ fault, e = .config fault

section Coherent
variable {keys : String → String} {r : Registry}

theorem coherent_new {factory : String → Except Failure Allocator}
    (makes : ∀ location a, factory location = .ok a → a.Fresh)
    (refuses : ∀ location e, factory location = .error e → ∃ fault, e = .config fault) :
    ∃ keys, (new factory).Coherent keys := by
  refine ⟨fun location => ((factory location).toOption.map (·.key)).getD "", ?_, ?_, refuses⟩
  · intro location
    rw [site_new]
    exact ⟨∅, .empty⟩
  · intro location a ha
    have ha' : factory location = .ok a := ha
    rw [ha']
    exact (makes location a ha).keeps

theorem fresh_of_refusing {table : SizeTable} {refused : List String} {location : String}
    {a : Allocator} (h : (refusing table refused).factory location = .ok a) : a.Fresh := by
  have hmade : (if location ∈ refused then .error (.config (.noAllocator location))
      else .ok (.greedy (.new table)) : Except Failure Allocator) = .ok a := h
  split at hmade
  · cases hmade
  · cases hmade
    exact .greedy table

theorem config_of_refusing {table : SizeTable} {refused : List String} {location : String}
    {e : Failure} (h : (refusing table refused).factory location = .error e) :
    ∃ fault, e = .config fault := by
  have hmade : (if location ∈ refused then .error (.config (.noAllocator location))
      else .ok (.greedy (.new table)) : Except Failure Allocator) = .error e := h
  split at hmade
  · cases hmade
    exact ⟨_, rfl⟩
  · cases hmade

/-- Changing sites one by one, each to one that holds some ids. -/
theorem Coherent.of_sites (h : r.Coherent keys) {r' : Registry} (hfactory : r'.factory = r.factory)
    (hsites : ∀ location, ∃ ids, (r'.site location).Holds (keys location) ids) :
    r'.Coherent keys := by
  refine ⟨hsites, ?_, ?_⟩
  · rw [hfactory]
    exact h.makes
  · rw [hfactory]
    exact h.refuses

theorem Coherent.acts (h : r.Coherent keys) {α : Type} {location : String} {call : α × Registry}
    {here : α × Site} (hacts : ActsAt r location call here)
    (hhere : ∃ ids, here.2.Holds (keys location) ids) : call.2.Coherent keys := by
  refine h.of_sites hacts.factory fun other => ?_
  rw [hacts.site]
  split
  · next ho => exact ho ▸ hhere
  · exact h.holds other

theorem Coherent.cycleEach (h : r.Coherent keys) (coordinator : Coordinator) (published : Nat)
    (locations : List String) : (r.cycleEach coordinator published locations).2.Coherent keys := by
  induction locations generalizing r published with
  | nil => exact h
  | cons location rest ih =>
    cases hs : r.slots[location]? with
    | none =>
      rw [cycleEach_of_none hs]
      exact ih h published
    | some slot =>
      rcases hx : slot.allocator.cycle coordinator with ⟨answer, a⟩
      have hnext : (r.setSlot location { slot with allocator := a }).Coherent keys := by
        refine h.of_sites rfl fun other => ?_
        rw [site_setSlot_cycle hs hx]
        split
        · next ho =>
          obtain ⟨ids, hids⟩ := h.holds location
          exact ⟨ids, ho ▸ hids.cycle coordinator⟩
        · exact h.holds other
      cases answer with
      | error e =>
        rw [cycleEach_of_error hs hx]
        exact hnext
      | ok generation =>
        rw [cycleEach_of_ok hs hx]
        exact ih hnext _

theorem Coherent.tick (h : r.Coherent keys) (coordinator : Coordinator) :
    (r.tick coordinator).Coherent keys := by
  refine h.of_sites rfl fun location => ?_
  obtain ⟨ids, hids⟩ := h.holds location
  rw [site_tick]
  exact ⟨ids, hids.tick coordinator⟩

/-- What is done to the allocator of a handle, if it keeps the ids that the allocator has. -/
theorem Coherent.act (h : r.Coherent keys) (handle : Handle) {f : Allocator → Allocator}
    (hf : ∀ a key ids, a.Keeps key ids → (f a).Keeps key ids) :
    (r.act handle fun a => ((), f a)).2.Coherent keys := by
  unfold Registry.act
  simp only
  split
  · next slot hlive =>
    have hsite := site_of_some (Option.filter_eq_some_iff.1 hlive).1
    refine h.of_sites rfl fun other => ?_
    rw [site_setSlot]
    split
    · next ho =>
      obtain ⟨ids, hids⟩ := h.holds handle.location
      rw [hsite] at hids
      exact ⟨ids, ho ▸ hids.swap (hf _ _ _)⟩
    · exact h.holds other
  · exact h.of_sites rfl h.holds
  · exact h

theorem Coherent.register (h : r.Coherent keys) (location id : String) (size : UInt64) :
    (r.register location id size).2.Coherent keys := by
  obtain ⟨ids, hids⟩ := h.holds location
  have hhere := (hids.register (h.makes location) id size).2
  exact h.acts (r.acts_register location id size) ⟨_, hhere⟩

theorem Coherent.unregister (h : r.Coherent keys) (location id : String) :
    (r.unregister location id).2.Coherent keys := by
  obtain ⟨ids, hids⟩ := h.holds location
  have hhere := (hids.unregister location id).2
  exact h.acts (r.acts_unregister location id) ⟨_, hhere⟩

theorem Coherent.allocate (h : r.Coherent keys) (location : String) (available : UInt64) :
    (r.allocate location available).2.Coherent keys := by
  obtain ⟨ids, hids⟩ := h.holds location
  have hhere := hids.allocate location available
  exact h.acts (r.acts_allocate location available) ⟨ids, hhere⟩

/-! ### Registration -/

/-- The registries have the same content. -/
structure SameContent (r r' : Registry) : Prop where
  bytes? : ∀ location id, r'.bytes? location id = r.bytes? location id
  live : ∀ location, r'.live location = r.live location

/-- The content of `r'` is that of `r` and one entry that `r` does not have. -/
structure Adds (r : Registry) (location id : String) (size : UInt64) (r' : Registry) : Prop where
  absent : r.bytes? location id = none
  bytes? : ∀ other otherId, r'.bytes? other otherId =
    if other = location ∧ otherId = id then some size else r.bytes? other otherId
  live : ∀ other, r'.live other = r.live other + if other = location then 1 else 0

/-- Everything a registration can do to a coherent registry. -/
theorem Coherent.register_cases (h : r.Coherent keys) (location id : String) (size : UInt64) :
    ∃ r', r'.Coherent keys ∧ r'.factory = r.factory ∧
      ((∃ e, r.register location id size = (.error e, r') ∧ SameContent r r' ∧
          (e = .duplicateEntry id ∧ (r.bytes? location id).isSome = true ∨
            r.bytes? location id = none ∧ r'.allocator? location = none ∧
              r.factory location = .error e)) ∨
        (r.register location id size = (.ok (), r') ∧ Adds r location id size r')) := by
  obtain ⟨ids, hids⟩ := h.holds location
  have hmem := hids.isSome_bytes?_iff id
  rw [← r.bytes?_eq] at hmem
  have hacts := r.acts_register location id size
  refine ⟨(r.register location id size).2, h.register location id size, hacts.factory, ?_⟩
  rcases hids.register_cases (h.makes location) id size with
    ⟨e, here, hcall, hhere, hbytes, hwhy⟩ | ⟨here, -, hcall, hnew, -, hhere, hbytes⟩
  · rw [hcall] at hacts
    refine .inl ⟨e, Prod.ext hacts.answer rfl, ⟨fun other otherId => ?_, fun other => ?_⟩, ?_⟩
    · rw [bytes?_eq, bytes?_eq, hacts.site]
      split
      · next ho => rw [ho, hbytes]
      · rfl
    · rw [live_eq_site, live_eq_site, hacts.site]
      split
      · next ho => rw [ho, hhere.live_eq, hids.live_eq]
      · rfl
    · rcases hwhy with ⟨he, hid⟩ | ⟨hid, hnone, hmade⟩
      · exact .inl ⟨he, hmem.2 hid⟩
      · have hempty : here = none := by
          rw [← Option.not_isSome_iff_eq_none, hhere.isSome_iff, ← hids.isSome_iff, hnone]
          exact Bool.false_ne_true
        refine .inr ⟨Option.not_isSome_iff_eq_none.1 fun hsome => hid (hmem.1 hsome), ?_, hmade⟩
        rw [allocator?_eq, hacts.site_here, hempty]
        rfl
  · rw [hcall] at hacts
    refine .inr ⟨Prod.ext hacts.answer rfl, ?_, fun other otherId => ?_, fun other => ?_⟩
    · exact Option.not_isSome_iff_eq_none.1 fun hsome => hnew (hmem.1 hsome)
    · rw [bytes?_eq, bytes?_eq, hacts.site]
      by_cases ho : other = location
      · simp only [ho, if_true, hbytes, true_and]
      · simp only [ho, if_false, false_and]
    · rw [live_eq_site, live_eq_site, hacts.site]
      split
      · next ho => rw [ho, hhere.live_eq, hids.live_eq, Finset.card_insert_of_notMem hnew]
      · rfl

end Coherent
end Registry
end EdgePlacement

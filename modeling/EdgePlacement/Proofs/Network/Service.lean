import EdgePlacement.Settings
import EdgePlacement.Proofs.Network.Site
import EdgePlacement.Proofs.Placement.Tracking

/-!
A registry in use.

Calls come in for any locations, cycles are asked for, and the coordinator changes its
answers in between. The locations have no order of their own in which a round of cycles
would have to take them, so a round names the order it takes (`Order`); nothing proved of
runs depends on it. -/
namespace EdgePlacement

/-! ### Orders -/

/-- A way to arrange any locations. -/
structure Order where
  arrange : List String → List String
  perm : ∀ locations, (arrange locations).Perm locations

/-- The order in which the registry lists its locations. -/
def Order.listed : Order := ⟨id, fun _ => .refl _⟩

namespace Registry

/-- One cycle at every live location, in some order. -/
def cycleIn (r : Registry) (order : Order) (coordinator : Coordinator) :
    Except Failure Nat × Registry :=
  r.cycleEach coordinator 0 (order.arrange r.locations)

theorem cycle_eq_cycleIn (r : Registry) (coordinator : Coordinator) :
    r.cycle coordinator = r.cycleIn .listed coordinator := rfl

theorem nodup_arrange (r : Registry) (order : Order) : (order.arrange r.locations).Nodup :=
  (order.perm _).nodup_iff.2 r.nodup_locations

theorem mem_arrange_iff (r : Registry) (order : Order) (location : String) :
    location ∈ order.arrange r.locations ↔ (r.site location).isSome = true := by
  rw [(order.perm _).mem_iff, r.mem_locations_iff]

theorem factory_cycleEach (r : Registry) (coordinator : Coordinator) (published : Nat)
    (locations : List String) :
    (r.cycleEach coordinator published locations).2.factory = r.factory := by
  induction locations generalizing r published with
  | nil => rfl
  | cons location rest ih =>
    cases hs : r.slots[location]? with
    | none => rw [cycleEach_of_none hs, ih]
    | some slot =>
      rcases hx : slot.allocator.cycle coordinator with ⟨_ | generation, a⟩
      · rw [cycleEach_of_error hs hx]
        rfl
      · rw [cycleEach_of_ok hs hx, ih]
        rfl

theorem factory_cycleIn (r : Registry) (order : Order) (coordinator : Coordinator) :
    (r.cycleIn order coordinator).2.factory = r.factory := factory_cycleEach ..

/-- A registry before its first call: from settings, without cycles in the background, or
with a factory that may fail for some locations and makes new allocators for the others. -/
inductive Built : Registry → Prop where
  | ofSettings {settings : Settings} {hasCoordinator : Bool} {r : Registry}
    (accepted : settings.registry hasCoordinator false = .ok r) : Built r
  | ofFactory (factory : String → Except Failure Allocator) (key : String)
    (makes : ∀ location a, factory location = .ok a → a.New key) : Built (.new factory)

theorem new_allocator (settings : Settings) :
    (settings.allocator false).New settings.cycle.rankingKey := by
  unfold Settings.allocator
  cases settings.strategy with
  | greedy => exact .greedy settings.classes
  | precomputed => exact .prepared settings.menu

/-- What settings are accepted, and what is made of them. -/
theorem registry_eq_ok_iff {settings : Settings} {hasCoordinator background : Bool}
    {r : Registry} : settings.registry hasCoordinator background = .ok r ↔
      settings.check = .ok () ∧ (settings.strategy = .precomputed → hasCoordinator = true) ∧
        r = .new fun _ => .ok (settings.allocator background) := by
  unfold Settings.registry
  cases settings.check with
  | error e => simp
  | ok checked =>
    simp only [true_and]
    cases hasCoordinator with
    | true => simp [eq_comm]
    | false =>
      cases settings.strategy with
      | greedy => simp [eq_comm]
      | precomputed => simp

/-- However it was built, a registry starts out empty over a factory of new allocators, all
of which ask under one key. -/
theorem Built.factory {r : Registry} (h : Built r) : ∃ factory key, r = .new factory ∧
    ∀ location a, factory location = .ok a → a.New key := by
  cases h with
  | @ofSettings settings hasCoordinator r accepted =>
    obtain ⟨-, -, rfl⟩ := registry_eq_ok_iff.1 accepted
    refine ⟨_, settings.cycle.rankingKey, rfl, fun location a ha => ?_⟩
    cases ha
    exact new_allocator settings
  | ofFactory factory key makes => exact ⟨factory, key, rfl, makes⟩

/-- A registry that refuses some locations is one over a factory that fails for them. -/
theorem built_refusing (table : SizeTable) (refused : List String) :
    Built (.refusing table refused) := by
  refine .ofFactory _ "" fun location a ha => ?_
  split at ha
  · cases ha
  · cases ha
    exact .greedy table

end Registry

/-! ### Runs -/

/-- A registry and the coordinator that its cycles ask. -/
structure Service where
  registry : Registry
  coordinator : Coordinator

inductive Event where
  | register (location id : String) (size : UInt64)
  | unregister (location id : String)
  | allocate (location : String) (available : UInt64)
  | cycle (order : Order)
  /-- From here on the coordinator answers as the given one. -/
  | change (coordinator : Coordinator)

/-- The location an event is a call for; cycles and changes are for all. -/
def Event.location? : Event → Option String
  | .register location _ _ => some location
  | .unregister location _ => some location
  | .allocate location _ => some location
  | .cycle _ => none
  | .change _ => none

inductive Answer where
  | registered (result : Except Failure Unit)
  | unregistered (result : Except Failure Unit)
  | allocated (result : Except Failure (List String))
  | cycled (result : Except Failure Nat)
  | changed

namespace Service

def perform (s : Service) : Event → Answer × Service
  | .register location id size =>
    (.registered (s.registry.register location id size).1,
      { s with registry := (s.registry.register location id size).2 })
  | .unregister location id =>
    (.unregistered (s.registry.unregister location id).1,
      { s with registry := (s.registry.unregister location id).2 })
  | .allocate location available =>
    (.allocated (s.registry.allocate location available).1,
      { s with registry := (s.registry.allocate location available).2 })
  | .cycle order =>
    (.cycled (s.registry.cycleIn order s.coordinator).1,
      { s with registry := (s.registry.cycleIn order s.coordinator).2 })
  | .change coordinator => (.changed, { s with coordinator := coordinator })

/-- The service after events. -/
def after (s : Service) (events : List Event) : Service :=
  events.foldl (fun s event => (s.perform event).2) s

/-- The calls for a location among events, each with its answer and the site it leaves. -/
def calls (location : String) (s : Service) : List Event → List (Event × Answer × Site)
  | [] => []
  | event :: rest =>
    let (answer, next) := s.perform event
    if event.location? = some location then
      (event, answer, next.registry.site location) :: calls location next rest
    else calls location next rest

end Service
end EdgePlacement

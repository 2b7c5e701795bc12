import EdgePlacement.Proofs.Network.Population

/-!
Locations keep to themselves.

What a call gets follows from the site of its location, from what the factory makes for the
location and from what the coordinator answered in the cycles since. Two services that agree
on these at a location (`Agree`) still agree when both perform a call for it, when both
perform a round of cycles or a change of the coordinator, and when one of the two performs a
call for another location. So from a moment at which a location is absent, nothing shows
there that a new registry used for that location alone would not show (`calls_alone`). -/
namespace EdgePlacement

namespace Event

/-- The event is a call for the location, or it is for all. -/
def concerns (location : String) (event : Event) : Bool :=
  event.location?.all (· = location)

/-- For the location, for all, or for another location. -/
theorem location_cases (event : Event) (location : String) :
    event.location? = some location ∨ event.location? = none ∨
      ∃ other, other ≠ location ∧ event.location? = some other := by
  cases hfor : event.location? with
  | none => exact .inr (.inl rfl)
  | some other =>
    by_cases ho : other = location
    · exact .inl (congrArg some ho)
    · exact .inr (.inr ⟨other, ho, rfl⟩)

end Event

namespace Service

/-! ### Calls at a site -/

/-- A call acts at its location by what is there and what would be made there; the service
has no other part in it. -/
theorem perform_call {event : Event} {location : String}
    (hcall : event.location? = some location) :
    ∃ here : Site → Except Failure Allocator → Answer × Site, ∀ s : Service,
      s.registry.ActsAt location ((s.perform event).1, (s.perform event).2.registry)
          (here (s.registry.site location) (s.registry.factory location)) ∧
        (s.perform event).2.coordinator = s.coordinator := by
  cases event with
  | register _ id size =>
    cases hcall
    exact ⟨fun site made => ((.registered (site.register made id size).1),
      (site.register made id size).2),
      fun s => ⟨(s.registry.acts_register location id size).map Answer.registered, rfl⟩⟩
  | unregister _ id =>
    cases hcall
    exact ⟨fun site _ => (.unregistered (site.unregister location id).1,
      (site.unregister location id).2),
      fun s => ⟨(s.registry.acts_unregister location id).map Answer.unregistered, rfl⟩⟩
  | allocate _ available =>
    cases hcall
    exact ⟨fun site _ => (.allocated (site.allocate location available).1,
      (site.allocate location available).2),
      fun s => ⟨(s.registry.acts_allocate location available).map Answer.allocated, rfl⟩⟩
  | cycle order => cases hcall
  | change coordinator => cases hcall

theorem calls_of_call {event : Event} {location : String}
    (hcall : event.location? = some location) (s : Service) (rest : List Event) :
    s.calls location (event :: rest) =
      (event, (s.perform event).1, (s.perform event).2.registry.site location) ::
        (s.perform event).2.calls location rest := if_pos hcall

theorem calls_of_other {event : Event} {location : String}
    (hother : event.location? ≠ some location) (s : Service) (rest : List Event) :
    s.calls location (event :: rest) = (s.perform event).2.calls location rest := if_neg hother

/-! ### Agreeing on a location -/

/-- Two services that a user of the location cannot tell apart. -/
structure Agree (location : String) (s t : Service) : Prop where
  site : s.registry.site location = t.registry.site location
  made : s.registry.factory location = t.registry.factory location
  coordinator : s.coordinator = t.coordinator

section Agree
variable {location : String} {s t : Service} {event : Event}

/-- A call for the location gets one answer from both. -/
theorem Agree.call (h : Agree location s t) (hcall : event.location? = some location) :
    (s.perform event).1 = (t.perform event).1 ∧
      Agree location (s.perform event).2 (t.perform event).2 := by
  obtain ⟨here, hacts⟩ := perform_call hcall
  obtain ⟨hs, hscoordinator⟩ := hacts s
  obtain ⟨ht, htcoordinator⟩ := hacts t
  rw [h.site, h.made] at hs
  refine ⟨hs.answer.trans ht.answer.symm, hs.site_here.trans ht.site_here.symm, ?_, ?_⟩
  · rw [hs.factory, ht.factory, h.made]
  · rw [hscoordinator, htcoordinator, h.coordinator]

/-- A call for another location is nothing to the location. -/
theorem Agree.elsewhere (h : Agree location s t) {other : String} (hother : other ≠ location)
    (hcall : event.location? = some other) : Agree location (s.perform event).2 t := by
  obtain ⟨here, hacts⟩ := perform_call hcall
  obtain ⟨hs, hcoordinator⟩ := hacts s
  refine ⟨?_, ?_, hcoordinator.trans h.coordinator⟩
  · exact (hs.site_other hother.symm).trans h.site
  · rw [hs.factory, h.made]

variable {key : String} {m n : Population}

/-- A round of cycles does the same for the location in both, whatever else they have to
take it through and wherever it stops. -/
theorem Agree.shared (h : Agree location s t) (hs : s.registry.Populated key m)
    (ht : t.registry.Populated key n) (hshared : event.location? = none) :
    Agree location (s.perform event).2 (t.perform event).2 := by
  cases event with
  | register => cases hshared
  | unregister => cases hshared
  | allocate => cases hshared
  | cycle order =>
    refine ⟨?_, ?_, h.coordinator⟩
    · show (s.registry.cycleIn order s.coordinator).2.site location =
        (t.registry.cycleIn order t.coordinator).2.site location
      rw [hs.occupied.site_cycleIn, ht.occupied.site_cycleIn, h.site, h.coordinator]
    · show (s.registry.cycleIn order s.coordinator).2.factory location =
        (t.registry.cycleIn order t.coordinator).2.factory location
      rw [Registry.factory_cycleIn, Registry.factory_cycleIn, h.made]
  | change coordinator => exact ⟨h.site, h.made, rfl⟩

/-- A run agrees, call by call, with the run of those events that concern the location. -/
theorem Agree.run (h : Agree location s t) (hs : s.registry.Populated key m)
    (ht : t.registry.Populated key n) (events : List Event) :
    s.calls location events = t.calls location (events.filter (Event.concerns location)) ∧
      Agree location (s.after events) (t.after (events.filter (Event.concerns location))) := by
  induction events generalizing s t m n with
  | nil => exact ⟨rfl, h⟩
  | cons event rest ih =>
    have hs' := (Registry.populated_perform hs event).1
    have ht' := (Registry.populated_perform ht event).1
    obtain hcall | hshared | ⟨other, hother, hcall⟩ := event.location_cases location
    · obtain ⟨hanswer, hagree⟩ := h.call hcall
      obtain ⟨hcalls, hafter⟩ := ih hagree hs' ht'
      have hkept : event.concerns location = true := by simp [Event.concerns, hcall]
      rw [List.filter_cons_of_pos hkept, calls_of_call hcall, calls_of_call hcall, hanswer,
        hagree.site, hcalls]
      exact ⟨rfl, hafter⟩
    · obtain ⟨hcalls, hafter⟩ := ih (h.shared hs ht hshared) hs' ht'
      have hkept : event.concerns location = true := by simp [Event.concerns, hshared]
      have hnone : event.location? ≠ some location := by simp [hshared]
      rw [List.filter_cons_of_pos hkept, calls_of_other hnone, calls_of_other hnone, hcalls]
      exact ⟨rfl, hafter⟩
    · -- Only the one that is used for other locations too performs the event.
      obtain ⟨hcalls, hafter⟩ := ih (h.elsewhere hother hcall) hs' ht
      have hdropped : ¬event.concerns location = true := by simp [Event.concerns, hcall, hother]
      have hnone : event.location? ≠ some location := by simp [hcall, hother]
      rw [List.filter_cons_of_neg hdropped, calls_of_other hnone, hcalls]
      exact ⟨rfl, hafter⟩

end Agree

/-! ### A location alone -/

/-- Whether a location is absent is told by the ids added and removed there. -/
theorem absent_iff {r : Registry} (hr : r.Built) (coordinator : Coordinator)
    (events : List Event) (location : String) :
    (after ⟨r, coordinator⟩ events).registry.allocator? location = none ↔
      location ∉ Population.after r.factory events := by
  obtain ⟨key, hpopulated, -⟩ := hr.populated coordinator events
  rw [Registry.allocator?_eq, Option.map_eq_none_iff, ← hpopulated.isSome_site_iff,
    Option.not_isSome_iff_eq_none]

/-- From a moment at which a location is absent, its calls are answered as they are by a new
registry that is asked for this location only, while the coordinator and the cycles are the
same; and the site of the location is the same throughout. -/
theorem calls_alone {r : Registry} (hr : r.Built) (coordinator : Coordinator)
    (before since : List Event) {location : String}
    (habsent : (after ⟨r, coordinator⟩ before).registry.allocator? location = none) :
    let now := after ⟨r, coordinator⟩ before
    let alone : Service := ⟨r, now.coordinator⟩
    let own := since.filter (Event.concerns location)
    now.calls location since = alone.calls location own ∧
      (now.after since).registry.site location = (alone.after own).registry.site location := by
  intro now alone own
  obtain ⟨factory, key, rfl, hmakes⟩ := hr.factory
  have hnew : (Registry.new factory).Populated key ∅ := Registry.populated_new hmakes
  obtain ⟨hnow, hfactory⟩ :=
    Registry.populated_after (s := ⟨.new factory, coordinator⟩) hnew before
  have hagree : Agree location now alone := by
    refine ⟨?_, congrFun hfactory location, rfl⟩
    rw [Registry.site_new, ← Option.map_eq_none_iff, ← Registry.allocator?_eq]
    exact habsent
  obtain ⟨hcalls, hafter⟩ := hagree.run hnow hnew since
  exact ⟨hcalls, hafter.site⟩

/-- A location that has ended and is used again beside another one, through cycles with an
answer and without. -/
theorem calls_alone_again :
    let settings : Settings := { Settings.default with strategy := .precomputed }
    let r := Registry.new fun _ => .ok (settings.allocator false)
    let before : List Event :=
      [.register "here" "a" 1, .register "there" "a" 1, .cycle .listed, .unregister "here" "a"]
    let since : List Event :=
      [.register "here" "b" 2, .register "there" "b" 2, .cycle .listed, .allocate "there" 3,
        .allocate "here" 3, .change (.refusing "down"), .cycle .listed]
    let own : List Event :=
      [.register "here" "b" 2, .cycle .listed, .allocate "here" 3, .change (.refusing "down"),
        .cycle .listed]
    let now := after ⟨r, .ofRankings ∅⟩ before
    settings.registry true false = .ok r ∧ now.registry.allocator? "here" = none ∧
      now.calls "here" since = Service.calls "here" ⟨r, now.coordinator⟩ own := by
  intro settings r before since own now
  have haccepted : settings.registry true false = .ok r := rfl
  have habsent : now.registry.allocator? "here" = none :=
    (absent_iff (.ofSettings haccepted) _ before "here").2 (by decide)
  exact ⟨haccepted, habsent,
    (calls_alone (.ofSettings haccepted) _ before since habsent).1⟩

end Service
end EdgePlacement

import EdgePlacement.Proofs.Network.Refusal
import EdgePlacement.Proofs.Placement.Staleness

/-!
A round of cycles as one step.

A round takes the locations in turn, stops at the first cycle that fails and takes nothing
back. Still it is all or nothing (`round_all_or_nothing`): a registry over settings has
allocators of one strategy only, and those that fetch do so under one key (`Allocator.Of`), so
that either all cycles fail or none. What a round comes to is told from the slots one by one
(`Cycled`), which leaves no room for the order in which it took them. -/
namespace EdgePlacement

/-! ### Allocators over settings -/

namespace Allocator

/-- The allocator is of the strategy of the settings, and has their size classes or their menu
and key. -/
inductive Of (settings : Settings) : Allocator → Prop where
  | greedy (strategy : settings.strategy = .greedy) {g : Greedy}
    (table : g.table = settings.classes) : Of settings (.greedy g)
  | prepared (strategy : settings.strategy = .precomputed) {p : Prepared}
    (menu : p.menu = settings.menu) (key : p.key = settings.cycle.rankingKey) :
    Of settings (.prepared p)

section Of
variable {settings : Settings} {a : Allocator} {coordinator : Coordinator}

theorem of_allocator (settings : Settings) (background : Bool) :
    (settings.allocator background).Of settings := by
  unfold Settings.allocator
  split
  · next hgreedy => exact .greedy hgreedy rfl
  · next hprepared =>
    cases background with
    | false => exact .prepared hprepared rfl rfl
    | true => exact .prepared hprepared rfl rfl

theorem Of.next (h : a.Of settings) (call : Call) : (a.next call).Of settings := by
  cases h with
  | @greedy strategy g table =>
    cases call with
    | request r =>
      have hserve : Of settings (.greedy (g.serve r)) :=
        .greedy strategy ((g.table_serve r).trans table)
      cases r <;> exact hserve
    | cycle coordinator => exact .greedy strategy table
    | tick coordinator => exact .greedy strategy table
  | @prepared strategy p menu key =>
    have hcycle : ∀ coordinator, (p.cycle coordinator).2.menu = settings.menu ∧
        (p.cycle coordinator).2.key = settings.cycle.rankingKey := fun coordinator => by
      rw [p.cycle_eq]
      exact ⟨menu, key⟩
    cases call with
    | request r =>
      have hserve : Of settings (.prepared (p.serve r)) := by
        rw [p.serve_eq]
        exact .prepared strategy menu key
      cases r <;> exact hserve
    | cycle coordinator =>
      show Of settings ((Allocator.prepared p).cycle coordinator).2
      rw [cycle_prepared]
      exact .prepared strategy (hcycle coordinator).1 (hcycle coordinator).2
    | tick coordinator =>
      show Of settings (.prepared (p.tick coordinator))
      unfold Prepared.tick
      split
      · exact .prepared strategy (hcycle coordinator).1 (hcycle coordinator).2
      · exact .prepared strategy menu key

/-- A cycle of the greedy strategy does nothing. -/
theorem Of.cycle_greedy (h : a.Of settings) (strategy : settings.strategy = .greedy) :
    a.cycle coordinator = (.ok none, a) := by
  cases h with
  | greedy _ _ => rfl
  | prepared other => cases strategy.symm.trans other

/-- A cycle that gets no ranking changes nothing. -/
theorem Of.cycle_error (h : a.Of settings) (strategy : settings.strategy = .precomputed)
    {e : Failure} (hfetch : coordinator settings.cycle.rankingKey = .error e) :
    a.cycle coordinator = (.error e, a) := by
  cases h with
  | greedy other _ => cases strategy.symm.trans other
  | prepared _ menu key =>
    rw [cycle_prepared, Prepared.cycle_of_error (key ▸ hfetch)]
    rfl

/-- The allocator after a cycle that got the ranking: the same but for a snapshot built from its
entries and the ranking, whose generation is one higher. -/
inductive Renewed (menu : SizeTable) (ranking : Ranking) : Allocator → Allocator → Prop where
  | prepared {p : Prepared} {snapshot : Snapshot} (same : p.menu = menu)
    (generation : snapshot.generation = p.snapshot.generation + 1)
    (built : snapshot = .build (p.snapshot.generation + 1) menu p.items ranking) :
    Renewed menu ranking (.prepared p) (.prepared { p with snapshot })

/-- A cycle that gets a ranking publishes. -/
theorem Of.cycle_ok (h : a.Of settings) (strategy : settings.strategy = .precomputed)
    {ranking : Ranking} (hfetch : coordinator settings.cycle.rankingKey = .ok ranking) :
    (∃ generation, (a.cycle coordinator).1 = .ok (some generation)) ∧
      Renewed settings.menu ranking a (a.cycle coordinator).2 := by
  cases h with
  | greedy other _ => cases strategy.symm.trans other
  | @prepared _ p menu key =>
    have hcycle : p.cycle coordinator = (.ok (p.snapshot.generation + 1), { p with
        snapshot := .build (p.snapshot.generation + 1) settings.menu p.items ranking }) := by
      unfold Prepared.cycle
      rw [key, hfetch, menu]
    rw [cycle_prepared, hcycle]
    exact ⟨⟨_, rfl⟩, .prepared menu rfl rfl⟩

end Of
end Allocator

/-- One cycle of the allocator of a slot. -/
def Slot.cycled (slot : Slot) (coordinator : Coordinator) : Slot :=
  { slot with allocator := (slot.allocator.cycle coordinator).2 }

namespace Registry
open Allocator

/-! ### Cycles in turn -/

/-- The registry with the allocators of the given slots cycled. -/
structure Cycled (coordinator : Coordinator) (locations : List String) (r r' : Registry) :
    Prop where
  factory : r'.factory = r.factory
  made : r'.made = r.made
  retired : r'.retired = r.retired
  slots : ∀ location : String, r'.slots[location]? =
    if location ∈ locations then r.slots[location]?.map (·.cycled coordinator)
    else r.slots[location]?

section Cycled
variable {r r' : Registry} {coordinator : Coordinator} {locations : List String}

/-- Cycles in turn that all succeed, and all with or all without publishing. -/
theorem cycled_of_ok (coordinator : Coordinator) (publishes : Bool) (published : Nat)
    (hnodup : locations.Nodup)
    (hall : ∀ location ∈ locations, ∃ slot, r.slots[location]? = some slot ∧
      ∃ generation, (slot.allocator.cycle coordinator).1 = .ok generation ∧
        generation.isSome = publishes) :
    (r.cycleEach coordinator published locations).1 =
        .ok (published + if publishes then locations.length else 0) ∧
      Cycled coordinator locations r (r.cycleEach coordinator published locations).2 := by
  induction locations generalizing r published with
  | nil => exact ⟨by cases publishes <;> rfl, rfl, rfl, rfl, fun location => rfl⟩
  | cons location rest ih =>
    obtain ⟨hnotin, hrest⟩ := List.nodup_cons.1 hnodup
    obtain ⟨⟨slot, hslot, generation, hcycle, hpublishes⟩, hall⟩ := List.forall_mem_cons.1 hall
    have hother : ∀ other ≠ location,
        (r.setSlot location (slot.cycled coordinator)).slots[other]? = r.slots[other]? :=
      fun other ho => (slots_setSlot ..).trans (if_neg ho)
    obtain ⟨hanswer, hfactory, hmade, hretired, hslots⟩ :=
      ih (r := r.setSlot location (slot.cycled coordinator))
        (if generation.isSome then published + 1 else published) hrest fun other ho => by
        rw [hother other fun heq => hnotin (heq ▸ ho)]
        exact hall other ho
    rw [cycleEach_of_ok hslot (Prod.ext hcycle rfl)]
    refine ⟨hanswer.trans ?_, hfactory, hmade, hretired, fun other => (hslots other).trans ?_⟩
    · rw [hpublishes, List.length_cons]
      cases publishes
      · rfl
      · simp only [if_true, Nat.add_assoc, Nat.add_comm 1]
    · by_cases ho : other = location
      · rw [ho, if_neg hnotin, if_pos (List.mem_cons_self ..), slots_setSlot, if_pos rfl, hslot]
        rfl
      · simp only [hother other ho, List.mem_cons, ho, false_or]

/-- Cycles in turn that would all fail, and without changing anything. -/
theorem cycled_of_error {e : Failure} (published : Nat)
    (hall : ∀ location ∈ locations, ∃ slot, r.slots[location]? = some slot ∧
      slot.allocator.cycle coordinator = (.error e, slot.allocator)) :
    (r.cycleEach coordinator published locations).1 =
        (if locations.isEmpty then .ok published else .error e) ∧
      Cycled coordinator locations r (r.cycleEach coordinator published locations).2 := by
  have hsame : ∀ location ∈ locations,
      r.slots[location]?.map (·.cycled coordinator) = r.slots[location]? := by
    intro location hlocation
    obtain ⟨slot, hslot, hcycle⟩ := hall location hlocation
    rw [hslot, Option.map_some, Slot.cycled, hcycle]
  cases locations with
  | nil => exact ⟨rfl, rfl, rfl, rfl, fun location => rfl⟩
  | cons first rest =>
    obtain ⟨slot, hslot, hcycle⟩ := hall first (List.mem_cons_self ..)
    rw [cycleEach_of_error hslot hcycle]
    refine ⟨rfl, rfl, rfl, rfl, fun location => ?_⟩
    rw [(unchanged_setSlot hslot).slots]
    split
    · next hlocation => exact (hsame location hlocation).symm
    · rfl

/-- Only which slots are cycled counts, not in what order. -/
theorem Cycled.listed {order : Order} (h : Cycled coordinator (order.arrange r.locations) r r') :
    Cycled coordinator r.locations r r' := by
  obtain ⟨hfactory, hmade, hretired, hslots⟩ := h
  simp only [(order.perm _).mem_iff] at hslots
  exact ⟨hfactory, hmade, hretired, hslots⟩

end Cycled

theorem isEmpty_arrange (r : Registry) (order : Order) :
    (order.arrange r.locations).isEmpty = r.isEmpty := by
  rw [r.isEmpty_eq, ← r.length_locations, ← (order.perm r.locations).length_eq]
  cases order.arrange r.locations <;> rfl

/-! ### Rounds -/

/-- Registries that a round over all locations has led to cannot be told apart. -/
theorem Cycled.unchanged {r r₁ r₂ : Registry} {coordinator : Coordinator}
    (h₁ : Cycled coordinator r.locations r r₁) (h₂ : Cycled coordinator r.locations r r₂) :
    r₁.Unchanged r₂ := by
  have hslots : ∀ location : String, r₂.slots[location]? = r₁.slots[location]? := fun location =>
    (h₂.slots location).trans (h₁.slots location).symm
  exact ⟨h₂.factory.trans h₁.factory.symm, locations_congr fun location => by rw [hslots], hslots,
    fun number _ => by rw [h₁.retired, h₂.retired]⟩

/-- A live location after a round. -/
theorem Cycled.slots_of_some {r r' : Registry} {coordinator : Coordinator}
    (h : Cycled coordinator r.locations r r') {location : String} {slot : Slot}
    (there : r.slots[location]? = some slot) :
    r'.slots[location]? = some (slot.cycled coordinator) := by
  rw [h.slots, if_pos, there, Option.map_some]
  rw [mem_locations_iff, site_of_some there]
  rfl

/-- What a round answers at a registry over the settings. -/
def answerOfRound (settings : Settings) (coordinator : Coordinator) (r : Registry) :
    Except Failure Nat :=
  match settings.strategy, coordinator settings.cycle.rankingKey with
  | .greedy, _ => .ok 0
  | .precomputed, .error e => if r.isEmpty then .ok 0 else .error e
  | .precomputed, .ok _ => .ok r.size

section Uniform
variable {settings : Settings} {r : Registry}

theorem Uniform.of_mem_arrange (h : r.Uniform (Of settings)) {order : Order} {location : String}
    (hlocation : location ∈ order.arrange r.locations) :
    ∃ slot, r.slots[location]? = some slot ∧ slot.allocator.Of settings := by
  rw [mem_arrange_iff, site, Option.isSome_map] at hlocation
  obtain ⟨slot, hslot⟩ := Option.isSome_iff_exists.1 hlocation
  exact ⟨slot, hslot, h.slots location slot hslot⟩

/-- A round is told from the settings, the answer to their key and the number of locations, and
cycles every slot. -/
theorem Uniform.round (h : r.Uniform (Of settings)) (coordinator : Coordinator) (order : Order) :
    (r.cycleIn order coordinator).1 = answerOfRound settings coordinator r ∧
      Cycled coordinator r.locations r (r.cycleIn order coordinator).2 := by
  unfold answerOfRound cycleIn
  cases hstrategy : settings.strategy with
  | greedy =>
    obtain ⟨hanswer, hcycled⟩ := cycled_of_ok coordinator false 0 (r.nodup_arrange order)
      fun location hlocation => by
        obtain ⟨slot, hslot, hof⟩ := h.of_mem_arrange hlocation
        exact ⟨slot, hslot, none, by rw [hof.cycle_greedy hstrategy], rfl⟩
    exact ⟨hanswer, hcycled.listed⟩
  | precomputed =>
    cases hfetch : coordinator settings.cycle.rankingKey with
    | ok ranking =>
      obtain ⟨hanswer, hcycled⟩ := cycled_of_ok coordinator true 0 (r.nodup_arrange order)
        fun location hlocation => by
          obtain ⟨slot, hslot, hof⟩ := h.of_mem_arrange hlocation
          obtain ⟨⟨generation, hok⟩, -⟩ := hof.cycle_ok hstrategy hfetch
          exact ⟨slot, hslot, some generation, hok, rfl⟩
      rw [if_pos rfl, Nat.zero_add, (order.perm _).length_eq, r.length_locations] at hanswer
      exact ⟨hanswer, hcycled.listed⟩
    | error e =>
      obtain ⟨hanswer, hcycled⟩ := cycled_of_error (e := e) 0 fun location hlocation => by
        obtain ⟨slot, hslot, hof⟩ := h.of_mem_arrange hlocation
        exact ⟨slot, hslot, hof.cycle_error hstrategy hfetch⟩
      rw [isEmpty_arrange] at hanswer
      exact ⟨hanswer, hcycled.listed⟩

/-- Where a round succeeds, the cycle of every location does. -/
theorem Uniform.cycle_ok_of_round (h : r.Uniform (Of settings)) {coordinator : Coordinator}
    {order : Order} {published : Nat} (hround : (r.cycleIn order coordinator).1 = .ok published)
    {location : String} {slot : Slot} (there : r.slots[location]? = some slot) :
    ∃ generation, (slot.allocator.cycle coordinator).1 = .ok generation := by
  have hof := h.slots location slot there
  have hanswer := (h.round coordinator order).1.symm.trans hround
  cases hstrategy : settings.strategy with
  | greedy => exact ⟨none, congrArg Prod.fst (hof.cycle_greedy hstrategy)⟩
  | precomputed =>
    cases hfetch : coordinator settings.cycle.rankingKey with
    | ok ranking =>
      obtain ⟨⟨generation, hok⟩, -⟩ := hof.cycle_ok hstrategy hfetch
      exact ⟨_, hok⟩
    | error e =>
      have hsome : ¬ r.isEmpty = true := by
        have hlocation : location ∈ r.locations := by
          rw [mem_locations_iff, site_of_some there]
          rfl
        rw [r.isEmpty_eq, ← r.length_locations, beq_iff_eq, List.length_eq_zero_iff]
        exact List.ne_nil_of_mem hlocation
      rw [answerOfRound, hstrategy, hfetch] at hanswer
      cases (if_neg hsome).symm.trans hanswer

/-- A round in which no cycle changes its allocator changes nothing. -/
theorem Cycled.unchanged_of_same {r r' : Registry} {coordinator : Coordinator}
    (h : Cycled coordinator r.locations r r') (hsame : ∀ (location : String) slot,
      r.slots[location]? = some slot → (slot.allocator.cycle coordinator).2 = slot.allocator) :
    r.Unchanged r' := by
  have hnothing : Cycled coordinator r.locations r r := by
    refine ⟨rfl, rfl, rfl, fun location => ?_⟩
    cases hslot : r.slots[location]? with
    | none => rw [Option.map_none, ite_self]
    | some slot => rw [Option.map_some, Slot.cycled, hsame location slot hslot, ite_self]
  exact hnothing.unchanged h

end Uniform

/-- The registry with every snapshot published anew, from the entries of its location and the
ranking, and with all else as it was. -/
structure Republished (menu : SizeTable) (ranking : Ranking) (r r' : Registry) : Prop where
  factory : r'.factory = r.factory
  made : r'.made = r.made
  locations : r'.locations = r.locations
  retired : r'.retired = r.retired
  live : ∀ (location : String) slot, r.slots[location]? = some slot →
    ∃ a, Renewed menu ranking slot.allocator a ∧
      r'.slots[location]? = some { slot with allocator := a }

theorem Uniform.republished {settings : Settings} {r r' : Registry} (h : r.Uniform (Of settings))
    (strategy : settings.strategy = .precomputed) {coordinator : Coordinator} {ranking : Ranking}
    (hfetch : coordinator settings.cycle.rankingKey = .ok ranking)
    (hcycled : Cycled coordinator r.locations r r') :
    Republished settings.menu ranking r r' := by
  refine ⟨hcycled.factory, hcycled.made, locations_congr fun location => ?_, hcycled.retired,
    fun location slot hslot => ?_⟩
  · cases hslot : r.slots[location]? with
    | none => rw [hcycled.slots, hslot, Option.map_none, ite_self]
    | some slot =>
      rw [hcycled.slots_of_some hslot]
      rfl
  · exact ⟨_, ((h.slots location slot hslot).cycle_ok strategy hfetch).2,
      hcycled.slots_of_some hslot⟩

/-! ### Registries over settings -/

theorem uniform_of_settings {settings : Settings} {hasCoordinator background : Bool}
    {start : Registry} (accepted : settings.registry hasCoordinator background = .ok start) :
    start.Uniform (Of settings) := by
  obtain ⟨-, -, rfl⟩ := registry_eq_ok_iff.1 accepted
  refine uniform_new fun location a ha => ?_
  cases ha
  exact of_allocator settings background

theorem coherent_of_settings {settings : Settings} {hasCoordinator : Bool} {start : Registry}
    (accepted : settings.registry hasCoordinator false = .ok start) :
    ∃ keys, start.Coherent keys := by
  obtain ⟨-, -, rfl⟩ := registry_eq_ok_iff.1 accepted
  refine coherent_new (fun location a ha => ?_) (fun location e he => by cases he)
  cases ha
  exact (new_allocator settings).fresh

/-- **A round of cycles is all or nothing.** Take a registry that settings have been accepted
for, without cycles in the background, and whatever registry calls, replays and direct calls on
its allocators have made of it since. With the greedy strategy a round does nothing. With the
precomputed strategy it publishes at every live location a snapshot of the generation after the
one there, built from the entries there and the ranking fetched, and changes nothing else; but
where the ranking cannot be fetched, it fails for that reason if there is a location to fail at,
and changes nothing at all. It makes no difference to this in which order the locations are
taken. -/
theorem round_all_or_nothing {settings : Settings} {hasCoordinator : Bool} {start r : Registry}
    (accepted : settings.registry hasCoordinator false = .ok start)
    (reached : start.Reaches (fun _ => True) r) (coordinator : Coordinator) (order : Order) :
    let round := r.cycleIn order coordinator
    (settings.strategy = .greedy → round.1 = .ok 0 ∧ r.Unchanged round.2) ∧
    (settings.strategy = .precomputed →
      (∀ e, coordinator settings.cycle.rankingKey = .error e →
        round.1 = (if r.isEmpty then .ok 0 else .error e) ∧ r.Unchanged round.2) ∧
      ∀ ranking, coordinator settings.cycle.rankingKey = .ok ranking →
        round.1 = .ok r.size ∧ r.Republished settings.menu ranking round.2) ∧
    ∀ other : Order, (r.cycleIn other coordinator).1 = round.1 ∧
      round.2.Unchanged (r.cycleIn other coordinator).2 := by
  intro round
  have hr : r.Uniform (Of settings) := reached.uniform Of.next (uniform_of_settings accepted)
  obtain ⟨hanswer, hcycled⟩ := hr.round coordinator order
  refine ⟨fun strategy => ⟨?_, ?_⟩, fun strategy => ⟨fun e hfetch => ⟨?_, ?_⟩,
    fun ranking hfetch => ⟨?_, hr.republished strategy hfetch hcycled⟩⟩, fun other => ?_⟩
  · refine hanswer.trans ?_
    rw [answerOfRound, strategy]
  · refine hcycled.unchanged_of_same fun location slot hslot => ?_
    rw [(hr.slots location slot hslot).cycle_greedy strategy]
  · refine hanswer.trans ?_
    rw [answerOfRound, strategy, hfetch]
  · refine hcycled.unchanged_of_same fun location slot hslot => ?_
    rw [(hr.slots location slot hslot).cycle_error strategy hfetch]
  · refine hanswer.trans ?_
    rw [answerOfRound, strategy, hfetch]
  · obtain ⟨hanswer', hcycled'⟩ := hr.round coordinator other
    exact ⟨hanswer'.trans hanswer.symm, hcycled.unchanged hcycled'⟩

/-- Two locations, and a coordinator that is down for one round and up for the next. -/
theorem round_all_or_nothing_two_locations :
    let settings : Settings := { Settings.default with strategy := .precomputed }
    let start : Registry := .new fun _ => .ok (settings.allocator false)
    let down : Coordinator := .refusing "down"
    let up : Coordinator := .ofRankings ∅
    let r := ((Service.mk start down).run [.event (.register "eu" "film" 5),
      .event (.register "us" "film" 5)]).registry
    settings.registry true false = .ok start ∧ start.Reaches (fun _ => True) r ∧ r.size = 2 ∧
      (r.cycleIn .listed down).1 = .error (.fetch (.refused "down")) ∧
      r.Unchanged (r.cycleIn .listed down).2 ∧
      (r.cycleIn .listed up).1 = .ok 2 ∧
      r.Republished settings.menu ∅ (r.cycleIn .listed up).2 := by
  intro settings start down up r
  have haccepted : settings.registry true false = .ok start := rfl
  have hreached : start.Reaches (fun _ => True) r :=
    Reaches.run (s := ⟨start, down⟩) .start fun _ _ => trivial
  have hsize : r.size = 2 := by
    simp [r, start, Service.run, Service.use, Service.perform, Registry.new, Registry.register,
      slotFor, Registry.setSlot, Registry.size, Allocator.register, Settings.allocator, settings,
      Prepared.register, Prepared.new, Std.TreeMap.size_insert]
  have hlive : r.isEmpty = false := by
    rw [r.isEmpty_eq, hsize]
    rfl
  obtain ⟨-, hdown, -⟩ := round_all_or_nothing haccepted hreached down .listed
  obtain ⟨-, hup, -⟩ := round_all_or_nothing haccepted hreached up .listed
  obtain ⟨hfails, hsame⟩ := (hdown rfl).1 _ rfl
  obtain ⟨hpublishes, hnew⟩ := (hup rfl).2 ∅ (by simp [up, Coordinator.ofRankings, Rankings.under])
  rw [hlive] at hfails
  rw [hsize] at hpublishes
  exact ⟨haccepted, hreached, hsize, hfails, hsame, hpublishes, hnew⟩

end Registry
end EdgePlacement

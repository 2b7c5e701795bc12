import EdgePlacement.Proofs.CommandLine.Line
import EdgePlacement.Proofs.Network.Single
import EdgePlacement.Proofs.Network.Stock

/-!
What the program prints.

A run that comes to asking for space has booted (`Boots`): everything has been read, the state
has been loaded and the round of cycles has succeeded. By then the allocator of a location
chooses from the stock that the state document gives the location, and where the document lists
no content there is no allocator (`Boots.stocked`). The rest of a run is one request after the
other to that allocator (`simulate_of_live`), and every answer can be read off its line, so that
what is printed fits (`printed_within_space`). -/
namespace EdgePlacement.CommandLine
open Allocator Registry

/-! ### Rounds of requests -/

/-- The answers of a location's allocator, numbered. -/
theorem simulate_of_live {registry : Registry} {location : String} {slot : Slot}
    (there : registry.slots[location]? = some slot) (space : UInt64) (round n : Nat) :
    simulate registry location space round n =
      .ok (((slot.allocator.answers space n).zipIdx round).map fun (content, round) =>
        ⟨round, location, space, content⟩) := by
  induction n generalizing registry slot round with
  | zero => rfl
  | succ n ih =>
    have hcall : registry.allocate location space = (.ok (slot.allocator.allocate space).1,
        registry.setSlot location
          { slot with allocator := (slot.allocator.allocate space).2 }) := by
      unfold Registry.allocate
      rw [there]
    rw [simulate, hcall]
    simp only
    rw [ih ((slots_setSlot ..).trans (if_pos rfl))]
    rfl

theorem simulate_of_none {registry : Registry} {location : String}
    (absent : registry.slots[location]? = none) (space : UInt64) (round n : Nat) :
    simulate registry location space round (n + 1) = .error (.unknownLocation location) := by
  unfold simulate Registry.allocate
  rw [absent]

/-! ### Booting -/

/-- Everything has been read, the state has been loaded, and the round of cycles has succeeded
and left the registry `booted`. -/
inductive Boots (request : Request) (files : String → File) (settings : Settings)
    (state : NetworkState) (booted : Registry) : Prop where
  | intro {coordinator : Option Coordinator} {start : Registry} {report : Report}
    {published : Nat} (configured : request.settings files = .ok settings)
    (coordinated : request.coordinator files settings.strategy = .ok coordinator)
    (accepted : settings.registry coordinator.isSome false = .ok start)
    (read : request.networkState files = .ok state)
    (loaded : (start.replay state.reader).result = .ok report)
    (cycled : (start.replay state.reader).registry.cycle
      (coordinator.getD (.ofRankings ∅)) = (.ok published, booted))

section Boots
variable {request : Request} {files : String → File} {settings : Settings} {state : NetworkState}
  {booted : Registry}

/-- With the greedy strategy a run boots if it can read what it needs, and all content listed is
described. -/
theorem boots_of_greedy (configured : request.settings files = .ok settings)
    (strategy : settings.strategy = .greedy) (checked : settings.check = .ok ())
    (read : request.networkState files = .ok state) {pieces : List Piece}
    (described : state.reader.scan = pieces.map .ok) :
    ∃ booted, Boots request files settings state booted := by
  have accepted : settings.registry false false =
      .ok (.new fun _ => .ok (settings.allocator false)) :=
    registry_eq_ok_iff.2 ⟨checked, by simp [strategy], rfl⟩
  obtain ⟨keys, hcoherent⟩ := coherent_of_settings accepted
  obtain ⟨report, loaded⟩ := hcoherent.replay_ok (site_new _) (fun _ => ⟨_, rfl⟩)
    state.failsByState_reader described
  have huniform := (uniform_of_settings accepted).replay Of.next state.reader
  have hround := (huniform.round (.ofRankings ∅) .listed).1.trans
    (show answerOfRound settings _ _ = .ok 0 by rw [answerOfRound, strategy])
  have coordinated : request.coordinator files settings.strategy = .ok none := by
    rw [strategy]
    rfl
  exact ⟨_, .intro configured coordinated accepted read loaded (Prod.ext hround rfl)⟩

/-- From booting on, a run is requests for space. -/
theorem Boots.run (h : Boots request files settings state booted) : request.run files =
    match simulate booted request.location request.space 0 request.rounds.toNat with
    | .error e => .error (.failure e)
    | .ok answers => .ok answers := by
  cases h with
  | intro configured coordinated accepted read loaded cycled =>
    unfold Request.run
    rw [configured]
    simp only
    rw [coordinated]
    simp only
    rw [accepted]
    simp only
    rw [read]
    simp only
    unfold Request.answers
    cases simulated : simulate booted request.location request.space 0 request.rounds.toNat with
    | error e => simp only [loaded, cycled, simulated]
    | ok answers => simp only [loaded, cycled, simulated]

/-- A run that gives answers has booted. -/
theorem boots_of_run {answers : List Answer} (h : request.run files = .ok answers) :
    ∃ settings state booted, Boots request files settings state booted := by
  unfold Request.run at h
  split at h
  · cases h
  · next settings configured =>
    split at h
    · cases h
    · next coordinator coordinated =>
      split at h
      · cases h
      · next start accepted =>
        split at h
        · cases h
        · next state read =>
          simp only at h
          unfold Request.answers at h
          split at h
          · cases h
          · next hanswers =>
            simp only at hanswers
            split at hanswers
            · cases hanswers
            · next report loaded =>
              split at hanswers
              · cases hanswers
              · next published booted cycled =>
                exact ⟨settings, state, booted,
                  .intro configured coordinated accepted read loaded cycled⟩

/-- **A location has booted if and only if content is listed there, and chooses from it.** -/
theorem Boots.stocked (h : Boots request files settings state booted) (location : String) :
    (state.contentAt location = [] → booted.slots[location]? = none) ∧
    (state.contentAt location ≠ [] → ∃ slot, booted.slots[location]? = some slot ∧
      slot.allocator.Of settings ∧ slot.allocator.Ready (state.stock location)) := by
  cases h with
  | @intro coordinator start report published configured coordinated accepted read loaded cycled =>
    obtain ⟨keys, hcoherent⟩ := coherent_of_settings accepted
    obtain ⟨-, -, rfl⟩ := registry_eq_ok_iff.1 accepted
    obtain ⟨hunlisted, hlisted⟩ := hcoherent.stocked (site_new _) loaded location
    have huniform := (uniform_of_settings accepted).replay Of.next state.reader
    rw [cycle_eq_cycleIn] at cycled
    obtain ⟨-, hcycled⟩ := huniform.round (coordinator.getD (.ofRankings ∅)) .listed
    rw [cycled] at hcycled
    refine ⟨fun hnothing => ?_, fun hsomething => ?_⟩
    · rw [hcycled.slots, hunlisted hnothing, Option.map_none, ite_self]
    · obtain ⟨slot, hslot, htracks⟩ := hlisted hsomething
      obtain ⟨generation, hok⟩ := huniform.cycle_ok_of_round (congrArg Prod.fst cycled) hslot
      exact ⟨_, hcycled.slots_of_some hslot,
        (huniform.slots location slot hslot).next (.cycle _), htracks.ready hok⟩

/-- From booting on, nothing goes wrong where content is listed. -/
theorem Boots.run_of_listed (h : Boots request files settings state booted)
    (listed : state.contentAt request.location ≠ []) :
    ∃ a : Allocator, a.Of settings ∧ a.Ready (state.stock request.location) ∧
      request.run files = .ok
        ((a.answers request.space request.rounds.toNat).zipIdx.map fun (content, round) =>
          ⟨round, request.location, request.space, content⟩) := by
  obtain ⟨slot, hslot, hof, hready⟩ := (h.stocked _).2 listed
  refine ⟨slot.allocator, hof, hready, ?_⟩
  rw [h.run, simulate_of_live hslot]

/-- With the greedy strategy a single piece of content is served round after round, where some
size class lies between its size and the space. -/
theorem Boots.run_of_single (h : Boots request files settings state booted)
    (strategy : settings.strategy = .greedy) {content : String} {item : Content}
    (hlisted : state.contentAt request.location = [content])
    (hitem : state.content[content]? = some item) (hsize : 1 ≤ item.size) {bound : UInt64}
    (hbound : bound ∈ settings.sizeClasses) (hle : item.size ≤ bound)
    (hspace : bound ≤ request.space) :
    request.run files = .ok
      ((List.replicate request.rounds.toNat [item.identity.getD content]).zipIdx.map
        fun (content, round) => ⟨round, request.location, request.space, content⟩) := by
  obtain ⟨a, hof, hready, hrun⟩ := h.run_of_listed (hlisted ▸ List.cons_ne_nil _ _)
  rw [NetworkState.stock_single hlisted hitem] at hready
  cases hof with
  | prepared other => cases strategy.symm.trans other
  | @greedy _ g table =>
    cases hready with
    | greedy consistent =>
      have hmem : bound ∈ g.table.thresholds := by
        rw [table]
        simp [Settings.classes, SizeTable.ofList, hbound]
      have hpos : 0 < bound := UInt64.lt_of_lt_of_le (UInt64.lt_iff_toNat_lt.2
        (UInt64.le_iff_toNat_le.1 hsize)) hle
      rw [hrun, answers_alone consistent
        (SizeTable.one_le_classFor (SizeTable.one_lt_size hmem hpos) hsize)
        (SizeTable.classFor_le_reach hmem hle hspace) (UInt64.le_trans hle hspace)]

end Boots

/-! ### Output -/

theorem exists_rounds {request : Request} (h : 1 ≤ request.rounds) :
    ∃ n, request.rounds.toNat = n + 1 := by
  have hpos : 1 ≤ request.rounds.toNat := UInt64.le_iff_toNat_le.1 h
  exact ⟨request.rounds.toNat - 1, by omega⟩

theorem outcome_of_run {args : List String} {request : Request} {files : String → File}
    {answers : List Answer} (asked : Request.ofArguments args = .ok request)
    (run : request.run files = .ok answers) :
    outcome args files = ⟨0, answers.map Answer.line, none⟩ := by
  rw [outcome, asked]
  simp only [run]

/-- The lines are read as the answers. -/
theorem map_ofText_lines (answers : List Answer) :
    (answers.map Answer.line).map Answer.ofText? = answers.map some := by
  rw [List.map_map]
  exact List.map_congr_left fun a _ => ofText_line a

/-- **What is printed never overcommits the server.** Let the arguments ask for at least one
round. If the program succeeds, content is listed at the location, and it prints one line for each
round and nothing else. Read back, the lines are numbered from 0 on, and name the location, the
space and content. The ids in a line are distinct, servers of the location list content that
carries them, and the sizes in stock there add up to no more than the space. With the precomputed
strategy all lines have the same content. But where no content is listed at the location, a run
that has come as far as that fails because it does not know the location. -/
theorem printed_within_space {args : List String} {request : Request}
    (asked : Request.ofArguments args = .ok request) (rounds : 1 ≤ request.rounds)
    (files : String → File) :
    ((outcome args files).exitCode = 0 →
      ∃ settings state booted, ∃ contents : List (List String),
        Boots request files settings state booted ∧ state.contentAt request.location ≠ [] ∧
        (∃ lines, outcome args files = ⟨0, lines, none⟩ ∧
          lines = (contents.zipIdx.map fun (content, round) =>
            Answer.line ⟨round, request.location, request.space, content⟩) ∧
          lines.map Answer.ofText? = (contents.zipIdx.map fun (content, round) =>
            some ⟨round, request.location, request.space, content⟩) ∧
          ∀ line ∈ lines, '\n' ∉ line.toList) ∧
        contents.length = request.rounds.toNat ∧
        (∀ content ∈ contents, content.Nodup ∧
          (∀ id ∈ content, state.Lists request.location id ∧
            (state.stock request.location id).isSome = true) ∧
          (state.stock request.location).bytes content ≤ request.space.toNat) ∧
        (settings.strategy = .precomputed → ∀ content ∈ contents, ∀ other ∈ contents,
          content = other)) ∧
    ∀ settings state booted, Boots request files settings state booted →
      state.contentAt request.location = [] →
        request.run files = .error (.failure (.unknownLocation request.location)) ∧
        outcome args files = ⟨1, [], some ("Error: Unknown location: " ++ request.location)⟩ := by
  obtain ⟨n, hn⟩ := exists_rounds rounds
  have hunlisted : ∀ settings state booted, Boots request files settings state booted →
      state.contentAt request.location = [] →
        request.run files = .error (.failure (.unknownLocation request.location)) := by
    intro settings state booted hboots hnothing
    rw [hboots.run, hn, simulate_of_none ((hboots.stocked _).1 hnothing)]
  constructor
  · intro hexit
    cases hrun : request.run files with
    | error fault =>
      rw [outcome, asked] at hexit
      simp only [hrun] at hexit
      cases hexit
    | ok answers =>
      obtain ⟨settings, state, booted, hboots⟩ := boots_of_run hrun
      have hlisted : state.contentAt request.location ≠ [] := fun hnothing => by
        cases (hunlisted settings state booted hboots hnothing).symm.trans hrun
      obtain ⟨a, hof, hready, hanswers⟩ := hboots.run_of_listed hlisted
      refine ⟨settings, state, booted, a.answers request.space request.rounds.toNat,
        hboots, hlisted, ⟨_, outcome_of_run asked hanswers, ?_, ?_, fun line hline => ?_⟩,
        length_answers .., fun content hcontent => ?_, fun hprepared => ?_⟩
      · rw [List.map_map]
        rfl
      · rw [map_ofText_lines, List.map_map]
        rfl
      · obtain ⟨answer, -, rfl⟩ := List.mem_map.1 hline
        exact newline_not_mem_line answer
      · obtain ⟨hnodup, hids, hbytes⟩ := hready.answers _ _ content hcontent
        exact ⟨hnodup, fun id hid => ⟨NetworkState.lists_of_stock (hids id hid), hids id hid⟩,
          hbytes⟩
      · cases hof with
        | greedy strategy table => cases strategy.symm.trans hprepared
        | prepared strategy menu key =>
          rw [answers_prepared]
          intro content hcontent other hother
          rw [List.eq_of_mem_replicate hcontent, List.eq_of_mem_replicate hother]
  · intro settings state booted hboots hnothing
    have hrun := hunlisted settings state booted hboots hnothing
    refine ⟨hrun, ?_⟩
    rw [outcome, asked]
    simp only [hrun]
    rfl

theorem text_ofText (text : String) : (File.ofText text).text = .ok text := by
  have htext : String.fromUTF8? text.toUTF8 = some text := dif_pos text.isValidUTF8
  simp only [File.text, File.ofText, htext]

/-- One server with one piece of content, and requests for its location and for another. -/
theorem printed_within_space_one_server :
    let document := "\x7b\"servers\":\x7b\"a\":\x7b\"location\":\"eu\",\"content\":[\"film\"]\x7d\x7d,"
      ++ "\"content\":\x7b\"film\":\x7b\"size\":5\x7d\x7d\x7d"
    let files : String → File := fun _ => .ofText document
    let here := ["-s", "net", "-l", "eu", "-b", "2000", "-n", "2"]
    let elsewhere := ["-s", "net", "-l", "us", "-b", "2000", "-n", "2"]
    let lines := ["\x7b\"content\":[\"film\"],\"location\":\"eu\",\"round\":0,\"space\":2000\x7d",
      "\x7b\"content\":[\"film\"],\"location\":\"eu\",\"round\":1,\"space\":2000\x7d"]
    outcome here files = ⟨0, lines, none⟩ ∧
      (∃ contents : List (List String), contents = [["film"], ["film"]] ∧
        lines.map Answer.ofText? = contents.zipIdx.map fun (content, round) =>
          some ⟨round, "eu", 2000, content⟩) ∧
      outcome elsewhere files = ⟨1, [], some "Error: Unknown location: us"⟩ := by
  intro document files here elsewhere lines
  have hread : ((NetworkState.ofText document).toOption.map fun state =>
      (state.servers.toList, state.content.toList)) =
        some ([("a", ⟨"eu", ["film"]⟩)], [("film", ⟨5, none⟩)]) := by decide +kernel
  obtain ⟨state, hstate, hlists⟩ := Option.map_eq_some_iff.1 hread
  obtain ⟨hservers, hcontent⟩ := Prod.mk.inj hlists
  have hfilm : state.content["film"]? = some ⟨5, none⟩ :=
    Std.TreeMap.mem_toList_iff_getElem?_eq_some.1 (hcontent ▸ List.mem_singleton_self _)
  have hscan : state.reader.scan = ([⟨"eu", "film", 5⟩] : List Piece).map .ok := by
    rw [state.scan_reader, hservers]
    simp [StateReader.piece, NetworkState.reader, NetworkState.item, hfilm, Except.map]
  have hboots : ∀ location, ∃ booted,
      Boots ⟨none, "net", none, location, 2000, 2⟩ files .default state booted := by
    refine fun location => boots_of_greedy rfl rfl rfl ?_ hscan
    simp only [Request.networkState, NetworkState.ofFile, files, text_ofText]
    cases hok : NetworkState.ofText document with
    | error e =>
      rw [hok] at hstate
      cases hstate
    | ok read =>
      rw [hok] at hstate
      cases hstate
      rfl
  have hlisted : state.contentAt "eu" = ["film"] := by
    rw [NetworkState.contentAt, hservers]
    rfl
  have hunlisted : state.contentAt "us" = [] := by
    rw [NetworkState.contentAt, hservers]
    rfl
  have hhere : Request.ofArguments here = .ok ⟨none, "net", none, "eu", 2000, 2⟩ := rfl
  have helsewhere : Request.ofArguments elsewhere = .ok ⟨none, "net", none, "us", 2000, 2⟩ := rfl
  obtain ⟨booted, heu⟩ := hboots "eu"
  have hrun := heu.run_of_single rfl hlisted hfilm (by decide) (List.mem_cons_self ..) (by decide)
    (by decide)
  have hserved : ([⟨0, "eu", 2000, ["film"]⟩, ⟨1, "eu", 2000, ["film"]⟩] : List Answer).map
      Answer.line = lines := by decide +kernel
  have hout : outcome here files = ⟨0, lines, none⟩ := hserved ▸ outcome_of_run hhere hrun
  refine ⟨hout, ?_, ?_⟩
  · obtain ⟨-, -, -, contents, -, -, ⟨printed, hprinted, -, hback, -⟩, hlength, -⟩ :=
      (printed_within_space hhere (by decide) files).1 (by rw [hout])
    have hsame : printed = lines := congrArg Outcome.lines (hprinted.symm.trans hout)
    rw [hsame] at hback
    refine ⟨contents, ?_, hback⟩
    rw [← hserved, map_ofText_lines] at hback
    obtain ⟨first, second, rfl⟩ := List.length_eq_two.1 hlength
    cases hback
    rfl
  · obtain ⟨booted, hus⟩ := hboots "us"
    exact ((printed_within_space helsewhere (by decide) files).2 _ _ _ hus hunlisted).2

end EdgePlacement.CommandLine

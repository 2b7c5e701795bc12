import EdgePlacement.Proofs.Network.Reach

/-!
What a replay registers.

A replay goes through the scan of its reader up to the first failure, or the first piece that
cannot be registered, and no further. The pieces it has passed by then are all that it adds to the
registry, each pair of location and id once and in the size in which it first came up
(`replay_scan`). As a replay loads its scan, this is said of loading, where the pieces registered
are one for each pair of those passed (`Progress`). -/
namespace EdgePlacement

namespace Piece

/-- The size of the first piece of an id at a location. -/
def size? (pieces : List Piece) (location id : String) : Option UInt64 :=
  (pieces.find? fun p => p.pair = (location, id)).map (·.size)

/-- The ids of the pieces at a location. -/
def idsAt (pieces : List Piece) (location : String) : Finset String :=
  ((pieces.filter fun p => p.location = location).map (·.id)).toFinset

section Concat
variable (pieces : List Piece) (p : Piece)

/-- A further piece counts where there is none of its id at its location yet. -/
theorem size?_concat (location id : String) : size? (pieces ++ [p]) location id =
    (size? pieces location id).or (if p.pair = (location, id) then some p.size else none) := by
  unfold size?
  rw [List.find?_append, Option.map_or]
  congr 1
  by_cases hp : p.pair = (location, id)
  · simp [hp]
  · simp [hp]

theorem size?_eq_none_iff {location id : String} :
    size? pieces location id = none ↔ (location, id) ∉ pieces.map pair := by
  simp [size?, List.find?_eq_none]

theorem idsAt_concat (location : String) : idsAt (pieces ++ [p]) location =
    if p.location = location then insert p.id (idsAt pieces location)
    else idsAt pieces location := by
  unfold idsAt
  rw [List.filter_append, List.map_append, List.toFinset_append]
  split
  · next hp => simp [hp, Finset.union_comm]
  · next hp => simp [hp]

theorem mem_idsAt_iff {location id : String} :
    id ∈ idsAt pieces location ↔ (location, id) ∈ pieces.map pair := by
  simp [idsAt, pair, and_assoc]

end Concat
end Piece

namespace StateReader

/-- Whatever question has no answer, the state could not be read. -/
structure FailsByState (reader : StateReader) : Prop where
  servers : ∀ e, reader.servers = .error e → ∃ fault, e = .stateRead fault
  locationOf : ∀ server e, reader.locationOf server = .error e → ∃ fault, e = .stateRead fault
  contentOf : ∀ server e, reader.contentOf server = .error e → ∃ fault, e = .stateRead fault
  identityOf : ∀ content e, reader.identityOf content = .error e → ∃ fault, e = .stateRead fault
  bytesOf : ∀ content e, reader.bytesOf content = .error e → ∃ fault, e = .stateRead fault

theorem FailsByState.piece {reader : StateReader} (h : reader.FailsByState)
    {location content : String} {e : Failure} (he : reader.piece location content = .error e) :
    ∃ fault, e = .stateRead fault := by
  unfold StateReader.piece at he
  split at he
  · next hid =>
    cases he
    exact h.identityOf content e hid
  · split at he
    · next hsize =>
      cases he
      exact h.bytesOf content e hsize
    · cases he

theorem FailsByState.scan {reader : StateReader} (h : reader.FailsByState) {e : Failure}
    (he : .error e ∈ reader.scan) : ∃ fault, e = .stateRead fault := by
  unfold StateReader.scan at he
  cases hservers : reader.servers with
  | error e' =>
    rw [hservers] at he
    cases List.mem_singleton.1 he
    exact h.servers e hservers
  | ok servers =>
    rw [hservers] at he
    obtain ⟨server, -, hshelf⟩ := List.mem_flatMap.1 he
    unfold StateReader.shelf at hshelf
    cases hlocation : reader.locationOf server with
    | error e' =>
      rw [hlocation] at hshelf
      cases List.mem_singleton.1 hshelf
      exact h.locationOf server e hlocation
    | ok location =>
      rw [hlocation] at hshelf
      cases hcontent : reader.contentOf server with
      | error e' =>
        simp only [hcontent] at hshelf
        cases List.mem_singleton.1 hshelf
        exact h.contentOf server e hcontent
      | ok content =>
        simp only [hcontent] at hshelf
        obtain ⟨piece, -, hpiece⟩ := List.mem_map.1 hshelf
        exact h.piece hpiece

end StateReader

namespace Registry

/-! ### Loading -/

/-- The content of `r'` is that of `r` and that of the pieces, none of which is in `r`. -/
structure Loads (r : Registry) (pieces : List Piece) (r' : Registry) : Prop where
  absent : ∀ p ∈ pieces, r.bytes? p.location p.id = none
  bytes? : ∀ location id,
    r'.bytes? location id = (Piece.size? pieces location id).or (r.bytes? location id)
  live : ∀ location, r'.live location = r.live location + (Piece.idsAt pieces location).card

/-- Why the registration of a piece, or the question for it, fails with `e`, where `r` is the
registry before all registrations and `r'` the one after them. -/
inductive Stops (r r' : Registry) : Except Failure Piece → Failure → Prop where
  | unanswered (fault : StateFault) : Stops r r' (.error (.stateRead fault)) (.stateRead fault)
  | registered (p : Piece) (present : (r.bytes? p.location p.id).isSome = true) :
    Stops r r' (.ok p) (.inconsistent p.location p.id)
  | refused (p : Piece) (fault : ConfigFault) (absent : r.bytes? p.location p.id = none)
    (unplaced : r'.allocator? p.location = none)
    (made : r.factory p.location = .error (.config fault)) : Stops r r' (.ok p) (.config fault)

section Loads
variable {r r' r'' : Registry} {pieces : List Piece} {p : Piece}

theorem loads_nil (r : Registry) : r.Loads [] r where
  absent p hp := by cases hp
  bytes? location id := rfl
  live location := rfl

theorem Loads.same (h : r.Loads pieces r') (hsame : SameContent r' r'') : r.Loads pieces r'' where
  absent := h.absent
  bytes? location id := (hsame.bytes? location id).trans (h.bytes? location id)
  live location := (hsame.live location).trans (h.live location)

/-- Of two pieces with the same id at the same location the second adds nothing. -/
theorem Loads.again (h : r.Loads pieces r') (hp : p.pair ∈ pieces.map Piece.pair) :
    r.Loads (pieces ++ [p]) r' where
  absent q hq := by
    rcases List.mem_append.1 hq with hq | hq
    · exact h.absent q hq
    · obtain ⟨first, hfirst, hpair⟩ := List.mem_map.1 hp
      obtain ⟨hlocation, hid⟩ := Prod.mk.inj hpair
      rw [List.mem_singleton.1 hq, ← hlocation, ← hid]
      exact h.absent first hfirst
  bytes? location id := by
    rw [h.bytes?, Piece.size?_concat]
    by_cases hpair : p.pair = (location, id)
    · cases hsize : Piece.size? pieces location id with
      | none => exact absurd (hpair ▸ hp) ((Piece.size?_eq_none_iff pieces).1 hsize)
      | some size => rfl
    · rw [if_neg hpair, Option.or_none]
  live location := by
    rw [h.live, Piece.idsAt_concat]
    split
    · next hlocation =>
      rw [Finset.insert_eq_of_mem]
      rw [Piece.mem_idsAt_iff, ← hlocation]
      exact hp
    · rfl

/-- A registration that is accepted adds its piece. -/
theorem Loads.adds (h : r.Loads pieces r') (hp : p.pair ∉ pieces.map Piece.pair)
    (hadds : Adds r' p.location p.id p.size r'') : r.Loads (pieces ++ [p]) r'' where
  absent q hq := by
    rcases List.mem_append.1 hq with hq | hq
    · exact h.absent q hq
    · rw [List.mem_singleton.1 hq]
      exact (Option.or_eq_none_iff.1 ((h.bytes? _ _).symm.trans hadds.absent)).2
  bytes? location id := by
    rw [hadds.bytes?, h.bytes?, Piece.size?_concat]
    by_cases hpair : p.pair = (location, id)
    · obtain ⟨rfl, rfl⟩ := Prod.mk.inj hpair
      rw [if_pos ⟨rfl, rfl⟩, if_pos hpair, (Piece.size?_eq_none_iff pieces).2 hp]
      rfl
    · rw [if_neg hpair, Option.or_none, if_neg]
      rintro ⟨rfl, rfl⟩
      exact hpair rfl
  live location := by
    rw [hadds.live, h.live, Piece.idsAt_concat, Nat.add_assoc]
    by_cases hlocation : p.location = location
    · have hnew : p.id ∉ Piece.idsAt pieces location := by
        rw [Piece.mem_idsAt_iff, ← hlocation]
        exact hp
      rw [if_pos hlocation, if_pos hlocation.symm, Finset.card_insert_of_notMem hnew]
    · rw [if_neg hlocation, if_neg (Ne.symm hlocation)]
      rfl

end Loads
/-! ### Progress -/

/-- A registry that `r` has become when the pieces `passed` of a scan have been gone through. Of
these `registered` have been registered, one for each pair. -/
structure Progress (keys : String → String) (r : Registry) (passed registered : List Piece)
    (r' : Registry) : Prop where
  coherent : r'.Coherent keys
  factory : r'.factory = r.factory
  loads : r.Loads passed r'
  pairs : ∀ pair, pair ∈ registered.map Piece.pair ↔ pair ∈ passed.map Piece.pair
  nodup : (registered.map Piece.pair).Nodup

section Progress
variable {keys : String → String} {r r' : Registry} {passed registered : List Piece} {p : Piece}

theorem progress_start (h : r.Coherent keys) : Progress keys r [] [] r where
  coherent := h
  factory := rfl
  loads := loads_nil r
  pairs _ := Iff.rfl
  nodup := .nil

/-- A piece whose pair has been registered is passed. -/
theorem Progress.again (h : Progress keys r passed registered r')
    (hp : p.pair ∈ registered.map Piece.pair) :
    Progress keys r (passed ++ [p]) registered r' where
  coherent := h.coherent
  factory := h.factory
  loads := h.loads.again ((h.pairs _).1 hp)
  pairs pair := by
    rw [h.pairs, List.map_append, List.mem_append, or_iff_left_of_imp]
    intro hpair
    rw [List.mem_singleton.1 hpair]
    exact (h.pairs _).1 hp
  nodup := h.nodup

/-- Any other is registered, or its registration fails and there is nothing to show for it. -/
theorem Progress.register (h : Progress keys r passed registered r')
    (hp : p.pair ∉ registered.map Piece.pair) :
    ∃ r'', (r'.register p.location p.id p.size = (.ok (), r'') ∧
        Progress keys r (passed ++ [p]) (registered ++ [p]) r'') ∨
      ∃ e, r'.register p.location p.id p.size = (.error e, r'') ∧ r.Loads passed r'' ∧
        r.Stops r'' (.ok p) (e.inReplay p.location) := by
  have hpassed : p.pair ∉ passed.map Piece.pair := fun hmem => hp ((h.pairs _).2 hmem)
  have hbytes : r'.bytes? p.location p.id = r.bytes? p.location p.id := by
    rw [h.loads.bytes?, (Piece.size?_eq_none_iff passed).2 hpassed, Option.none_or]
  obtain ⟨r'', hcoherent, hfactory, ⟨e, hcall, hsame, hwhy⟩ | ⟨hcall, hadds⟩⟩ :=
    h.coherent.register_cases p.location p.id p.size
  · refine ⟨r'', .inr ⟨e, hcall, h.loads.same hsame, ?_⟩⟩
    rcases hwhy with ⟨rfl, hpresent⟩ | ⟨habsent, hunplaced, hmade⟩
    · exact .registered p (hbytes ▸ hpresent)
    · obtain ⟨fault, rfl⟩ := h.coherent.refuses p.location e hmade
      exact .refused p fault (hbytes ▸ habsent) hunplaced (h.factory ▸ hmade)
  · refine ⟨r'', .inl ⟨hcall, hcoherent, hfactory.trans h.factory, h.loads.adds hpassed hadds,
      fun pair => ?_, ?_⟩⟩
    · rw [List.map_append, List.map_append, List.mem_append, List.mem_append, h.pairs]
    · rw [List.map_append, List.map_singleton, ← List.concat_eq_append]
      exact h.nodup.concat hp

/-- As many are registered as there are pairs, and at as many locations. -/
theorem Progress.report (h : Progress keys r passed registered r') {reader : StateReader}
    {servers : List String} (hservers : reader.servers = .ok servers) :
    reader.report registered = ⟨servers.length, (passed.map Piece.pair).toFinset.card,
      (passed.map Piece.location).toFinset.card⟩ := by
  have hpairs : (registered.map Piece.pair).toFinset = (passed.map Piece.pair).toFinset := by
    ext pair
    rw [List.mem_toFinset, List.mem_toFinset, h.pairs]
  have hlocations : (registered.map Piece.location).toFinset =
      (passed.map Piece.location).toFinset := by
    have hfst : ∀ pieces : List Piece, (pieces.map Piece.location).toFinset =
        (pieces.map Piece.pair).toFinset.image Prod.fst := fun pieces => by
      ext location
      simp [Piece.pair]
    rw [hfst, hfst, hpairs]
  rw [StateReader.report, StateReader.listed, hservers, hlocations, ← hpairs,
    List.toFinset_card_of_nodup h.nodup, List.length_map]

/-! ### Stretches of a scan -/

/-- What can come of loading a stretch of a scan after the pieces `passed`: all of it is passed,
or the load stops somewhere in it. -/
inductive Outcome (keys : String → String) (r : Registry) (passed : List Piece)
    (stretch : List (Except Failure Piece)) : Except Failure (List Piece) × Registry → Prop where
  | finished {registered : List Piece} {r' : Registry} (pieces : List Piece)
    (all : stretch = pieces.map .ok)
    (progress : Progress keys r (passed ++ pieces) registered r') :
    Outcome keys r passed stretch (.ok registered, r')
  | stopped {e : Failure} {r' : Registry} (pieces : List Piece) (failing : Except Failure Piece)
    (rest : List (Except Failure Piece)) (here : stretch = pieces.map .ok ++ failing :: rest)
    (loads : r.Loads (passed ++ pieces) r') (why : r.Stops r' failing e) :
    Outcome keys r passed stretch (.error e, r')

/-- A piece that is passed belongs to what is passed after it. -/
theorem Outcome.cons {rest : List (Except Failure Piece)}
    {out : Except Failure (List Piece) × Registry} (h : Outcome keys r (passed ++ [p]) rest out) :
    Outcome keys r passed (.ok p :: rest) out := by
  cases h with
  | finished pieces all progress =>
    rw [List.append_assoc] at progress
    exact .finished (p :: pieces) (by rw [all, List.map_cons]) progress
  | stopped pieces failing rest here loads why =>
    rw [List.append_assoc] at loads
    exact .stopped (p :: pieces) failing rest (by rw [here, List.map_cons, List.cons_append]) loads
      why

theorem Progress.load {stretch : List (Except Failure Piece)}
    (hstretch : ∀ e, .error e ∈ stretch → ∃ fault, e = .stateRead fault)
    (h : Progress keys r passed registered r') :
    Outcome keys r passed stretch (r'.load registered stretch) := by
  induction stretch generalizing r' passed registered with
  | nil => exact .finished [] rfl (by rwa [List.append_nil])
  | cons first rest ih =>
    have hrest := fun e he => hstretch e (List.mem_cons_of_mem _ he)
    cases first with
    | error e =>
      obtain ⟨fault, rfl⟩ := hstretch e (List.mem_cons_self ..)
      exact .stopped [] _ rest rfl (by rw [List.append_nil]; exact h.loads) (.unanswered fault)
    | ok p =>
      by_cases hp : p.pair ∈ registered.map Piece.pair
      · rw [load_again hp]
        exact (ih hrest (h.again hp)).cons
      · obtain ⟨r'', ⟨hcall, hnext⟩ | ⟨e, hcall, hloads, hstops⟩⟩ := h.register hp
        · rw [load_accepted hp hcall]
          exact (ih hrest hnext).cons
        · rw [load_refused hp hcall]
          exact .stopped [] _ rest rfl (by rwa [List.append_nil]) hstops

/-- A replay registers all its scan or stops at an entry of it, with nothing but pieces before. -/
theorem Coherent.replay_cases (h : r.Coherent keys) {reader : StateReader}
    (hreader : reader.FailsByState) :
    (∃ servers pieces, reader.servers = .ok servers ∧ reader.scan = pieces.map .ok ∧
        (r.replay reader).result = .ok ⟨servers.length, (pieces.map Piece.pair).toFinset.card,
          (pieces.map Piece.location).toFinset.card⟩ ∧
        (r.replay reader).registry.Coherent keys ∧ r.Loads pieces (r.replay reader).registry) ∨
      ∃ (e : Failure) (done : List Piece) (failing : Except Failure Piece)
        (rest : List (Except Failure Piece)), (r.replay reader).result = .error e ∧
          reader.scan = done.map .ok ++ failing :: rest ∧
          r.Loads done (r.replay reader).registry ∧
          r.Stops (r.replay reader).registry failing e := by
  obtain ⟨hresult, hregistry⟩ := r.replay_eq_load reader
  rw [hresult, hregistry]
  have hload : Outcome keys r [] reader.scan (r.load [] reader.scan) :=
    (progress_start h).load fun e he => hreader.scan he
  generalize r.load [] reader.scan = loaded at hload ⊢
  cases hload with
  | finished pieces all progress =>
    cases hservers : reader.servers with
    | error e =>
      -- Where there is no list of servers, the scan is that failure and nothing else.
      rw [StateReader.scan, hservers] at all
      cases pieces <;> cases all
    | ok servers =>
      exact .inl ⟨servers, pieces, rfl, all, congrArg Except.ok (progress.report hservers),
        progress.coherent, progress.loads⟩
  | stopped done failing rest here loads why =>
    exact .inr ⟨_, done, failing, rest, rfl, here, loads, why⟩

end Progress

/-- **A replay registers what its scan comes to.** Let all questions without an answer fail
for want of state, and let calls and replays have led to the registry, from an empty one over a
factory of fresh allocators that fails for the settings alone. If the replay yields a report, the
scan has no failure, none of its pieces was in the registry, and the registry now has them
besides what it had; the report counts the servers, the pairs of location and id, and the
locations. If it fails, it does so for the first entry of the scan for which that is not so:
a question without an answer, a piece that was in the registry before, or one at a location
for which no allocator is made. The pieces before it are what has come to the registry. -/
theorem replay_scan {factory : String → Except Failure Allocator}
    (makes : ∀ location a, factory location = .ok a → a.Fresh)
    (refuses : ∀ location e, factory location = .error e → ∃ fault, e = .config fault)
    {r : Registry} (hr : (new factory).Reaches Use.Counted r) {reader : StateReader}
    (hreader : reader.FailsByState) :
    (∀ report, (r.replay reader).result = .ok report →
      ∃ servers pieces, reader.servers = .ok servers ∧ reader.scan = pieces.map .ok ∧
        r.Loads pieces (r.replay reader).registry ∧
        report = ⟨servers.length, (pieces.map Piece.pair).toFinset.card,
          (pieces.map Piece.location).toFinset.card⟩) ∧
    ∀ e, (r.replay reader).result = .error e →
      ∃ done failing rest, reader.scan = done.map .ok ++ failing :: rest ∧
        r.Loads done (r.replay reader).registry ∧
        r.Stops (r.replay reader).registry failing e := by
  obtain ⟨keys, hnew⟩ := coherent_new makes refuses
  obtain ⟨servers, pieces, hservers, hscan, hok, -, hloads⟩ |
    ⟨e, done, failing, rest, herror, hscan, hloads, hstops⟩ :=
    (hr.coherent hnew).replay_cases hreader
  · rw [hok]
    refine ⟨fun report hreport => ?_, (fun e he => by cases he)⟩
    cases hreport
    exact ⟨servers, pieces, hservers, hscan, hloads, rfl⟩
  · rw [herror]
    refine ⟨(fun report hreport => by cases hreport), fun e he => ?_⟩
    cases he
    exact ⟨done, failing, rest, hscan, hloads, hstops⟩

/-- A server that is listed twice and an id that comes up in two sizes: each id counts once,
and in the first of its sizes. -/
theorem replay_scan_repeats :
    let r := refusing (.ofList [1024]) ["closed"]
    let reader : StateReader :=
      { servers := .ok ["a", "b", "a"]
        locationOf := fun _ => .ok "eu"
        contentOf := fun server => .ok (if server = "a" then ["c1", "c2"] else ["c2", "c3"])
        identityOf := fun content => .ok (if content = "c2" then "film" else "trailer")
        bytesOf := fun content => .ok (if content = "c3" then 30 else 20) }
    (∀ location a, r.factory location = .ok a → a.Fresh) ∧
      (∀ location e, r.factory location = .error e → ∃ fault, e = .config fault) ∧
      r.Reaches Use.Counted r ∧ reader.FailsByState ∧
      (r.replay reader).result = .ok ⟨3, 2, 1⟩ ∧
      (r.replay reader).registry.bytes? "eu" "trailer" = some 20 ∧
      (r.replay reader).registry.live "eu" = 2 := by
  intro r reader
  have hmakes : ∀ location a, r.factory location = .ok a → a.Fresh :=
    fun location a ha => fresh_of_refusing ha
  have hrefuses : ∀ location e, r.factory location = .error e → ∃ fault, e = .config fault :=
    fun location e he => config_of_refusing he
  have hreader : reader.FailsByState := by
    constructor <;> intros <;> contradiction
  let pieces : List Piece := [⟨"eu", "trailer", 20⟩, ⟨"eu", "film", 20⟩, ⟨"eu", "film", 20⟩,
    ⟨"eu", "trailer", 30⟩, ⟨"eu", "trailer", 20⟩, ⟨"eu", "film", 20⟩]
  have hscan : reader.scan = pieces.map .ok := by rfl
  have hempty : ∀ location, r.site location = none := site_new _
  obtain ⟨hok, herror⟩ := replay_scan (r := r) hmakes hrefuses .start hreader
  cases hresult : (r.replay reader).result with
  | error e =>
    -- Every entry of the scan is a piece that can be registered, so none stops the replay.
    obtain ⟨done, failing, rest, hsplit, -, hstops⟩ := herror e hresult
    have hentry : failing ∈ reader.scan := hsplit ▸ List.mem_append_right _ (List.mem_cons_self ..)
    obtain ⟨p, hp, rfl⟩ := List.mem_map.1 (hscan ▸ hentry)
    have heu : p.location = "eu" := (by decide : ∀ p ∈ pieces, p.location = "eu") p hp
    cases hstops with
    | registered _ present =>
      rw [bytes?_eq, hempty] at present
      cases present
    | refused _ fault absent unplaced made =>
      rw [heu] at made
      cases made
  | ok report =>
    obtain ⟨servers, found, hservers, hfound, hloads, rfl⟩ := hok report hresult
    obtain rfl : found = pieces :=
      List.map_injective_iff.2 (fun _ _ heq => Except.ok.inj heq) (hfound.symm.trans hscan)
    cases hservers
    refine ⟨hmakes, hrefuses, .start, hreader, by decide, ?_, ?_⟩
    · rw [hloads.bytes?]
      rfl
    · rw [hloads.live, live_eq_site, hempty]
      decide

end Registry
end EdgePlacement

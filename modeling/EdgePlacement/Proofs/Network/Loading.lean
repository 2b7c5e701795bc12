import Mathlib.Data.Finset.Card
import EdgePlacement.Proofs.FairQueue.Index
import EdgePlacement.Proofs.Network.InTurn

/-!
A replay without its memory.

The scan of a reader is what a replay comes to, in order: a piece of content for every place at
which a server has one, or the failure of the question that has no answer. `Registry.load` goes
through a scan and knows nothing of questions: it registers a piece unless one with its pair has
been registered before, and stops at the first failure. A replay is that, for any reader and any
registry (`replay_eq_load`), so what it remembers of answers and of its own doing spares it
questions and changes nothing else. What each registration keeps, a replay keeps. -/
namespace EdgePlacement

/-- A piece of content as a location has it. -/
structure Piece where
  location : String
  id : String
  size : UInt64
deriving DecidableEq, Repr

def Piece.pair (p : Piece) : String × String := (p.location, p.id)

/-! ### Sets and what they were filled from -/

section Listed
variable {α : Type} [BEq α] [Hashable α] [LawfulBEq α] [LawfulHashable α] {set : Std.HashSet α}
  {listed : List α}

/-- A set and a list that have the same elements, each with one more. -/
theorem mem_insert_concat (h : ∀ x, x ∈ set ↔ x ∈ listed) (a x : α) :
    x ∈ set.insert a ↔ x ∈ listed ++ [a] := by
  rw [Std.HashSet.mem_insert, h, List.mem_append, List.mem_singleton, beq_iff_eq, or_comm,
    eq_comm (a := a)]

/-- A set counts the elements of a list once each. -/
theorem size_eq_card [DecidableEq α] (h : ∀ x, x ∈ set ↔ x ∈ listed) :
    set.size = listed.toFinset.card := by
  have hsame : set.toList.toFinset = listed.toFinset := by
    ext x
    rw [List.mem_toFinset, List.mem_toFinset, Std.HashSet.mem_toList, h]
  have hnodup : set.toList.Nodup :=
    Std.HashSet.distinct_toList.imp fun hne => by simpa using hne
  rw [← hsame, List.toFinset_card_of_nodup hnodup, Std.HashSet.length_toList]

end Listed

/-! ### Scans -/

namespace StateReader

/-- A piece of content at a location. -/
def piece (reader : StateReader) (location content : String) : Except Failure Piece :=
  match reader.identityOf content with
  | .error e => .error e
  | .ok id =>
    match reader.bytesOf content with
    | .error e => .error e
    | .ok size => .ok ⟨location, id, size⟩

/-- What a server has, in order. -/
def shelf (reader : StateReader) (server : String) : List (Except Failure Piece) :=
  match reader.locationOf server with
  | .error e => [.error e]
  | .ok location =>
    match reader.contentOf server with
    | .error e => [.error e]
    | .ok content => content.map (reader.piece location)

/-- What all servers have, in order. -/
def scan (reader : StateReader) : List (Except Failure Piece) :=
  match reader.servers with
  | .error e => [.error e]
  | .ok servers => servers.flatMap reader.shelf

end StateReader

/-! ### Loading -/

/-- A failed registration as a replay reports it. -/
def Failure.inReplay (location : String) : Failure → Failure
  | .duplicateEntry id => .inconsistent location id
  | e => e

namespace Registry

/-- Registers pieces up to the first failure, each pair of location and id once, where `done`
have been registered before. Yields all that are registered then. -/
def load (r : Registry) (done : List Piece) :
    List (Except Failure Piece) → Except Failure (List Piece) × Registry
  | [] => (.ok done, r)
  | .error e :: _ => (.error e, r)
  | .ok p :: rest =>
    if p.pair ∈ done.map Piece.pair then r.load done rest
    else
      match r.register p.location p.id p.size with
      | (.ok _, r) => r.load (done ++ [p]) rest
      | (.error e, r) => (.error (e.inReplay p.location), r)

section Load
variable {r r' : Registry} {done : List Piece} {p : Piece}

theorem load_again (h : p.pair ∈ done.map Piece.pair) (rest : List (Except Failure Piece)) :
    r.load done (.ok p :: rest) = r.load done rest := by
  rw [load, if_pos h]

theorem load_accepted (h : p.pair ∉ done.map Piece.pair)
    (hcall : r.register p.location p.id p.size = (.ok (), r'))
    (rest : List (Except Failure Piece)) :
    r.load done (.ok p :: rest) = r'.load (done ++ [p]) rest := by
  rw [load, if_neg h, hcall]

theorem load_refused (h : p.pair ∉ done.map Piece.pair) {e : Failure}
    (hcall : r.register p.location p.id p.size = (.error e, r'))
    (rest : List (Except Failure Piece)) :
    r.load done (.ok p :: rest) = (.error (e.inReplay p.location), r') := by
  rw [load, if_neg h, hcall]

/-- Loads a stretch after what has been loaded, if that has not failed. -/
def loadAfter (loaded : Except Failure (List Piece) × Registry)
    (stretch : List (Except Failure Piece)) : Except Failure (List Piece) × Registry :=
  match loaded with
  | (.error e, r) => (.error e, r)
  | (.ok done, r) => r.load done stretch

theorem loadAfter_nil (loaded : Except Failure (List Piece) × Registry) :
    loadAfter loaded [] = loaded := by
  obtain ⟨e | done, r⟩ := loaded <;> rfl

/-- One stretch after the other. -/
theorem load_append (r : Registry) (done : List Piece)
    (stretch later : List (Except Failure Piece)) :
    r.load done (stretch ++ later) = loadAfter (r.load done stretch) later := by
  induction stretch generalizing r done with
  | nil => rfl
  | cons first rest ih =>
    rw [List.cons_append]
    cases first with
    | error e => rfl
    | ok p =>
      by_cases hp : p.pair ∈ done.map Piece.pair
      · rw [load_again hp, load_again hp, ih]
      · rcases hcall : r.register p.location p.id p.size with ⟨e | _, r'⟩
        · rw [load_refused hp hcall, load_refused hp hcall]
          rfl
        · rw [load_accepted hp hcall, load_accepted hp hcall, ih]

theorem loadAfter_append (loaded : Except Failure (List Piece) × Registry)
    (stretch later : List (Except Failure Piece)) :
    loadAfter loaded (stretch ++ later) = loadAfter (loadAfter loaded stretch) later := by
  obtain ⟨e | done, r⟩ := loaded
  · rfl
  · exact load_append r done stretch later

/-- What each registration keeps, all of them keep. -/
theorem load_keeps {Q : Registry → Prop}
    (hregister : ∀ r location id size, Q r → Q (r.register location id size).2)
    (hr : Q r) (done : List Piece) (stretch : List (Except Failure Piece)) :
    Q (r.load done stretch).2 := by
  induction stretch generalizing r done with
  | nil => exact hr
  | cons first rest ih =>
    cases first with
    | error e => exact hr
    | ok p =>
      by_cases hp : p.pair ∈ done.map Piece.pair
      · rw [load_again hp]
        exact ih hr done
      · have hnext := hregister r p.location p.id p.size hr
        rcases hcall : r.register p.location p.id p.size with ⟨e | _, r'⟩
        · rw [hcall] at hnext
          rw [load_refused hp hcall]
          exact hnext
        · rw [hcall] at hnext
          rw [load_accepted hp hcall]
          exact ih hnext (done ++ [p])

/-- What has been registered stays among the registered. -/
theorem prefix_of_load {stretch : List (Except Failure Piece)} {all : List Piece}
    (h : r.load done stretch = (.ok all, r')) : done <+: all := by
  induction stretch generalizing r done with
  | nil =>
    cases h
    exact List.prefix_rfl
  | cons first rest ih =>
    cases first with
    | error e => cases h
    | ok p =>
      by_cases hp : p.pair ∈ done.map Piece.pair
      · rw [load_again hp] at h
        exact ih h
      · rcases hcall : r.register p.location p.id p.size with ⟨e | _, next⟩
        · rw [load_refused hp hcall] at h
          cases h
        · rw [load_accepted hp hcall] at h
          exact (List.prefix_append done [p]).trans (ih h)

end Load
end Registry

namespace Replay

/-! ### Memory -/

/-- What a replay remembers of the reader's answers is what the reader answers. -/
def Recalls (s : Replay) (reader : StateReader) : Prop :=
  ∀ content known, s.resolved[content]? = some known →
    ∀ location, reader.piece location content = .ok ⟨location, known.1, known.2⟩

section Recalls
variable {reader : StateReader} {s : Replay}

theorem recalls_start (r : Registry) (reader : StateReader) : (start r).Recalls reader :=
  fun content known hknown => by simp [start] at hknown

/-- An answer that was given for a piece may be remembered. -/
theorem Recalls.remember (h : s.Recalls reader) {content id : String} {size : UInt64}
    (hpiece : ∀ location, reader.piece location content = .ok ⟨location, id, size⟩) :
    Recalls { s with resolved := s.resolved.insert content (id, size) } reader := by
  intro other known hother
  rw [getElem?_insert_id] at hother
  split at hother
  · next ho =>
    cases hother
    exact ho ▸ hpiece
  · exact h other known hother

/-- Resolving content yields what the reader answers, whether or not it is asked. -/
theorem Recalls.resolve (h : s.Recalls reader) (location content : String) :
    ∃ resolved asked, Recalls { s with resolved, asked } reader ∧
      ((∃ e, s.resolve reader content = (.error e, { s with resolved, asked }) ∧
          reader.piece location content = .error e) ∨
        ∃ id size, s.resolve reader content = (.ok (id, size), { s with resolved, asked }) ∧
          reader.piece location content = .ok ⟨location, id, size⟩) := by
  unfold Replay.resolve
  cases hknown : s.resolved[content]? with
  | some known => exact ⟨_, _, h, .inr ⟨_, _, rfl, h content known hknown location⟩⟩
  | none =>
    simp only
    cases hid : reader.identityOf content with
    | error e =>
      refine ⟨_, .identityOf content :: s.asked, h, .inl ⟨e, rfl, ?_⟩⟩
      unfold StateReader.piece
      rw [hid]
    | ok id =>
      simp only
      cases hsize : reader.bytesOf content with
      | error e =>
        refine ⟨_, .bytesOf content :: .identityOf content :: s.asked, h, .inl ⟨e, rfl, ?_⟩⟩
        unfold StateReader.piece
        simp only [hid, hsize]
      | ok size =>
        have hpiece : ∀ location, reader.piece location content = .ok ⟨location, id, size⟩ := by
          intro location
          unfold StateReader.piece
          simp only [hid, hsize]
        exact ⟨_, .bytesOf content :: .identityOf content :: s.asked, h.remember hpiece,
          .inr ⟨id, size, rfl, hpiece location⟩⟩

end Recalls

/-- What a replay remembers, of answers and of the pieces `done` it has registered, is right. -/
structure Remembers (s : Replay) (reader : StateReader) (done : List Piece) : Prop where
  resolved : s.Recalls reader
  seen : ∀ pair, pair ∈ s.seen ↔ pair ∈ done.map Piece.pair
  locations : ∀ location, location ∈ s.locations ↔ location ∈ done.map Piece.location
  entries : s.entries = done.length

/-- What comes of a replay where this comes of loading: as much is registered, and the replay
remembers it. -/
inductive Follows (reader : StateReader) :
    Except Failure (List Piece) × Registry → Except Failure Unit × Replay → Prop where
  | finished {s : Replay} {done : List Piece} (remembers : s.Remembers reader done) :
    Follows reader (.ok done, s.registry) (.ok (), s)
  | stopped (s : Replay) (e : Failure) : Follows reader (.error e, s.registry) (.error e, s)

section Follows
variable {reader : StateReader} {s : Replay} {done : List Piece}

theorem remembers_start (r : Registry) (reader : StateReader) :
    (start r).Remembers reader [] where
  resolved := recalls_start r reader
  seen pair := by simp [start]
  locations location := by simp [start]
  entries := rfl

theorem Remembers.ask (h : s.Remembers reader done) (query : Query) :
    (s.ask query).Remembers reader done :=
  ⟨h.resolved, h.seen, h.locations, h.entries⟩

/-- Placing a piece does what loading it does. -/
theorem Remembers.place (h : s.Remembers reader done) (p : Piece) :
    Follows reader (s.registry.load done [.ok p]) (s.place p.location p.id p.size) := by
  unfold Replay.place
  have hseen : s.seen.contains (p.location, p.id) = true ↔ p.pair ∈ done.map Piece.pair := by
    rw [Std.HashSet.contains_iff_mem, h.seen]
    rfl
  by_cases hp : p.pair ∈ done.map Piece.pair
  · rw [if_pos (hseen.2 hp), Registry.load_again hp]
    exact .finished h
  · rw [if_neg fun hand => hp (hseen.1 hand)]
    simp only
    rcases hcall : s.registry.register p.location p.id p.size with ⟨e | _, r'⟩
    · rw [Registry.load_refused hp hcall]
      cases e <;> exact .stopped { s with registry := r', seen := _ } _
    · rw [Registry.load_accepted hp hcall]
      refine .finished (s := { s with
        registry := r', seen := _, locations := _, entries := s.entries + 1 })
        ⟨h.resolved, fun pair => ?_, fun location => ?_, ?_⟩
      · rw [List.map_append]
        exact mem_insert_concat h.seen p.pair pair
      · rw [List.map_append]
        exact mem_insert_concat h.locations p.location location
      · show s.entries + 1 = _
        rw [h.entries, List.length_append]
        rfl

/-- Dealing with a piece of content loads what the reader tells of it. -/
theorem Remembers.bring (h : s.Remembers reader done) (location content : String) :
    Follows reader (s.registry.load done [reader.piece location content])
      (s.bring reader location content) := by
  unfold Replay.bring
  obtain ⟨resolved, asked, hrecalls, ⟨e, hcall, hpiece⟩ | ⟨id, size, hcall, hpiece⟩⟩ :=
    h.resolved.resolve location content
  · rw [hcall, hpiece]
    exact .stopped { s with resolved, asked } e
  · rw [hcall, hpiece]
    have hknows : Remembers { s with resolved, asked } reader done :=
      ⟨hrecalls, h.seen, h.locations, h.entries⟩
    exact hknows.place ⟨location, id, size⟩

/-- Whatever takes steps that load something each loads it all. -/
theorem Remembers.inTurn {step : Replay → String → Except Failure Unit × Replay}
    {listed : String → List (Except Failure Piece)}
    (hstep : ∀ {s done}, Remembers s reader done → ∀ one,
      Follows reader (s.registry.load done (listed one)) (step s one))
    (h : s.Remembers reader done) (all : List String) :
    Follows reader (s.registry.load done (all.flatMap listed)) (s.inTurn step all) := by
  refine inTurn_matches Registry.loadAfter_nil Registry.loadAfter_append
    (fun hstopped listed => ?_) (fun hgoes one => ?_) (Follows.finished h) all
  · cases hstopped with
    | stopped => exact .stopped _ _
  · cases hgoes with
    | finished remembers => exact hstep remembers one

variable {bring : Replay → String → String → Except Failure Unit × Replay}
  (hbring : ∀ {s done}, Remembers s reader done → ∀ location content,
    Follows reader (s.registry.load done [reader.piece location content])
      (bring s location content))
include hbring

/-- One server. -/
theorem Remembers.visit (h : s.Remembers reader done) (server : String) :
    Follows reader (s.registry.load done (reader.shelf server))
      (s.visit bring reader server) := by
  unfold Replay.visit StateReader.shelf
  cases reader.locationOf server with
  | error e => exact .stopped (s.ask _) e
  | ok location =>
    simp only
    cases reader.contentOf server with
    | error e => exact .stopped ((s.ask _).ask _) e
    | ok content =>
      simp only
      rw [List.map_eq_flatMap]
      exact ((h.ask (.locationOf server)).ask (.contentOf server)).inTurn
        (fun h content => hbring h location content) content

end Follows
end Replay

/-- The number of servers listed, 0 if there is no list. -/
def StateReader.listed (reader : StateReader) : Nat :=
  match reader.servers with
  | .ok servers => servers.length
  | .error _ => 0

/-- What there is to report of the pieces registered. -/
def StateReader.report (reader : StateReader) (done : List Piece) : Report :=
  ⟨reader.listed, done.length, (done.map Piece.location).toFinset.card⟩

namespace Registry

/-- A replay in any way that loads each piece of content loads its scan. -/
theorem replayBy_eq_load {reader : StateReader}
    {bring : Replay → String → String → Except Failure Unit × Replay}
    (hbring : ∀ {s done}, Replay.Remembers s reader done → ∀ location content,
      Replay.Follows reader (s.registry.load done [reader.piece location content])
        (bring s location content)) (r : Registry) :
    (r.replayBy bring reader).result = (r.load [] reader.scan).1.map reader.report ∧
      (r.replayBy bring reader).registry = (r.load [] reader.scan).2 := by
  unfold replayBy StateReader.scan
  cases hservers : reader.servers with
  | error e => exact ⟨rfl, rfl⟩
  | ok servers =>
    have hall : Replay.Follows reader (r.load [] (servers.flatMap reader.shelf))
        (((Replay.start r).ask .servers).inTurn (Replay.visit bring · reader ·) servers) :=
      ((Replay.remembers_start r reader).ask .servers).inTurn
        (fun h server => h.visit hbring server) servers
    simp only
    generalize r.load [] (servers.flatMap reader.shelf) = loaded at hall ⊢
    generalize Replay.inTurn _ _ servers = replayed at hall ⊢
    cases hall with
    | stopped s e => exact ⟨rfl, rfl⟩
    | finished remembers =>
      refine ⟨?_, rfl⟩
      simp only [Replay.close, Except.map, StateReader.report, StateReader.listed, hservers,
        remembers.entries, size_eq_card remembers.locations]

/-- **A replay loads its scan.** -/
theorem replay_eq_load (r : Registry) (reader : StateReader) :
    (r.replay reader).result = (r.load [] reader.scan).1.map reader.report ∧
      (r.replay reader).registry = (r.load [] reader.scan).2 := by
  rw [r.replay_eq_replayBy]
  exact replayBy_eq_load (fun h location content => h.bring location content) r

/-- What each registration keeps, a replay keeps. -/
theorem replay_keeps {Q : Registry → Prop}
    (hregister : ∀ r location id size, Q r → Q (r.register location id size).2)
    {r : Registry} (hr : Q r) (reader : StateReader) : Q (r.replay reader).registry := by
  rw [(r.replay_eq_load reader).2]
  exact load_keeps hregister hr [] reader.scan

end Registry
end EdgePlacement

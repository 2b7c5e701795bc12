import EdgePlacement.Network.Registry
import EdgePlacement.Network.State
import Std.Data.HashSet

/-!
Replaying network state into a registry.

Servers are taken in the order listed, and the content of each in its own order. Every
piece of content is registered under its functional id at the server's location, once per
location however many servers there serve it. What a piece of content is, its functional
id and its size, is asked once and remembered.

The replay stops at the first answer that is missing and at the first registration that
fails. A registry that already holds an entry about to be registered disagrees with the
state, which is reported as an inconsistency. -/
namespace EdgePlacement

/-- What a replay registered. -/
structure Report where
  /-- Servers listed. -/
  servers : Nat
  /-- Entries registered. -/
  entries : Nat
  /-- Locations at which an entry was registered. -/
  locations : Nat
deriving DecidableEq, Repr

/-- A question put to the reader. -/
inductive Query where
  | servers
  | locationOf (server : String)
  | contentOf (server : String)
  | identityOf (content : String)
  | bytesOf (content : String)
deriving DecidableEq, Repr

/-- How far a replay has come. -/
structure Replay where
  registry : Registry
  /-- The functional id and size of each piece of content asked about. -/
  resolved : Std.HashMap String (String × UInt64)
  /-- Locations with the functional ids dealt with there. -/
  seen : Std.HashSet (String × String)
  /-- Locations at which an entry was registered. -/
  locations : Std.HashSet String
  /-- Entries registered. -/
  entries : Nat
  /-- The questions put to the reader, latest first. -/
  asked : List Query

namespace Replay

def start (registry : Registry) : Replay := ⟨registry, ∅, ∅, ∅, 0, []⟩

def ask (s : Replay) (query : Query) : Replay := { s with asked := query :: s.asked }

/-- The functional id and size of a piece of content. -/
def resolve (s : Replay) (reader : StateReader) (content : String) :
    Except Failure (String × UInt64) × Replay :=
  match s.resolved[content]? with
  | some known => (.ok known, s)
  | none =>
    let s := s.ask (.identityOf content)
    match reader.identityOf content with
    | .error e => (.error e, s)
    | .ok id =>
      let s := s.ask (.bytesOf content)
      match reader.bytesOf content with
      | .error e => (.error e, s)
      | .ok size => (.ok (id, size), { s with resolved := s.resolved.insert content (id, size) })

/-- Registers an entry at a location where it has not been dealt with yet. -/
def place (s : Replay) (location id : String) (size : UInt64) : Except Failure Unit × Replay :=
  if s.seen.contains (location, id) then (.ok (), s)
  else
    let s := { s with seen := s.seen.insert (location, id) }
    match s.registry.register location id size with
    | (.ok _, registry) =>
      (.ok (), { s with
        registry
        locations := s.locations.insert location
        entries := s.entries + 1 })
    | (.error (.duplicateEntry id), registry) =>
      (.error (.inconsistent location id), { s with registry })
    | (.error e, registry) => (.error e, { s with registry })

/-- Replays the content of one server. -/
def serve (s : Replay) (reader : StateReader) (location : String) :
    List String → Except Failure Unit × Replay
  | [] => (.ok (), s)
  | content :: rest =>
    match s.resolve reader content with
    | (.error e, s) => (.error e, s)
    | (.ok (id, size), s) =>
      match s.place location id size with
      | (.error e, s) => (.error e, s)
      | (.ok _, s) => s.serve reader location rest

/-- Replays servers in order. -/
def serveAll (s : Replay) (reader : StateReader) : List String → Except Failure Unit × Replay
  | [] => (.ok (), s)
  | server :: rest =>
    let s := s.ask (.locationOf server)
    match reader.locationOf server with
    | .error e => (.error e, s)
    | .ok location =>
      let s := s.ask (.contentOf server)
      match reader.contentOf server with
      | .error e => (.error e, s)
      | .ok content =>
        match s.serve reader location content with
        | (.error e, s) => (.error e, s)
        | (.ok _, s) => s.serveAll reader rest

end Replay

/-- The outcome of a replay: its report or the failure that ended it, the registry, and the
questions asked, in order. -/
structure Replayed where
  result : Except Failure Report
  registry : Registry
  queries : List Query

/-- Registers all content a reader tells of. -/
def Registry.replay (registry : Registry) (reader : StateReader) : Replayed :=
  let s := (Replay.start registry).ask .servers
  match reader.servers with
  | .error e => ⟨.error e, s.registry, s.asked.reverse⟩
  | .ok servers =>
    match s.serveAll reader servers with
    | (.error e, s) => ⟨.error e, s.registry, s.asked.reverse⟩
    | (.ok _, s) =>
      ⟨.ok ⟨servers.length, s.entries, s.locations.size⟩, s.registry, s.asked.reverse⟩

end EdgePlacement

import EdgePlacement.CommandLine.Arguments
import EdgePlacement.Json.Quoted
import EdgePlacement.Network.Replay
import EdgePlacement.Settings

/-!
A run of the program.

A run takes settings, a network state and, for the precomputed strategy, rankings from
files. It replays the state, runs one cycle at every location and then makes the same
request round after round, each of which is answered by one line. -/
namespace EdgePlacement.CommandLine

/-- Why a run ended without answers. -/
inductive Fault where
  | loadingConfig (path : String) (cause : Failure)
  | loadingState (path : String) (cause : Failure)
  /-- The precomputed strategy was chosen and no rankings were given. -/
  | rankingRequired
  | failure (cause : Failure)
deriving DecidableEq, Repr

def Fault.message : Fault → String
  | .loadingConfig path _ => "loading config " ++ Text.quoted path
  | .loadingState path _ => "loading network state " ++ Text.quoted path
  | .rankingRequired => "--ranking is required for the precomputed strategy"
  | .failure cause => cause.message

/-- The answer to one round. -/
structure Answer where
  round : Nat
  location : String
  space : UInt64
  content : List String
deriving DecidableEq, Repr

/-- An answer as a line of JSON, with its keys in ascending order. -/
def Answer.line (a : Answer) : String :=
  "\x7b\"content\":[" ++ ",".intercalate (a.content.map Json.quoted)
    ++ "],\"location\":" ++ Json.quoted a.location
    ++ ",\"round\":" ++ toString a.round
    ++ ",\"space\":" ++ toString a.space ++ "\x7d"

/-- The answers to a number of rounds, the first of them being number `round`. -/
def simulate (registry : Registry) (location : String) (space : UInt64) (round : Nat) :
    Nat → Except Failure (List Answer)
  | 0 => .ok []
  | more + 1 =>
    match registry.allocate location space with
    | (.error e, _) => .error e
    | (.ok content, registry) =>
      (simulate registry location space (round + 1) more).map
        (⟨round, location, space, content⟩ :: ·)

/-- The settings of a request. -/
def Request.settings (request : Request) (files : String → File) : Except Fault Settings :=
  match request.config with
  | none => .ok .default
  | some path =>
    match Settings.ofFile (files path) with
    | .ok settings => .ok settings
    | .error e => .error (.loadingConfig path e)

/-- The coordinator of a request, which the precomputed strategy needs. -/
def Request.coordinator (request : Request) (files : String → File) (strategy : Strategy) :
    Except Fault (Option Coordinator) :=
  match strategy, request.ranking with
  | .greedy, _ => .ok none
  | .precomputed, none => .error .rankingRequired
  | .precomputed, some path => .ok (some (.ofFile path (files path)))

/-- The network state of a request. -/
def Request.networkState (request : Request) (files : String → File) :
    Except Fault NetworkState :=
  match NetworkState.ofFile (files request.state) with
  | .ok state => .ok state
  | .error e => .error (.loadingState request.state e)

/-- Replays a state into a registry, runs one cycle everywhere and answers the rounds of a
request. -/
def Request.answers (request : Request) (registry : Registry) (coordinator : Coordinator)
    (state : NetworkState) : Except Failure (List Answer) :=
  let replayed := registry.replay state.reader
  match replayed.result with
  | .error e => .error e
  | .ok _ =>
    match replayed.registry.cycle coordinator with
    | (.error e, _) => .error e
    | (.ok _, registry) => simulate registry request.location request.space 0 request.rounds.toNat

/-- Everything between a request and its answers. -/
def Request.run (request : Request) (files : String → File) : Except Fault (List Answer) :=
  match request.settings files with
  | .error e => .error e
  | .ok settings =>
    match request.coordinator files settings.strategy with
    | .error e => .error e
    | .ok coordinator =>
      match settings.registry coordinator.isSome false with
      | .error e => .error (.failure e)
      | .ok registry =>
        match request.networkState files with
        | .error e => .error e
        | .ok state =>
          let coordinator := coordinator.getD (Coordinator.ofRankings ∅)
          match request.answers registry coordinator state with
          | .error e => .error (.failure e)
          | .ok answers => .ok answers

/-! ### Outcomes -/

/-- What a run leaves: its exit code, the lines of its output and its complaint. -/
structure Outcome where
  exitCode : UInt32
  lines : List String
  complaint : Option String
deriving DecidableEq, Repr

/-- How the program is called. -/
def usage : String :=
  "Usage: edge-placement [OPTIONS] --state <STATE> --location <LOCATION> --space <SPACE>"

/-- The outcome of running the program on arguments. -/
def outcome (args : List String) (files : String → File) : Outcome :=
  match Request.ofArguments args with
  | .error .usage => ⟨2, [], some usage⟩
  | .error .help => ⟨0, [usage], none⟩
  | .ok request =>
    match request.run files with
    | .error fault => ⟨1, [], some ("Error: " ++ fault.message)⟩
    | .ok answers => ⟨0, answers.map Answer.line, none⟩

end EdgePlacement.CommandLine

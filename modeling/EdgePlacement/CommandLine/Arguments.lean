import EdgePlacement.Text.Digits

/-!
The arguments of the program.

Every parameter has a long and a one-letter name and takes one value, given as the next
argument or attached to the name. A value that is an argument of its own does not begin
with a dash, unless a single dash is all there is to it. A parameter is given at most once.
Arguments are read in order, and the first fault or request for help decides. -/
namespace EdgePlacement.CommandLine

/-- What a run is asked to do. -/
structure Request where
  /-- Where the settings are, if they are not the defaults. -/
  config : Option String
  /-- Where the network state is. -/
  state : String
  /-- Where the rankings are. -/
  ranking : Option String
  /-- The location of the requesting server. -/
  location : String
  /-- Free bytes on the requesting server. -/
  space : UInt64
  /-- How often the request is made. -/
  rounds : UInt64
deriving DecidableEq, Repr

/-- Why arguments make no request. -/
inductive Refusal where
  | usage
  | help
deriving DecidableEq, Repr

inductive Parameter where
  | config
  | state
  | ranking
  | location
  | space
  | rounds
deriving DecidableEq, Repr

namespace Parameter

def ofLong? : String → Option Parameter
  | "config" => some .config
  | "state" => some .state
  | "ranking" => some .ranking
  | "location" => some .location
  | "space" => some .space
  | "rounds" => some .rounds
  | _ => none

def ofShort? : Char → Option Parameter
  | 'c' => some .config
  | 's' => some .state
  | 'r' => some .ranking
  | 'l' => some .location
  | 'b' => some .space
  | 'n' => some .rounds
  | _ => none

end Parameter

/-! ### Values -/

/-- The parameters given so far. -/
structure Given where
  config : Option String
  state : Option String
  ranking : Option String
  location : Option String
  space : Option UInt64
  rounds : Option UInt64

namespace Given

def none : Given := ⟨.none, .none, .none, .none, .none, .none⟩

/-- The request the parameters make, if none is missing. -/
def request? (g : Given) : Option Request := do
  let state ← g.state
  let location ← g.location
  let space ← g.space
  some ⟨g.config, state, g.ranking, location, space, g.rounds.getD 1⟩

end Given

/-- A whole number of at most 64 bits in decimal, with or without a plus sign. -/
def count? (value : String) : Option UInt64 :=
  let digits :=
    match value.toList with
    | '+' :: digits => digits
    | digits => digits
  (Text.numeral? 10 digits).bind fun n =>
    if n < UInt64.size then some (UInt64.ofNat n) else none

/-- A path is not empty. -/
def path? (value : String) : Option String := if value.isEmpty then none else some value

/-- Gives a parameter a value, unless it has one or cannot take this one. -/
def Given.assign? (g : Given) (value : String) : Parameter → Option Given
  | .config =>
    if g.config.isSome then .none else (path? value).map fun v => { g with config := some v }
  | .state =>
    if g.state.isSome then .none else (path? value).map fun v => { g with state := some v }
  | .ranking =>
    if g.ranking.isSome then .none else (path? value).map fun v => { g with ranking := some v }
  | .location =>
    if g.location.isSome then .none else some { g with location := some value }
  | .space =>
    if g.space.isSome then .none else (count? value).map fun n => { g with space := some n }
  | .rounds =>
    if g.rounds.isSome then .none else (count? value).map fun n => { g with rounds := some n }

/-! ### Reading -/

/-- One argument by itself. -/
inductive Argument where
  /-- The end of the parameters. -/
  | stop
  | help
  /-- A parameter, with its value if that is attached. -/
  | parameter (p : Parameter) (attached : Option String)
  | unknown
deriving DecidableEq, Repr

/-- An argument with a long name; a value is attached by an equals sign. -/
def Argument.ofLong (cs : List Char) : Argument :=
  let name := String.ofList (cs.takeWhile (· != '='))
  let attached :=
    match cs.dropWhile (· != '=') with
    | [] => none
    | _ :: value => some (String.ofList value)
  match Parameter.ofLong? name with
  | some p => .parameter p attached
  | none => if name = "help" ∧ attached = none then .help else .unknown

/-- An argument with a one-letter name; a value is attached with or without an equals
sign. -/
def Argument.ofShort (name : Char) (rest : List Char) : Argument :=
  let attached :=
    match rest with
    | [] => none
    | '=' :: value => some (String.ofList value)
    | value => some (String.ofList value)
  match Parameter.ofShort? name with
  | some p => .parameter p attached
  | none => if name = 'h' then .help else .unknown

def Argument.ofString (text : String) : Argument :=
  match text.toList with
  | ['-', '-'] => .stop
  | '-' :: '-' :: cs => .ofLong cs
  | '-' :: name :: cs => .ofShort name cs
  | _ => .unknown

/-- Whether an argument of its own can be a value. -/
def isValue (text : String) : Bool :=
  match text.toList with
  | ['-'] => true
  | '-' :: _ => false
  | _ => true

def readFrom (g : Given) : List String → Except Refusal Given
  | [] => .ok g
  | arg :: rest =>
    match Argument.ofString arg with
    | .stop => if rest.isEmpty then .ok g else .error .usage
    | .help => .error .help
    | .unknown => .error .usage
    | .parameter p (some value) =>
      match g.assign? value p with
      | some g => readFrom g rest
      | none => .error .usage
    | .parameter p none =>
      match rest with
      | [] => .error .usage
      | value :: rest =>
        if isValue value then
          match g.assign? value p with
          | some g => readFrom g rest
          | none => .error .usage
        else .error .usage

/-- The request that arguments make. -/
def Request.ofArguments (args : List String) : Except Refusal Request :=
  match readFrom .none args with
  | .error refusal => .error refusal
  | .ok g =>
    match g.request? with
    | some request => .ok request
    | none => .error .usage

end EdgePlacement.CommandLine

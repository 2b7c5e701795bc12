import EdgePlacement.File
import EdgePlacement.Network.Registry
import EdgePlacement.Toml.Document

/-!
Settings: the strategy, its sizes and its cycle.

Settings come from a TOML document in which everything may be left out. They are usable
when the lists they need are not empty, the ranking key is not empty and the interval is
not 0; the settings of the precomputed strategy are looked at only when it is chosen, and
only when the others are in order. -/
namespace EdgePlacement

inductive Strategy where
  | greedy
  | precomputed
deriving DecidableEq, Repr

/-- How prepared answers are made. -/
structure CycleSettings where
  /-- The budgets to prepare answers for. -/
  budgets : List UInt64
  /-- Milliseconds from one cycle to the next. -/
  intervalMs : UInt64
  /-- What the ranking is asked for under. -/
  rankingKey : String
deriving DecidableEq, Repr

structure Settings where
  strategy : Strategy
  /-- The upper bounds of the size classes. -/
  sizeClasses : List UInt64
  cycle : CycleSettings
deriving DecidableEq, Repr

/-! ### Defaults -/

def kib : UInt64 := 1024
def mib : UInt64 := 1024 * kib
def gib : UInt64 := 1024 * mib

def CycleSettings.default : CycleSettings where
  budgets := [64 * mib, 256 * mib, gib, 4 * gib, 16 * gib]
  intervalMs := 60000
  rankingKey := "default"

def Settings.default : Settings where
  strategy := .greedy
  sizeClasses := [kib, 4 * kib, 64 * kib, mib, 16 * mib, 256 * mib, gib]
  cycle := .default

/-! ### Bounds -/

/-- The settings out of bounds, in the order of their names. -/
def CycleSettings.violations (c : CycleSettings) : List (String × Bound) :=
  (if c.budgets.isEmpty then [("budgets", .length)] else [])
    ++ (if c.rankingKey.isEmpty then [("ranking_key", .length)] else [])
    ++ (if c.intervalMs = 0 then [("recompute_interval_ms", .range)] else [])

namespace Settings

/-- The settings out of bounds: those of the strategy only where the others are in order. -/
def violations (s : Settings) : List (String × Bound) :=
  if s.sizeClasses.isEmpty then [("size_classes", .length)]
  else match s.strategy with
  | .greedy => []
  | .precomputed => s.cycle.violations

/-- Refuses settings that are out of bounds. -/
def check (s : Settings) : Except Failure Unit :=
  match s.violations with
  | [] => .ok ()
  | violations => .error (.config (.outOfBounds violations))

/-- The table of size classes. -/
def classes (s : Settings) : SizeTable := .ofList s.sizeClasses

/-- The menu of budgets. -/
def menu (s : Settings) : SizeTable := .ofList s.cycle.budgets

end Settings

/-! ### Documents -/

namespace Toml.Value

def text? : Value → Option String
  | .string text => text
  | _ => none

/-- A whole number that is not negative. -/
def natural? : Value → Option UInt64
  | .integer n => if 0 ≤ n ∧ n < UInt64.size then some (UInt64.ofNat n.toNat) else none
  | _ => none

def naturals? : Value → Option (List UInt64)
  | .array elements => elements.mapM natural?
  | _ => none

def isEmpty : Value → Bool
  | .table _ fields => fields.isEmpty
  | .array elements => elements.isEmpty
  | _ => false

end Toml.Value

/-- A field that may be left out, and counts as `default` then. -/
def Toml.optional? {α : Type} (read : Toml.Value → Option α) (default : α) :
    Option Toml.Value → Option α
  | none => some default
  | some v => read v

/-- A strategy is given by its name, or by a table whose one key is the name and whose
value is empty. -/
def Strategy.ofToml? (v : Toml.Value) : Option Strategy :=
  match v with
  | .string name => named name
  | .table _ [(name, v)] => if v.isEmpty then named name else none
  | _ => none
where
  named : String → Option Strategy
    | "greedy" => some .greedy
    | "precomputed" => some .precomputed
    | _ => none

/-- From the three settings, where a missing one counts as its default. -/
def CycleSettings.ofParts? (budgets interval key : Option Toml.Value) :
    Option CycleSettings := do
  let budgets ← Toml.optional? Toml.Value.naturals? default.budgets budgets
  let intervalMs ← Toml.optional? Toml.Value.natural? default.intervalMs interval
  let rankingKey ← Toml.optional? Toml.Value.text? default.rankingKey key
  some { budgets, intervalMs, rankingKey }

/-- From a table, or from an array that lists the settings in order. A date or time reads
as a table with nothing in it that is known here. -/
def CycleSettings.ofToml? : Toml.Value → Option CycleSettings
  | .table _ fields =>
    ofParts? (fields.lookup "budgets") (fields.lookup "recompute_interval_ms")
      (fields.lookup "ranking_key")
  | .array elements => ofParts? elements[0]? elements[1]? elements[2]?
  | .dateTime => some default
  | _ => none

namespace Settings

def ofToml? (fields : Toml.Fields) : Option Settings := do
  let strategy ← Toml.optional? Strategy.ofToml? default.strategy (fields.lookup "strategy")
  let sizeClasses ←
    Toml.optional? Toml.Value.naturals? default.sizeClasses (fields.lookup "size_classes")
  let cycle ← Toml.optional? CycleSettings.ofToml? default.cycle (fields.lookup "precomputed")
  some { strategy, sizeClasses, cycle }

/-- The settings of a document, checked. -/
def ofText (text : String) : Except Failure Settings :=
  match (Toml.ofText? text).bind ofToml? with
  | none => .error .toml
  | some settings => settings.check.map fun _ => settings

def ofFile (file : File) : Except Failure Settings :=
  match file.text with
  | .ok text => ofText text
  | .error e => .error e

/-! ### Registries -/

/-- The allocator of a location that is seen for the first time. -/
def allocator (s : Settings) (background : Bool) : Allocator :=
  match s.strategy with
  | .greedy => .greedy (.new s.classes)
  | .precomputed =>
    let p := Prepared.new s.menu s.cycle.rankingKey
    .prepared (if background then p.start else p)

/-- An empty registry over checked settings. The precomputed strategy needs a coordinator;
with `background`, its allocators run cycles of their own. -/
def registry (s : Settings) (hasCoordinator background : Bool) : Except Failure Registry :=
  match s.check with
  | .error e => .error e
  | .ok _ =>
    if s.strategy = .precomputed ∧ !hasCoordinator then .error (.config .noCoordinator)
    else .ok (.new fun _ => .ok (s.allocator background))

end Settings
end EdgePlacement

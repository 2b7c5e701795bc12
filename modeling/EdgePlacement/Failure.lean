import EdgePlacement.Text.Quoted

/-!
What can go wrong, by cause.

`Failure` names the cause and carries what it is about; `Failure.message` is the only
place where a cause becomes text. -/
namespace EdgePlacement

/-- Why a ranking could not be fetched. -/
inductive FetchFault where
  /-- The coordinator gave no ranking, for the reason it states. -/
  | refused (reason : String)
  | unreadable (path : String)
  | undecodable (path : String)
deriving DecidableEq, Repr

/-- Why the network state did not answer. -/
inductive StateFault where
  | unknownServer (server : String)
  | unknownContent (content : String)
  /-- The reader gave no answer, for the reason it states. -/
  | refused (reason : String)
deriving DecidableEq, Repr

/-- What a setting violates. -/
inductive Bound where
  | length
  | range
deriving DecidableEq, Repr

/-- Why a configuration cannot be used. -/
inductive ConfigFault where
  /-- Settings out of bounds, each with the bound it violates. -/
  | outOfBounds (settings : List (String × Bound))
  /-- The strategy needs rankings and nobody gives any. -/
  | noCoordinator
  | noAllocator (location : String)
deriving DecidableEq, Repr

/-- Why a file gave no text. -/
inductive FileFault where
  | missing
  | notText
deriving DecidableEq, Repr

inductive Failure where
  /-- The entry is already tracked. -/
  | duplicateEntry (id : String)
  /-- The entry is not tracked. -/
  | notFound (id : String)
  /-- No allocator is live at the location. -/
  | unknownLocation (location : String)
  | fetch (fault : FetchFault)
  | stateRead (fault : StateFault)
  /-- A replay met an entry that was registered before it began. -/
  | inconsistent (location id : String)
  | config (fault : ConfigFault)
  | file (fault : FileFault)
  | json
  | toml
deriving DecidableEq, Repr

/-! ### Wording -/

def Bound.message : Bound → String
  | .length => "too short"
  | .range => "out of range"

def FetchFault.message : FetchFault → String
  | .refused reason => reason
  | .unreadable path => "reading " ++ Text.quoted path
  | .undecodable path => "decoding " ++ Text.quoted path

def StateFault.message : StateFault → String
  | .unknownServer server => "unknown server " ++ server
  | .unknownContent content => "unknown content " ++ content
  | .refused reason => reason

def ConfigFault.message : ConfigFault → String
  | .outOfBounds settings =>
    ", ".intercalate (settings.map fun (name, bound) => name ++ " is " ++ bound.message)
  | .noCoordinator => "precomputed strategy requires a ranking source"
  | .noAllocator location => "no allocator for " ++ location

def FileFault.message : FileFault → String
  | .missing => "no such file"
  | .notText => "not UTF-8 text"

def Failure.message : Failure → String
  | .duplicateEntry id => "Duplicate entry: " ++ id
  | .notFound id => "Entry not found: " ++ id
  | .unknownLocation location => "Unknown location: " ++ location
  | .fetch fault => "Upstream fetch failed: " ++ fault.message
  | .stateRead fault => "State read failed: " ++ fault.message
  | .inconsistent location id =>
    "Consistency error: " ++ id ++ " already registered at location " ++ location
  | .config fault => "Invalid configuration: " ++ fault.message
  | .file fault => "I/O error: " ++ fault.message
  | .json => "JSON error: not a document of the expected form"
  | .toml => "TOML error: not a document of the expected form"

end EdgePlacement

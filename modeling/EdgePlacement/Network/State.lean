import EdgePlacement.Json.Shape
import EdgePlacement.File
import Std.Data.TreeMap

/-!
What is served where.

A `StateReader` answers five questions about the network, each with an answer or a reason
why there is none. A `NetworkState` is the answer to all of them at once, kept in a JSON
document: servers with a location and the content they serve, and content with a size and
a functional id, which is the content's own id unless another is given. -/
namespace EdgePlacement

/-- Access to durable network state. -/
structure StateReader where
  /-- Every known server. -/
  servers : Except Failure (List String)
  /-- The location a server belongs to. -/
  locationOf : String → Except Failure String
  /-- The content a server serves. -/
  contentOf : String → Except Failure (List String)
  /-- The functional id of a piece of content. -/
  identityOf : String → Except Failure String
  /-- The size of a piece of content in bytes. -/
  bytesOf : String → Except Failure UInt64

structure Server where
  location : String
  content : List String
deriving DecidableEq, Repr

structure Content where
  size : UInt64
  /-- The functional id, if it is not the content's own. -/
  identity : Option String
deriving DecidableEq, Repr

structure NetworkState where
  servers : Std.TreeMap String Server
  content : Std.TreeMap String Content

/-! ### Documents -/

def Server.ofJson? (json : Json) : Option Server :=
  match json.fields? ["location", "content"] with
  | some [some location, content] => do
    let location ← location.text?
    let content ← Json.optional? (Json.list? Json.text?) [] content
    some ⟨location, content⟩
  | _ => none

def Content.ofJson? (json : Json) : Option Content :=
  match json.fields? ["size", "functional_id"] with
  | some [some size, identity] => do
    let size ← size.natural?
    let identity ← Json.optional? (Json.nullable? Json.text?) none identity
    some ⟨size, identity⟩
  | _ => none

namespace NetworkState

/-- The state of a JSON value; of a repeated id the last value counts. -/
def ofJson? (json : Json) : Option NetworkState :=
  match json.fields? ["servers", "content"] with
  | some [servers, content] => do
    let servers ← Json.optional? (Json.members? Server.ofJson?) [] servers
    let content ← Json.optional? (Json.members? Content.ofJson?) [] content
    some ⟨.ofList servers, .ofList content⟩
  | _ => none

def ofText (text : String) : Except Failure NetworkState :=
  match (Json.ofText? text).bind ofJson? with
  | some state => .ok state
  | none => .error .json

def ofFile (file : File) : Except Failure NetworkState :=
  match file.text with
  | .ok text => ofText text
  | .error e => .error e

/-! ### Answers -/

def server (state : NetworkState) (id : String) : Except Failure Server :=
  match state.servers[id]? with
  | some server => .ok server
  | none => .error (.stateRead (.unknownServer id))

def item (state : NetworkState) (id : String) : Except Failure Content :=
  match state.content[id]? with
  | some item => .ok item
  | none => .error (.stateRead (.unknownContent id))

/-- The state as a reader, which lists servers in ascending order. -/
def reader (state : NetworkState) : StateReader where
  servers := .ok state.servers.keys
  locationOf id := (state.server id).map (·.location)
  contentOf id := (state.server id).map (·.content)
  identityOf id := (state.item id).map fun item => item.identity.getD id
  bytesOf id := (state.item id).map (·.size)

end NetworkState
end EdgePlacement

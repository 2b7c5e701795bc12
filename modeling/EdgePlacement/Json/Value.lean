import EdgePlacement.Json.Token

/-!
JSON values, read from tokens.

The reader is a machine that takes one token at a time. It keeps the containers that are
open, innermost first, and what may come next; since the open containers are a list and
not a chain of calls, any depth of nesting is read. A text is a value when the machine
ends with a complete value and nothing open. -/
namespace EdgePlacement

inductive Json where
  | null
  | bool (value : Bool)
  | number (literal : List Char)
  /-- A string, without a text if that would have an unpaired surrogate. -/
  | string (text : Option String)
  | array (elements : List Json)
  /-- The members in the order written, repeated keys included. -/
  | object (members : List (Option String × Json))

namespace Json

/-- A container that is open, with its contents so far in reverse. -/
inductive Container where
  | array (elements : List Json)
  /-- An object whose last key still waits for its value. -/
  | object (members : List (Option String × Json)) (key : Option String)

/-- What may come next, inside the containers of `stack`. -/
inductive Reading where
  /-- A value. -/
  | value (stack : List Container)
  /-- The first element of an array, or its end. -/
  | firstElement (stack : List Container)
  /-- The first key of an object, or its end. -/
  | firstKey (stack : List Container)
  /-- A further key of an object with the given members. -/
  | key (stack : List Container) (members : List (Option String × Json))
  /-- The colon after a key. -/
  | colon (stack : List Container) (members : List (Option String × Json))
      (key : Option String)
  /-- What follows a complete value. -/
  | complete (stack : List Container) (value : Json)

namespace Reading

/-- The state after a token that begins a value. -/
def enter (stack : List Container) : Token → Option Reading
  | .openArray => some (.firstElement stack)
  | .openObject => some (.firstKey stack)
  | .string text => some (.complete stack (.string text))
  | .number literal => some (.complete stack (.number literal))
  | .bool b => some (.complete stack (.bool b))
  | .null => some (.complete stack .null)
  | .closeArray => none
  | .closeObject => none
  | .comma => none
  | .colon => none

def next : Reading → Token → Option Reading
  | .value stack, token => enter stack token
  | .firstElement stack, .closeArray => some (.complete stack (.array []))
  | .firstElement stack, token => enter (.array [] :: stack) token
  | .firstKey stack, .closeObject => some (.complete stack (.object []))
  | .firstKey stack, .string text => some (.colon stack [] text)
  | .key stack members, .string text => some (.colon stack members text)
  | .colon stack members text, .colon => some (.value (.object members text :: stack))
  | .complete (.array elements :: stack) v, .comma =>
    some (.value (.array (v :: elements) :: stack))
  | .complete (.array elements :: stack) v, .closeArray =>
    some (.complete stack (.array (v :: elements).reverse))
  | .complete (.object members text :: stack) v, .comma =>
    some (.key stack ((text, v) :: members))
  | .complete (.object members text :: stack) v, .closeObject =>
    some (.complete stack (.object ((text, v) :: members).reverse))
  | _, _ => none

/-- The value read, if it is complete and nothing is open. -/
def result? : Reading → Option Json
  | .complete [] v => some v
  | _ => none

end Reading

/-- The value that tokens spell. -/
def ofTokens? (tokens : List Token) : Option Json :=
  (tokens.foldlM Reading.next (.value [])).bind Reading.result?

/-- The value a text spells. -/
def ofText? (text : String) : Option Json := (tokens? text).bind ofTokens?

end Json
end EdgePlacement

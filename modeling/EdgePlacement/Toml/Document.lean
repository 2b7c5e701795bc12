import EdgePlacement.Toml.Scalar
import EdgePlacement.Toml.Value

/-!
TOML documents.

A document is a sequence of lines: a key with its value, a header, or neither, each with an
optional comment. Arrays may run over several lines, inline tables may not. Keys have fewer
than 80 parts, and arrays and inline tables are nested less than 80 deep. A byte order mark
may stand at the very beginning. -/
namespace EdgePlacement.Toml

/-- The first number of parts of a key, and the first depth of nesting, that is refused. -/
def nestingLimit : Nat := 80

/-! ### Keys -/

def isBareKeyChar (c : Char) : Bool := c.isAlphanum || c == '_' || c == '-'

/-- One part of a key. -/
def keyPart? : List Char → Option (String × List Char)
  | '"' :: rest => basic? [] rest
  | '\'' :: rest => literal? [] rest
  | cs =>
    match cs.takeWhile isBareKeyChar with
    | [] => none
    | name => some (String.ofList name, cs.dropWhile isBareKeyChar)

/-- The parts of a key, at most `fuel` of them, with the blanks around each. -/
def keyParts? : Nat → List Char → Option (List String × List Char)
  | 0, _ => none
  | fuel + 1, cs =>
    match keyPart? (skipBlanks cs) with
    | none => none
    | some (part, rest) =>
      match skipBlanks rest with
      | '.' :: rest => (keyParts? fuel rest).map fun (parts, rest) => (part :: parts, rest)
      | rest => some ([part], rest)

/-- A dotted key: the path before its last part, the last part, and what follows. -/
def key? (cs : List Char) : Option (List String × String × List Char) :=
  match keyParts? (nestingLimit - 1) cs with
  | none => none
  | some (parts, rest) => parts.getLast?.map fun last => (parts.dropLast, last, rest)

/-! ### Values -/

def skipComment (cs : List Char) : List Char :=
  match cs with
  | '#' :: rest => rest.dropWhile isTextChar
  | cs => cs

/-- The text from the first character that is no blank, line end or comment. -/
def skipFiller (cs : List Char) : List Char :=
  match _h : skipBlankLines cs with
  | '#' :: rest => skipFiller (rest.dropWhile isTextChar)
  | cs => cs
termination_by cs.length
decreasing_by
  have := length_skipBlankLines_le cs
  have := (List.dropWhile_sublist isTextChar (l := rest)).length_le
  simp_all only [List.length_cons]
  omega

/-- The elements of an array up to its closing bracket, at most `fuel` of them. -/
def elements? (read : List Char → Option (Value × List Char)) (done : List Value) :
    Nat → List Char → Option (Value × List Char)
  | 0, _ => none
  | fuel + 1, cs =>
    match skipFiller cs with
    | ']' :: rest => some (.array done.reverse, rest)
    | cs =>
      match read cs with
      | none => none
      | some (v, rest) =>
        match skipFiller rest with
        | ',' :: rest => elements? read (v :: done) fuel rest
        | ']' :: rest => some (.array (v :: done).reverse, rest)
        | _ => none

/-- A dotted key with its value: the path, the last part, the value, and what follows. -/
def keyValue? (read : List Char → Option (Value × List Char)) (cs : List Char) :
    Option (List String × String × Value × List Char) :=
  match key? cs with
  | some (path, last, '=' :: rest) =>
    (read (skipBlanks rest)).map fun (v, rest) => (path, last, v, rest)
  | _ => none

/-- The fields of an inline table up to its closing brace, at most `fuel` of them, of which
there is at least one more. -/
def inlineFields? (read : List Char → Option (Value × List Char)) (fields : Fields) :
    Nat → List Char → Option (Value × List Char)
  | 0, _ => none
  | fuel + 1, cs =>
    match keyValue? read cs with
    | none => none
    | some (path, last, v, rest) =>
      match fields.assign path last v with
      | none => none
      | some fields =>
        match skipBlanks rest with
        | ',' :: rest => inlineFields? read fields fuel rest
        | '\x7d' :: rest => some (.table .inlined fields, rest)
        | _ => none

/-- A value that holds no others. -/
def scalar? (cs : List Char) : Option (Value × List Char) :=
  match cs with
  | 't' :: 'r' :: 'u' :: 'e' :: rest => some (.boolean true, rest)
  | 'f' :: 'a' :: 'l' :: 's' :: 'e' :: rest => some (.boolean false, rest)
  | cs =>
    ((string? cs).map fun (text, rest) => (.string text, rest))
      <|> ((skipDateTime? cs).map fun rest => (.dateTime, rest))
      <|> ((float? cs).map fun rest => (.float, rest))
      <|> ((integer? cs).map fun (n, rest) => (.integer n, rest))

/-- A value in which containers are nested at most `depth` deep. -/
def value? (depth : Nat) (cs : List Char) : Option (Value × List Char) :=
  match depth, cs with
  | 0, '[' :: _ => none
  | 0, '\x7b' :: _ => none
  | depth + 1, '[' :: rest => elements? (fun cs => value? depth cs) [] (rest.length + 1) rest
  | depth + 1, '\x7b' :: rest =>
    match skipBlanks rest with
    | '\x7d' :: rest => some (.table .inlined [], rest)
    | rest => inlineFields? (fun cs => value? depth cs) [] (rest.length + 1) rest
  | _, cs => scalar? cs
termination_by structural depth

/-! ### Lines -/

/-- What follows the end of a line, which may have a comment. -/
def skipLineEnd? (cs : List Char) : Option (List Char) :=
  match skipComment (skipBlanks cs) with
  | [] => some []
  | cs => skipNewline? cs

/-- A document as far as it has been read. -/
structure Draft where
  fields : Fields
  /-- The path of the current header. -/
  header : List String

/-- What a line says: a header, or a value under the current header. -/
def line? (draft : Draft) : List Char → Option (Draft × List Char)
  | '[' :: '[' :: rest =>
    match key? rest with
    | some (path, last, ']' :: ']' :: rest) =>
      (draft.fields.openElement path last).map fun fields => (⟨fields, path ++ [last]⟩, rest)
    | _ => none
  | '[' :: rest =>
    match key? rest with
    | some (path, last, ']' :: rest) =>
      (draft.fields.openTable path last).map fun fields => (⟨fields, path ++ [last]⟩, rest)
    | _ => none
  | cs =>
    match keyValue? (value? (nestingLimit - 1)) cs with
    | some (path, last, v, rest) =>
      (draft.fields.assignWithin draft.header path last v).map fun fields =>
        (⟨fields, draft.header⟩, rest)
    | none => none

/-- The lines of a document, at most `fuel` of them. -/
def lines? (draft : Draft) : Nat → List Char → Option Fields
  | 0, _ => none
  | fuel + 1, cs =>
    match skipBlanks cs with
    | [] => some draft.fields
    | cs =>
      match skipLineEnd? cs with
      | some rest => lines? draft fuel rest
      | none =>
        match line? draft cs with
        | none => none
        | some (draft, rest) =>
          match skipLineEnd? rest with
          | none => none
          | some rest => lines? draft fuel rest

/-- The fields of the document that a text spells. -/
def ofText? (text : String) : Option Fields :=
  let cs :=
    match text.toList with
    | '\ufeff' :: rest => rest
    | cs => cs
  lines? ⟨[], []⟩ (cs.length + 1) cs

end EdgePlacement.Toml

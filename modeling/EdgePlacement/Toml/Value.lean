/-!
TOML values, and how a document's tables grow.

A table remembers how it came to be, because that decides what may still be added to it.
A table with a header of its own is complete as far as headers go; one that exists only
because a header named something inside it may still get its own header; one made by a
dotted key grows through dotted keys of the same place; an inline table does not grow. -/
namespace EdgePlacement.Toml

/-- How a table came to be. -/
inductive Origin where
  /-- By its own header, or as the document itself. -/
  | header
  /-- As a parent of something that has a header. -/
  | parent
  /-- By a dotted key. -/
  | dotted
  /-- In braces. -/
  | inlined
deriving DecidableEq, Repr

/-- Fractions and dates are recognised, but nothing here needs their value. -/
inductive Value where
  | string (text : String)
  | integer (n : Int)
  | float
  | boolean (b : Bool)
  | dateTime
  | array (elements : List Value)
  | table (origin : Origin) (fields : List (String × Value))
  /-- Tables under a doubled header: all but the last, latest first, and the last. -/
  | tables (earlier : List (List (String × Value))) (last : List (String × Value))

abbrev Fields := List (String × Value)

namespace Fields

/-- The fields with a value in place of the one under `key`. -/
def replace (fields : Fields) (key : String) (v : Value) : Fields :=
  fields.map fun (k, old) => if k = key then (k, v) else (k, old)

/-- Changes the table at the end of a path by `f`. Tables missing on the way are made, with
the given origin. Of tables under a doubled header the path goes through the last one. A
path of a dotted key does not go through a table that has a header of its own. -/
def alterAt (made : Origin) (f : Origin → Fields → Option Fields) :
    List String → Origin → Fields → Option Fields
  | [], origin, fields => f origin fields
  | key :: path, _, fields =>
    match fields.lookup key with
    | none => (alterAt made f path made []).map fun inner => fields ++ [(key, .table made inner)]
    | some (.table .inlined _) => none
    | some (.table origin inner) =>
      if made = .dotted ∧ origin = .header then none
      else (alterAt made f path origin inner).map fun inner =>
        fields.replace key (.table origin inner)
    | some (.tables earlier last) =>
      (alterAt made f path .header last).map fun last => fields.replace key (.tables earlier last)
    | some _ => none

/-- Adds a value under a dotted key, which ends in `key` after `path`. A table made by
dotted keys is reached by a path, and any other table without one. -/
def assign (path : List String) (key : String) (v : Value) : Fields → Option Fields :=
  alterAt .dotted (fun origin fields =>
    if (origin == .dotted) == path.isEmpty then none
    else if (fields.lookup key).isSome then none
    else some (fields ++ [(key, v)])) path .header

/-- Opens the table of a header that ends in `key` after `path`. -/
def openTable (path : List String) (key : String) : Fields → Option Fields :=
  alterAt .parent (fun _ fields =>
    match fields.lookup key with
    | none => some (fields ++ [(key, .table .header [])])
    | some (.table .parent inner) => some (fields.replace key (.table .header inner))
    | some _ => none) path .header

/-- Opens a further table of a doubled header that ends in `key` after `path`. -/
def openElement (path : List String) (key : String) : Fields → Option Fields :=
  alterAt .parent (fun _ fields =>
    match fields.lookup key with
    | none => some (fields ++ [(key, .tables [] [])])
    | some (.tables earlier last) => some (fields.replace key (.tables (last :: earlier) []))
    | some _ => none) path .header

/-- Adds a value under a dotted key inside the table of the current header. -/
def assignWithin (header : List String) (path : List String) (key : String) (v : Value) :
    Fields → Option Fields :=
  alterAt .parent (fun _ fields => fields.assign path key v) header .header

end Fields
end EdgePlacement.Toml

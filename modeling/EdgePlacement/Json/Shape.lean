import EdgePlacement.Json.Value

/-!
Reading JSON values as records, maps, lists and numbers.

A record is written either as an object, with its fields by name in any order, or as an
array, with its fields in the order in which the record lists them. In an object a field
of the record may stand only once, and fields the record does not have are skipped; an
array may end early but holds no more elements than the record has fields. A map is an
object, and of a repeated key the last value counts. Keys have to be texts. -/
namespace EdgePlacement.Json

def text? : Json → Option String
  | .string text => text
  | _ => none

/-- A whole number of at most 64 bits, written without sign, fraction and exponent. -/
def natural? : Json → Option UInt64
  | .number literal =>
    (Text.numeral? 10 literal).bind fun n =>
      if n < UInt64.size then some (UInt64.ofNat n) else none
  | _ => none

/-- A whole number that a signed 64-bit word holds, written without fraction and exponent.
Zero has no sign. -/
def integer? : Json → Option Int
  | .number ('-' :: literal) =>
    (Text.numeral? 10 literal).bind fun n =>
      if 0 < n ∧ n ≤ Text.signedSize then some (-(n : Int)) else none
  | .number literal =>
    (Text.numeral? 10 literal).bind fun n => if n < Text.signedSize then some (n : Int) else none
  | _ => none

/-- The elements of an array, each read by `read`. -/
def list? {α : Type} (read : Json → Option α) : Json → Option (List α)
  | .array elements => elements.mapM read
  | _ => none

/-- The members of an object, each value read by `read`. -/
def members? {α : Type} (read : Json → Option α) : Json → Option (List (String × α))
  | .object members =>
    members.mapM fun (key, v) => key.bind fun key => (read v).map fun a => (key, a)
  | _ => none

/-- The values of a record's fields, `none` for a field that is left out. -/
def fields? (names : List String) : Json → Option (List (Option Json))
  | .object members => do
    let keys ← members.mapM Prod.fst
    if names.any fun name => 1 < keys.count name then none
    else some (names.map fun name => members.lookup (some name))
  | .array elements =>
    if names.length < elements.length then none
    else some (elements.map some ++ List.replicate (names.length - elements.length) none)
  | _ => none

/-- A field that may be left out, and counts as `default` then. -/
def optional? {α : Type} (read : Json → Option α) (default : α) : Option Json → Option α
  | none => some default
  | some v => read v

/-- A value that may also be written `null`. -/
def nullable? {α : Type} (read : Json → Option α) : Json → Option (Option α)
  | .null => some none
  | v => (read v).map some

end EdgePlacement.Json

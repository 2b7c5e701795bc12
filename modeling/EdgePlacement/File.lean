import EdgePlacement.Failure

/-!
What is found under a path: nothing, or bytes.

Every reader in this library takes a `File`, so what it does with a missing or unreadable
one is a matter of values, and only the program's outermost layer touches a disk. -/
namespace EdgePlacement

inductive File where
  | missing
  | bytes (data : ByteArray)

/-- The file's text, which has to be UTF-8. -/
def File.text : File → Except Failure String
  | .missing => .error (.file .missing)
  | .bytes data =>
    match String.fromUTF8? data with
    | some text => .ok text
    | none => .error (.file .notText)

def File.ofText (text : String) : File := .bytes text.toUTF8

end EdgePlacement

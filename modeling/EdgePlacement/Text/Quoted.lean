import EdgePlacement.Text.Printable

/-!
Text between double quotes, as reports show names and paths.

Quotes and backslashes are preceded by a backslash; tab, line feed, carriage return and
NUL have letter escapes; every other character that cannot be read where it stands is its
code point in hexadecimal between braces. -/
namespace EdgePlacement.Text

/-- The hexadecimal digits of `n` in lower case, without leading zeros. -/
def hexadecimal (n : Nat) : String := String.ofList (Nat.toDigits 16 n)

def quotedChar (c : Char) : String :=
  match c with
  | '"' => "\\\""
  | '\\' => "\\\\"
  | '\n' => "\\n"
  | '\r' => "\\r"
  | '\t' => "\\t"
  | '\x00' => "\\0"
  | c =>
    if isPrintable c then String.singleton c else "\\u\x7b" ++ hexadecimal c.toNat ++ "\x7d"

def quoted (text : String) : String :=
  "\"" ++ String.join (text.toList.map quotedChar) ++ "\""

end EdgePlacement.Text

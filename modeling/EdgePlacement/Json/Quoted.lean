import EdgePlacement.Text.Quoted

/-!
Texts as JSON strings.

Only what has to be escaped is: quotes, backslashes and control characters, the latter by a
letter where there is one and as a 16-bit unit in lower case hexadecimal otherwise. -/
namespace EdgePlacement.Json

def quotedChar (c : Char) : String :=
  match c with
  | '"' => "\\\""
  | '\\' => "\\\\"
  | '\x08' => "\\b"
  | '\x0c' => "\\f"
  | '\n' => "\\n"
  | '\r' => "\\r"
  | '\t' => "\\t"
  | c =>
    if c.toNat < 0x10 then "\\u000" ++ Text.hexadecimal c.toNat
    else if c.toNat < 0x20 then "\\u00" ++ Text.hexadecimal c.toNat
    else String.singleton c

def quoted (text : String) : String :=
  "\"" ++ String.join (text.toList.map quotedChar) ++ "\""

end EdgePlacement.Json

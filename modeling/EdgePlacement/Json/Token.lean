import EdgePlacement.Text.Digits

/-!
The tokens of a JSON text.

A text is cut into brackets, commas, colons, strings, numbers and the three words. What
may stand between two tokens is a space, a tab, a line feed or a carriage return.

A string escape `\u` names a 16-bit unit. Two such units in a row that form a surrogate
pair are one character; a surrogate without its partner is no character, so a string that
holds one is a well-formed token without a text. A number keeps its spelling, because
readers tell `1` from `1.0` and `0` from `-0`. -/
namespace EdgePlacement.Json
open Text

inductive Token where
  | openArray
  | closeArray
  | openObject
  | closeObject
  | comma
  | colon
  /-- A string and its text, unless that has an unpaired surrogate. -/
  | string (text : Option String)
  | number (literal : List Char)
  | bool (value : Bool)
  | null
deriving DecidableEq, Repr

/-! ### Strings -/

/-- A piece of a string: a character, or the unit a `\u` escape names. -/
inductive Piece where
  | char (c : Char)
  | unit (n : Nat)
deriving DecidableEq, Repr

/-- The character of a surrogate pair, if the second unit may follow the first. -/
def pair? (high low : Nat) : Option Char :=
  if 0xDC00 ≤ low ∧ low ≤ 0xDFFF then
    scalar? (0x10000 + (high - 0xD800) * 0x400 + (low - 0xDC00))
  else none

/-- The text of the pieces, unless a surrogate among them is unpaired. -/
def assemble (done : List Char) : List Piece → Option String
  | [] => some (String.ofList done.reverse)
  | .char c :: rest => assemble (c :: done) rest
  | .unit n :: .unit m :: rest =>
    if 0xD800 ≤ n ∧ n ≤ 0xDBFF then
      match pair? n m with
      | some c => assemble (c :: done) rest
      | none => none
    else
      match scalar? n with
      | some c => assemble (c :: done) (.unit m :: rest)
      | none => none
  | .unit n :: rest =>
    match scalar? n with
    | some c => assemble (c :: done) rest
    | none => none

/-- The character that a one-letter escape stands for. -/
def escape? : Char → Option Char
  | '"' => some '"'
  | '\\' => some '\\'
  | '/' => some '/'
  | 'b' => some '\x08'
  | 'f' => some '\x0c'
  | 'n' => some '\n'
  | 'r' => some '\r'
  | 't' => some '\t'
  | _ => none

/-- The pieces of a string up to its closing quote, after those already read, and what
follows the quote. -/
def pieces (done : List Piece) : List Char → Option (List Piece × List Char)
  | '"' :: rest => some (done.reverse, rest)
  | '\\' :: 'u' :: a :: b :: c :: d :: rest =>
    match numeral? 16 [a, b, c, d] with
    | some n => pieces (.unit n :: done) rest
    | none => none
  | '\\' :: e :: rest =>
    match escape? e with
    | some c => pieces (.char c :: done) rest
    | none => none
  | c :: rest => if c = '\\' ∨ c.toNat < 0x20 then none else pieces (.char c :: done) rest
  | [] => none

theorem length_pieces {done ps : List Piece} {cs rest : List Char}
    (h : pieces done cs = some (ps, rest)) : rest.length < cs.length := by
  fun_induction pieces done cs with
  | case1 => cases h; simp
  | case2 _ _ _ _ _ _ _ _ ih => have := ih h; simp only [List.length_cons]; omega
  | case3 => cases h
  | case4 _ _ _ _ _ _ ih => have := ih h; simp only [List.length_cons]; omega
  | case5 => cases h
  | case6 => cases h
  | case7 _ _ _ _ _ _ _ ih => have := ih h; simp only [List.length_cons]; omega
  | case8 => cases h

/-! ### Numbers -/

/-- What follows the decimal digits at the head of a text, of which there is at least one. -/
def skipDigits? (cs : List Char) : Option (List Char) :=
  if (cs.head?).any (isDigit 10) then some (cs.dropWhile (isDigit 10)) else none

/-- What follows a whole part: digits without a leading zero, or a single zero. -/
def skipWhole? : List Char → Option (List Char)
  | '0' :: rest => some rest
  | cs => skipDigits? cs

/-- What follows a fraction, if there is one. -/
def skipFraction? : List Char → Option (List Char)
  | '.' :: rest => skipDigits? rest
  | cs => some cs

/-- What follows an exponent, if there is one. -/
def skipExponent? : List Char → Option (List Char)
  | [] => some []
  | c :: rest =>
    if c = 'e' ∨ c = 'E' then
      match rest with
      | '+' :: rest => skipDigits? rest
      | '-' :: rest => skipDigits? rest
      | rest => skipDigits? rest
    else some (c :: rest)

/-- Whether a text without its sign spells a number. -/
def isUnsigned (cs : List Char) : Bool :=
  ((skipWhole? cs).bind skipFraction?).bind skipExponent? == some []

/-- Whether a text spells a number. -/
def isNumber : List Char → Bool
  | '-' :: rest => isUnsigned rest
  | cs => isUnsigned cs

/-- The characters numbers are made of. No token may follow a number without a character
between them that is not one of these. -/
def isNumberChar (c : Char) : Bool :=
  isDigit 10 c || c == '+' || c == '-' || c == '.' || c == 'e' || c == 'E'

/-! ### Texts -/

def isSpace (c : Char) : Bool := c == ' ' || c == '\t' || c == '\n' || c == '\r'

theorem length_dropWhile_le (p : Char → Bool) (cs : List Char) :
    (cs.dropWhile p).length ≤ cs.length :=
  (List.dropWhile_sublist p).length_le

/-- The tokens of a text, after those already read. -/
def tokensFrom (done : List Token) : List Char → Option (List Token)
  | [] => some done.reverse
  | 'n' :: 'u' :: 'l' :: 'l' :: rest => tokensFrom (.null :: done) rest
  | 't' :: 'r' :: 'u' :: 'e' :: rest => tokensFrom (.bool true :: done) rest
  | 'f' :: 'a' :: 'l' :: 's' :: 'e' :: rest => tokensFrom (.bool false :: done) rest
  | c :: rest =>
    if isSpace c then tokensFrom done rest
    else match c with
    | '[' => tokensFrom (.openArray :: done) rest
    | ']' => tokensFrom (.closeArray :: done) rest
    | '\x7b' => tokensFrom (.openObject :: done) rest
    | '\x7d' => tokensFrom (.closeObject :: done) rest
    | ',' => tokensFrom (.comma :: done) rest
    | ':' => tokensFrom (.colon :: done) rest
    | '"' =>
      match _h : pieces [] rest with
      | some (ps, rest') => tokensFrom (.string (assemble [] ps) :: done) rest'
      | none => none
    | c =>
      let literal := c :: rest.takeWhile isNumberChar
      if isNumber literal then
        tokensFrom (.number literal :: done) (rest.dropWhile isNumberChar)
      else none
termination_by cs => cs.length
decreasing_by
  all_goals simp only [List.length_cons]
  all_goals try omega
  · have := length_pieces ‹_›
    omega
  · have := length_dropWhile_le isNumberChar rest
    omega

/-- The tokens of a text, if it is made of tokens. -/
def tokens? (text : String) : Option (List Token) := tokensFrom [] text.toList

end EdgePlacement.Json

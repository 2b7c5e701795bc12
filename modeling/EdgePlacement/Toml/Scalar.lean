import EdgePlacement.Text.Digits

/-!
The scalars of TOML at the head of a text.

Each reader takes the characters from where the scalar begins and yields what it read with
the characters that follow, or nothing if no such scalar begins there. What may follow a
scalar is for its context to say. -/
namespace EdgePlacement.Toml
open Text

/-! ### Characters -/

def isBlank (c : Char) : Bool := c == ' ' || c == '\t'

/-- Tab, and everything that is not a control character. -/
def isTextChar (c : Char) : Bool := c == '\t' || (0x20 ≤ c.toNat && c != '\x7f')

def skipBlanks (cs : List Char) : List Char := cs.dropWhile isBlank

/-- What follows a line feed, with or without a carriage return before it. -/
def skipNewline? : List Char → Option (List Char)
  | '\n' :: rest => some rest
  | '\r' :: '\n' :: rest => some rest
  | _ => none

/-- The text from the first character that is neither blank nor part of a line end. -/
def skipBlankLines : List Char → List Char
  | ' ' :: rest => skipBlankLines rest
  | '\t' :: rest => skipBlankLines rest
  | '\n' :: rest => skipBlankLines rest
  | '\r' :: '\n' :: rest => skipBlankLines rest
  | cs => cs

theorem length_skipBlankLines_le (cs : List Char) : (skipBlankLines cs).length ≤ cs.length := by
  fun_induction skipBlankLines cs <;> simp_all <;> omega

/-! ### Strings -/

/-- The character that a one-letter escape stands for. -/
def escape? : Char → Option Char
  | '"' => some '"'
  | '\\' => some '\\'
  | 'b' => some '\x08'
  | 'f' => some '\x0c'
  | 'n' => some '\n'
  | 'r' => some '\r'
  | 't' => some '\t'
  | _ => none

/-- The character whose code point the digits spell. -/
def codePoint? (digits : List Char) : Option Char := (numeral? 16 digits).bind scalar?

/-- The character an escape stands for, read from behind its backslash. -/
def escaped? : List Char → Option (Char × List Char)
  | 'u' :: rest =>
    if 4 ≤ rest.length then (codePoint? (rest.take 4)).map fun c => (c, rest.drop 4) else none
  | 'U' :: rest =>
    if 8 ≤ rest.length then (codePoint? (rest.take 8)).map fun c => (c, rest.drop 8) else none
  | e :: rest => (escape? e).map fun c => (c, rest)
  | [] => none

theorem length_escaped? {cs rest : List Char} {c : Char} (h : escaped? cs = some (c, rest)) :
    rest.length < cs.length := by
  unfold escaped? at h
  split at h
  · split at h
    · obtain ⟨_, _, heq⟩ := Option.map_eq_some_iff.1 h
      cases heq
      simp only [List.length_drop, List.length_cons]
      omega
    · cases h
  · split at h
    · obtain ⟨_, _, heq⟩ := Option.map_eq_some_iff.1 h
      cases heq
      simp only [List.length_drop, List.length_cons]
      omega
    · cases h
  · obtain ⟨_, _, heq⟩ := Option.map_eq_some_iff.1 h
    cases heq
    simp
  · cases h

/-- A string in double quotes, read from behind the first. -/
def basic? (done : List Char) : List Char → Option (String × List Char)
  | [] => none
  | '"' :: rest => some (String.ofList done.reverse, rest)
  | '\\' :: rest =>
    match _h : escaped? rest with
    | some (c, rest') => basic? (c :: done) rest'
    | none => none
  | c :: rest => if isTextChar c then basic? (c :: done) rest else none
termination_by cs => cs.length
decreasing_by
  · have := length_escaped? ‹_›
    simp only [List.length_cons]
    omega
  · simp

/-- A string in single quotes, read from behind the first. -/
def literal? (done : List Char) : List Char → Option (String × List Char)
  | [] => none
  | '\'' :: rest => some (String.ofList done.reverse, rest)
  | c :: rest => if isTextChar c then literal? (c :: done) rest else none

/-- The end of a string in tripled quotes, read from behind a tripled quote: up to two more
quotes belong to the string. -/
def closing (quote : Char) (done : List Char) : List Char → String × List Char
  | a :: b :: rest =>
    if a = quote ∧ b = quote then (String.ofList (quote :: quote :: done).reverse, rest)
    else if a = quote then (String.ofList (quote :: done).reverse, b :: rest)
    else (String.ofList done.reverse, a :: b :: rest)
  | [a] =>
    if a = quote then (String.ofList (quote :: done).reverse, [])
    else (String.ofList done.reverse, [a])
  | [] => (String.ofList done.reverse, [])

/-- A string in tripled double quotes, read from behind them and a line end. A backslash at
the end of a line joins it with the next text. -/
def basicLines? (done : List Char) : List Char → Option (String × List Char)
  | [] => none
  | '"' :: '"' :: '"' :: rest => some (closing '"' done rest)
  | '\\' :: rest =>
    match skipNewline? (skipBlanks rest) with
    | some _ => basicLines? done (skipBlankLines rest)
    | none =>
      match _h : escaped? rest with
      | some (c, rest') => basicLines? (c :: done) rest'
      | none => none
  | '\n' :: rest => basicLines? ('\n' :: done) rest
  | '\r' :: '\n' :: rest => basicLines? ('\n' :: done) rest
  | c :: rest => if isTextChar c then basicLines? (c :: done) rest else none
termination_by cs => cs.length
decreasing_by
  all_goals simp only [List.length_cons]
  · have := length_skipBlankLines_le rest
    omega
  · have := length_escaped? ‹_›
    omega
  all_goals omega

/-- A string in tripled single quotes, read from behind them and a line end. -/
def literalLines? (done : List Char) : List Char → Option (String × List Char)
  | [] => none
  | '\'' :: '\'' :: '\'' :: rest => some (closing '\'' done rest)
  | '\n' :: rest => literalLines? ('\n' :: done) rest
  | '\r' :: '\n' :: rest => literalLines? ('\n' :: done) rest
  | c :: rest => if isTextChar c then literalLines? (c :: done) rest else none

/-- A string of any kind. A line end right behind tripled quotes does not count. -/
def string? : List Char → Option (String × List Char)
  | '"' :: '"' :: '"' :: rest => basicLines? [] ((skipNewline? rest).getD rest)
  | '\'' :: '\'' :: '\'' :: rest => literalLines? [] ((skipNewline? rest).getD rest)
  | '"' :: rest => basic? [] rest
  | '\'' :: rest => literal? [] rest
  | _ => none

/-! ### Numbers -/

/-- The digits that go on from `done`; single underscores may stand between digits. -/
def moreDigits? (base : Nat) (done : List Char) : List Char → Option (List Char × List Char)
  | [] => some (done.reverse, [])
  | ['_'] => none
  | '_' :: c :: rest => if isDigit base c then moreDigits? base (c :: done) rest else none
  | c :: rest =>
    if isDigit base c then moreDigits? base (c :: done) rest
    else some (done.reverse, c :: rest)

/-- At least one digit. -/
def digits? (base : Nat) : List Char → Option (List Char × List Char)
  | c :: rest => if isDigit base c then moreDigits? base [c] rest else none
  | [] => none

/-- Decimal digits without a leading zero, or a single zero. -/
def whole? : List Char → Option (List Char × List Char)
  | '0' :: rest => some (['0'], rest)
  | cs => digits? 10 cs

/-- Whether a number begins with a minus sign, and the number without its sign. -/
def sign : List Char → Bool × List Char
  | '-' :: rest => (true, rest)
  | '+' :: rest => (false, rest)
  | cs => (false, cs)

/-- An integer, which a signed 64-bit word has to hold. Bases other than ten are marked and
have no sign. -/
def integer? (cs : List Char) : Option (Int × List Char) :=
  let based (base : Nat) (rest : List Char) : Option (Int × List Char) := do
    let (ds, rest) ← digits? base rest
    let n ← numeral? base ds
    if n < signedSize then some ((n : Int), rest) else none
  match cs with
  | '0' :: 'x' :: rest => based 16 rest
  | '0' :: 'o' :: rest => based 8 rest
  | '0' :: 'b' :: rest => based 2 rest
  | cs => do
    let (negative, cs) := sign cs
    let (ds, rest) ← whole? cs
    let n ← numeral? 10 ds
    if negative then
      if n ≤ signedSize then some (-(n : Int), rest) else none
    else
      if n < signedSize then some ((n : Int), rest) else none

/-- Whether `m * 10 ^ e`, with `m` spelt by digits, is so large that the nearest double
precision number is infinity, which is from half a unit above the greatest finite one. -/
def isInfinite (digits : List Char) (e : Int) : Bool :=
  let digits := digits.dropWhile (· == '0')
  let magnitude := (digits.length : Int) + e
  if digits.isEmpty || magnitude < 309 then false
  else if 309 < magnitude then true
  else
    let m := (numeral? 10 digits).getD 0
    let bound := Nat.pow 2 1024 - Nat.pow 2 970
    if 0 ≤ e then bound ≤ m * Nat.pow 10 e.toNat else bound * Nat.pow 10 (-e).toNat ≤ m

/-- An exponent, if one begins here. -/
def exponent? : List Char → Option (Option Int × List Char)
  | c :: rest =>
    if c = 'e' ∨ c = 'E' then do
      let (negative, rest) := sign rest
      let (ds, rest) ← digits? 10 rest
      let n ← numeral? 10 ds
      some (some (if negative then -(n : Int) else (n : Int)), rest)
    else some (none, c :: rest)
  | [] => some (none, [])

/-- A number with a fraction or an exponent, or one of the words. A number that has to be
read as positive infinity is refused. -/
def float? (cs : List Char) : Option (List Char) :=
  let (negative, unsigned) := sign cs
  match unsigned with
  | 'i' :: 'n' :: 'f' :: rest => some rest
  | 'n' :: 'a' :: 'n' :: rest => some rest
  | unsigned => do
    let (whole, rest) ← whole? unsigned
    let (fraction, rest) ←
      match rest with
      | '.' :: rest => digits? 10 rest
      | rest => some ([], rest)
    let (exponent, rest) ← exponent? rest
    if fraction.isEmpty && exponent.isNone then none
    else if !negative && isInfinite (whole ++ fraction) (exponent.getD 0 - fraction.length) then
      none
    else some rest

/-! ### Dates and times -/

/-- A number of exactly two digits, within bounds. -/
def pair? (low high : Nat) : List Char → Option (Nat × List Char)
  | a :: b :: rest => do
    let n ← numeral? 10 [a, b]
    if low ≤ n ∧ n ≤ high then some (n, rest) else none
  | _ => none

def daysInMonth (year month : Nat) : Nat :=
  if month = 2 then
    if year % 4 = 0 ∧ (year % 100 ≠ 0 ∨ year % 400 = 0) then 29 else 28
  else if month = 4 ∨ month = 6 ∨ month = 9 ∨ month = 11 then 30
  else 31

/-- What follows a date of the calendar. -/
def skipDate? : List Char → Option (List Char)
  | a :: b :: c :: d :: '-' :: rest => do
    let year ← numeral? 10 [a, b, c, d]
    let (month, rest) ← pair? 1 12 rest
    match rest with
    | '-' :: rest => do
      let (_, rest) ← pair? 1 (daysInMonth year month) rest
      some rest
    | _ => none
  | _ => none

/-- What follows a time of day, with or without a fraction of a second. -/
def skipTime? (cs : List Char) : Option (List Char) := do
  let (_, cs) ← pair? 0 23 cs
  match cs with
  | ':' :: cs =>
    let (_, cs) ← pair? 0 59 cs
    match cs with
    | ':' :: cs =>
      let (_, cs) ← pair? 0 60 cs
      match cs with
      | '.' :: c :: rest =>
        if isDigit 10 c then some (rest.dropWhile (isDigit 10)) else none
      | cs => some cs
    | _ => none
  | _ => none

/-- What follows the distance from universal time, if it is given. -/
def skipOffset : List Char → List Char
  | 'Z' :: rest => rest
  | 'z' :: rest => rest
  | c :: rest =>
    if c = '+' ∨ c = '-' then
      match pair? 0 23 rest with
      | some (_, ':' :: rest') =>
        match pair? 0 59 rest' with
        | some (_, rest'') => rest''
        | none => c :: rest
      | _ => c :: rest
    else c :: rest
  | [] => []

/-- What follows a date, a time, or both. -/
def skipDateTime? (cs : List Char) : Option (List Char) :=
  match skipDate? cs with
  | none => skipTime? cs
  | some (c :: rest) =>
    if c = 'T' ∨ c = 't' ∨ c = ' ' then
      match skipTime? rest with
      | some rest => some (skipOffset rest)
      | none => some (c :: rest)
    else some (c :: rest)
  | some [] => some []

end EdgePlacement.Toml

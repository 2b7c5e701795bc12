/-!
Digits in bases up to sixteen, ASCII only, and the bounds of what they spell. -/
namespace EdgePlacement.Text

/-- The value of a hexadecimal digit of either case. -/
def hexDigit? (c : Char) : Option Nat :=
  if '0' ≤ c ∧ c ≤ '9' then some (c.toNat - '0'.toNat)
  else if 'a' ≤ c ∧ c ≤ 'f' then some (c.toNat - 'a'.toNat + 10)
  else if 'A' ≤ c ∧ c ≤ 'F' then some (c.toNat - 'A'.toNat + 10)
  else none

/-- The value of a digit in a base of at most sixteen. -/
def digit? (base : Nat) (c : Char) : Option Nat :=
  (hexDigit? c).filter (· < base)

def isDigit (base : Nat) (c : Char) : Bool := (digit? base c).isSome

/-- The number that digits spell, most significant first, going on from `high`. -/
def numeralFrom (base high : Nat) : List Char → Option Nat
  | [] => some high
  | c :: rest => (digit? base c).bind fun d => numeralFrom base (high * base + d) rest

/-- The number a nonempty list of digits spells. -/
def numeral? (base : Nat) : List Char → Option Nat
  | [] => none
  | digits => numeralFrom base 0 digits

/-- The least magnitude that a signed 64-bit word holds only with a minus sign. -/
def signedSize : Nat := UInt64.size / 2

/-- A code point that stands for a character by itself. -/
def scalar? (n : Nat) : Option Char :=
  if h : n.isValidChar then some (Char.ofNatAux n h) else none

end EdgePlacement.Text

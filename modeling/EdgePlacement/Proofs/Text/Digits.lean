import EdgePlacement.Text.Digits
import Mathlib.Tactic.IntervalCases

/-!
Reading back the digits of a number.

The reader values digits as the library does, so that the digits of a number in base ten read
as the number (`numeral_toDigits`). No other number than zero has a leading zero
(`head_toDigits`). -/
namespace EdgePlacement.Text

theorem digit_of_isDigit {c : Char} (h : c.isDigit = true) :
    digit? 10 c = some (c.toNat - '0'.toNat) := by
  have hrange : '0' ≤ c ∧ c ≤ '9' := by
    rw [Char.isDigit, Bool.and_eq_true, decide_eq_true_iff, decide_eq_true_iff] at h
    exact h
  have hvalue : c.toNat - '0'.toNat < 10 := by
    have : c.toNat ≤ '9'.toNat := hrange.2
    have : '9'.toNat = 57 ∧ '0'.toNat = 48 := ⟨rfl, rfl⟩
    omega
  rw [digit?, hexDigit?, if_pos hrange, Option.filter_some, if_pos (decide_eq_true hvalue)]

theorem isDigit_of_mem_toDigits {n : Nat} {c : Char} (h : c ∈ Nat.toDigits 10 n) :
    isDigit 10 c = true := by
  rw [isDigit, digit_of_isDigit (Nat.isDigit_of_mem_toDigits (by decide) (by decide) h)]
  rfl

theorem numeralFrom_of_isDigit {high : Nat} {cs : List Char} (h : ∀ c ∈ cs, c.isDigit = true) :
    numeralFrom 10 high cs = some (Nat.ofDigitChars 10 cs high) := by
  induction cs generalizing high with
  | nil => rfl
  | cons c cs ih =>
    have htail := fun d hd => h d (List.mem_cons_of_mem c hd)
    rw [numeralFrom, digit_of_isDigit (h c List.mem_cons_self), Option.bind_some, ih htail,
      Nat.ofDigitChars_cons, Nat.mul_comm]

/-- The digits of a number read as the number. -/
theorem numeral_toDigits (n : Nat) : numeral? 10 (Nat.toDigits 10 n) = some n := by
  have hread : numeralFrom 10 0 (Nat.toDigits 10 n) = some n := by
    rw [numeralFrom_of_isDigit fun c => Nat.isDigit_of_mem_toDigits (by decide) (by decide),
      Nat.ofDigitChars_ten_toDigits]
  obtain ⟨c, rest, hdigits⟩ := List.exists_cons_of_ne_nil (Nat.toDigits_ne_nil (b := 10) (n := n))
  rw [hdigits] at hread ⊢
  exact hread

/-- Only zero begins with the digit zero. -/
theorem head_toDigits {n : Nat} (h : 0 < n) : (Nat.toDigits 10 n).head? ≠ some '0' := by
  induction n using Nat.strong_induction_on with
  | h n ih =>
    rcases Nat.lt_or_ge n 10 with hlt | hge
    · rw [Nat.toDigits_of_lt_base hlt]
      interval_cases n <;> decide
    · rw [Nat.toDigits_of_base_le (by decide) hge, List.head?_append,
        Option.or_of_isSome (List.isSome_head?.2 Nat.toDigits_ne_nil)]
      exact ih (n / 10) (by omega) (by omega)

end EdgePlacement.Text

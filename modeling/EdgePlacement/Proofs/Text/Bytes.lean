import Mathlib.Tactic.SplitIfs

/-!
Texts in the order of their bytes.

Texts are compared character by character. UTF-8 is made so that comparing the bytes comes
to the same (`lt_iff_bytes_lt`): of two different characters the greater one has the greater
byte at the first position at which their bytes differ, and there is such a position before
either of them ends (`encode_append_lt`). -/
namespace EdgePlacement.Text

/-- The bytes of a text. -/
def bytes (text : String) : List UInt8 := text.toUTF8.data.toList

theorem bytes_eq (text : String) : bytes text = text.toList.flatMap String.utf8EncodeChar := by
  unfold bytes
  rw [String.toUTF8_eq_toByteArray, ← String.utf8Encode_toList]
  simp [List.utf8Encode]

/-! ### Characters -/

theorem ofNat_cons_lt_iff {a b : Nat} (ha : a < 256) (hb : b < 256) (l m : List UInt8) :
    UInt8.ofNat a :: l < UInt8.ofNat b :: m ↔ a < b ∨ a = b ∧ l < m := by
  rw [List.cons_lt_cons_iff, UInt8.lt_iff_toNat_lt, ← UInt8.toNat_inj, UInt8.toNat_ofNat_of_lt' ha,
    UInt8.toNat_ofNat_of_lt' hb]

theorem val_lt (c : Char) : c.val.toNat < 0x110000 := by
  have := c.valid
  simp only [UInt32.isValidChar, Nat.isValidChar] at this
  omega

/-- The greater character has the greater bytes, whatever follows. -/
theorem encode_append_lt {c d : Char} (h : c < d) (l m : List UInt8) :
    String.utf8EncodeChar c ++ l < String.utf8EncodeChar d ++ m := by
  have hval : c.val.toNat < d.val.toNat := h
  have hmax : d.val.toNat < 0x110000 := val_lt d
  -- the digits to base 64 from the last one on, so that each is told from the same quotients
  have htwo : ∀ n, n / 4096 = n / 64 / 64 := fun n => (Nat.div_div_eq_div_mul n 64 64).symm
  have hthree : ∀ n, n / 262144 = n / 64 / 64 / 64 := fun n => by
    rw [← htwo, Nat.div_div_eq_div_mul]
  unfold String.utf8EncodeChar
  generalize c.val.toNat = v at *
  generalize d.val.toNat = w at *
  simp only [htwo, hthree]
  -- one case per pair of lengths; a longer encoding begins with a greater byte
  split_ifs <;>
    simp (disch := omega) only [List.cons_append, List.nil_append, ofNat_cons_lt_iff] <;> omega

/-! ### Texts -/

theorem encode_lt {a b : List Char} (h : a < b) :
    a.flatMap String.utf8EncodeChar < b.flatMap String.utf8EncodeChar := by
  induction h with
  | @nil c b =>
    obtain ⟨first, rest, hfirst⟩ := List.exists_cons_of_ne_nil (@String.utf8EncodeChar_ne_nil c)
    rw [List.flatMap_nil, List.flatMap_cons, hfirst]
    exact List.nil_lt_cons _ _
  | rel hcd => exact encode_append_lt hcd _ _
  | cons _ ih => exact List.append_left_lt ih

theorem bytes_lt_of_lt {a b : String} (h : a < b) : bytes a < bytes b := by
  rw [bytes_eq, bytes_eq]
  exact encode_lt h

/-- A text comes before another exactly if its bytes do. -/
theorem lt_iff_bytes_lt {a b : String} : a < b ↔ bytes a < bytes b := by
  refine ⟨bytes_lt_of_lt, fun hbytes => Decidable.byContradiction fun hnot => ?_⟩
  rcases Std.le_iff_lt_or_eq.1 (String.not_lt.1 hnot) with hlt | rfl
  · exact List.lt_asymm hbytes (bytes_lt_of_lt hlt)
  · exact List.lt_irrefl _ hbytes

end EdgePlacement.Text

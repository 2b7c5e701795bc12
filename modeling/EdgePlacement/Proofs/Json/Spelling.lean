import EdgePlacement.Json.Quoted
import EdgePlacement.Json.Value
import EdgePlacement.Proofs.Text.Digits
import Mathlib.Data.List.TakeWhile

/-!
Texts that are read back as the tokens they were written from.

A text spells tokens if a reader that comes to it goes on behind it with these tokens added,
whatever stood before it and whatever follows (`Spells`). Marks and quoted texts spell their
tokens, and what is put together from such texts spells the tokens of its parts. A number ends
only where no further character of a number follows, so it is put between two such texts at a
time (`Spells.append_number`). -/
namespace EdgePlacement.Json
open Text

/-! ### Quoted texts -/

theorem assemble_unit {n : Nat} {c : Char} (h : scalar? n = some c) (low : n < 0xD800)
    (done : List Char) (ps : List Piece) :
    assemble done (.unit n :: ps) = assemble (c :: done) ps := by
  rcases ps with _ | ⟨d | m, ps⟩
  · rw [assemble.eq_def]
    simp only [h]
  · rw [assemble.eq_def]
    simp only [h]
  · rw [assemble, if_neg (by omega), h]

/-- The escapes of control characters have four digits that spell the character. -/
theorem control_unit : ∀ n < 0x20,
    (if n < 0x10 then "\\u000" ++ hexadecimal n else "\\u00" ++ hexadecimal n).toList =
      ['\\', 'u', '0', '0', (n / 16).digitChar, (n % 16).digitChar] ∧
    numeral? 16 ['0', '0', (n / 16).digitChar, (n % 16).digitChar] = some n ∧
    '\n' ∉ ['\\', 'u', '0', '0', (n / 16).digitChar, (n % 16).digitChar] := by
  decide

theorem scalar_toNat (c : Char) : scalar? c.toNat = some c :=
  dif_pos c.valid

/-- What a character is written as is read as one piece, which is assembled to the character. -/
theorem quotedChar_read (c : Char) : ∃ p : Piece,
    (∀ done rest, pieces done ((quotedChar c).toList ++ rest) = pieces (p :: done) rest) ∧
    ∀ done ps, assemble done (p :: ps) = assemble (c :: done) ps := by
  unfold quotedChar
  split
  case h_8 hquote hbackslash _ _ _ _ _ =>
    by_cases hcontrol : c.toNat < 0x20
    · obtain ⟨hspelled, hvalue, -⟩ := control_unit c.toNat hcontrol
      refine ⟨.unit c.toNat, fun done rest => ?_, assemble_unit (scalar_toNat c) (by omega)⟩
      rw [if_pos hcontrol, hspelled]
      simp only [List.cons_append, List.nil_append]
      rw [pieces, hvalue]
    · refine ⟨.char c, fun done rest => ?_, fun _ _ => rfl⟩
      rw [if_neg (by omega), if_neg hcontrol, String.toList_singleton, List.singleton_append,
        pieces, if_neg (not_or.2 ⟨hbackslash, hcontrol⟩)]
      · exact hquote
      · exact fun _ _ _ _ _ h => absurd h hbackslash
      · exact fun _ _ h => absurd h hbackslash
  all_goals exact ⟨.char _, fun _ _ => rfl, fun _ _ => rfl⟩

/-- What stands between the quotes is read up to the closing one and assembled to the text. -/
theorem quotedChars_read (cs : List Char) : ∃ ps : List Piece,
    (∀ done rest, pieces done ((cs.map quotedChar).flatMap String.toList ++ '"' :: rest) =
      some (done.reverse ++ ps, rest)) ∧
    ∀ done, assemble done ps = some (String.ofList (done.reverse ++ cs)) := by
  induction cs with
  | nil =>
    refine ⟨[], fun done rest => ?_, fun done => ?_⟩
    · rw [List.map_nil, List.flatMap_nil, List.nil_append, pieces, List.append_nil]
    · rw [assemble, List.append_nil]
  | cons c cs ih =>
    obtain ⟨ps, hpieces, hassemble⟩ := ih
    obtain ⟨p, hpiece, hchar⟩ := quotedChar_read c
    refine ⟨p :: ps, fun done rest => ?_, fun done => ?_⟩
    · rw [List.map_cons, List.flatMap_cons, List.append_assoc, hpiece, hpieces,
        List.reverse_cons, List.append_assoc, List.singleton_append]
    · rw [hchar, hassemble, List.reverse_cons, List.append_assoc, List.singleton_append]

/-- No text is written with a line break in it. -/
theorem newline_not_mem_quoted (text : String) : '\n' ∉ (quoted text).toList := by
  have hchar : ∀ c, '\n' ∉ (quotedChar c).toList := by
    intro c
    unfold quotedChar
    split
    case h_8 hnewline _ _ =>
      by_cases hcontrol : c.toNat < 0x20
      · obtain ⟨hspelled, -, habsent⟩ := control_unit c.toNat hcontrol
        rw [if_pos hcontrol, hspelled]
        exact habsent
      · rw [if_neg (by omega), if_neg hcontrol, String.toList_singleton, List.mem_singleton]
        exact Ne.symm hnewline
    all_goals decide
  simp [quoted, String.toList_join, hchar]

theorem newline_not_mem_intercalate (texts : List String) :
    '\n' ∉ (",".intercalate (texts.map quoted)).toList := by
  rw [String.toList_intercalate, List.map_map]
  induction texts with
  | nil => exact List.not_mem_nil
  | cons text texts ih =>
    cases texts with
    | nil =>
      rw [List.map_singleton, List.intercalate_singleton]
      exact newline_not_mem_quoted text
    | cons next texts =>
      simp only [List.map_cons, List.intercalate_cons_cons] at ih ⊢
      rw [List.mem_append, List.mem_append]
      rintro ((htext | hcomma) | hrest)
      · exact newline_not_mem_quoted text htext
      · exact absurd hcomma (by decide)
      · exact ih hrest

/-! ### Spelling -/

/-- A text that is read as the tokens, whatever stands before it and whatever follows. -/
def Spells (cs : List Char) (ts : List Token) : Prop :=
  ∀ done rest, tokensFrom done (cs ++ rest) = tokensFrom (ts.reverse ++ done) rest

theorem Spells.append {as bs : List Char} {ss ts : List Token} (ha : Spells as ss)
    (hb : Spells bs ts) : Spells (as ++ bs) (ss ++ ts) := by
  intro done rest
  rw [List.append_assoc, ha, hb, List.reverse_append, List.append_assoc]

theorem Spells.tokens {text : String} {ts : List Token} (h : Spells text.toList ts) :
    tokens? text = some ts := by
  have hread := h [] []
  rw [List.append_nil, List.append_nil, tokensFrom, List.reverse_reverse] at hread
  exact hread

/-- The character that is a token by itself. -/
def Token.mark? : Token → Option Char
  | .openArray => some '['
  | .closeArray => some ']'
  | .openObject => some '\x7b'
  | .closeObject => some '\x7d'
  | .comma => some ','
  | .colon => some ':'
  | .string _ => none
  | .number _ => none
  | .bool _ => none
  | .null => none

theorem spells_mark {t : Token} {c : Char} (h : t.mark? = some c) : Spells [c] [t] := by
  intro done rest
  cases t with
  | string text => cases h
  | number literal => cases h
  | bool b => cases h
  | null => cases h
  | _ =>
    cases h
    rw [List.singleton_append, tokensFrom]
    rfl

theorem spells_quoted (text : String) : Spells (quoted text).toList [.string (some text)] := by
  intro done rest
  obtain ⟨ps, hpieces, hassemble⟩ := quotedChars_read text.toList
  have hchars : (quoted text).toList ++ rest =
      '"' :: ((text.toList.map quotedChar).flatMap String.toList ++ '"' :: rest) := by
    rw [quoted, String.toList_append, String.toList_append, String.toList_join, List.append_assoc,
      List.append_assoc]
    rfl
  have hread := hpieces [] rest
  rw [hchars, tokensFrom, if_neg (by decide)]
  split
  · next ps' rest' hread' =>
    cases hread.symm.trans hread'
    rw [List.reverse_nil, List.nil_append, hassemble, List.reverse_nil, List.nil_append,
      String.ofList_toList]
    rfl
  · next hnone => cases hread.symm.trans hnone

/-- The tokens of texts between commas. -/
def listed (texts : List String) : List Token :=
  (texts.map fun text => .string (some text)).intersperse .comma

theorem spells_listed (texts : List String) :
    Spells (",".intercalate (texts.map quoted)).toList (listed texts) := by
  rw [String.toList_intercalate, List.map_map, listed]
  induction texts with
  | nil => exact fun _ _ => rfl
  | cons text texts ih =>
    cases texts with
    | nil =>
      rw [List.map_singleton, List.map_singleton, List.intercalate_singleton,
        List.intersperse_singleton]
      exact spells_quoted text
    | cons next texts =>
      simp only [List.map_cons, List.intercalate_cons_cons, List.intersperse_cons_cons] at ih ⊢
      exact ((spells_quoted text).append (spells_mark rfl)).append ih

/-! ### Numbers -/

theorem isNumberChar_of_isDigit {c : Char} (h : isDigit 10 c = true) : isNumberChar c = true := by
  simp only [isNumberChar, h, Bool.true_or]

theorem ne_of_isDigit {c d : Char} (h : isDigit 10 c = true) (hd : isDigit 10 d = false) :
    c ≠ d := by
  rintro rfl
  cases h.symm.trans hd

/-- The digits of a number spell a number. -/
theorem isNumber_toDigits (n : Nat) : isNumber (Nat.toDigits 10 n) = true := by
  rcases Nat.eq_zero_or_pos n with rfl | hpos
  · rfl
  · have hhead := head_toDigits hpos
    have hdigits : ∀ c ∈ Nat.toDigits 10 n, isDigit 10 c = true := fun c => isDigit_of_mem_toDigits
    obtain ⟨c, cs, hcons⟩ := List.exists_cons_of_ne_nil (Nat.toDigits_ne_nil (b := 10) (n := n))
    rw [hcons] at hhead hdigits ⊢
    have hc := hdigits c List.mem_cons_self
    have hwhole : skipWhole? (c :: cs) = some [] := by
      rw [skipWhole?, skipDigits?, List.head?_cons, Option.any_some, if_pos hc]
      · exact congrArg some (List.dropWhile_eq_nil_iff.2 hdigits)
      · rintro _ hzero
        cases hzero
        exact hhead rfl
    rw [isNumber, isUnsigned, hwhole]
    · rfl
    · rintro _ hminus
      cases hminus
      cases hc

/-- Where a digit stands a number begins. -/
theorem tokensFrom_digit {c : Char} (h : isDigit 10 c = true) (done : List Token)
    (rest : List Char) :
    tokensFrom done (c :: rest) =
      if isNumber (c :: rest.takeWhile isNumberChar) then
        tokensFrom (.number (c :: rest.takeWhile isNumberChar) :: done)
          (rest.dropWhile isNumberChar)
      else none := by
  have hne : ∀ d, isDigit 10 d = false → c ≠ d := fun d => ne_of_isDigit h
  have hspace : ¬isSpace c = true := by
    simp [isSpace, hne ' ' rfl, hne '\t' rfl, hne '\n' rfl, hne '\r' rfl]
  rw [tokensFrom, if_neg hspace]
  · exact fun _ hc => absurd hc (hne _ rfl)
  · exact fun _ hc => absurd hc (hne _ rfl)
  · exact fun _ hc => absurd hc (hne _ rfl)
  all_goals exact hne _ rfl

/-- The digits of a number are read as the number where none of its characters follow. -/
theorem tokensFrom_toDigits (n : Nat) {m : Char} (h : isNumberChar m = false)
    (done : List Token) (rest : List Char) :
    tokensFrom done (Nat.toDigits 10 n ++ m :: rest) =
      tokensFrom (.number (Nat.toDigits 10 n) :: done) (m :: rest) := by
  have hdigits : ∀ c ∈ Nat.toDigits 10 n, isDigit 10 c = true := fun c => isDigit_of_mem_toDigits
  have hnumber := isNumber_toDigits n
  obtain ⟨c, cs, hcons⟩ := List.exists_cons_of_ne_nil (Nat.toDigits_ne_nil (b := 10) (n := n))
  rw [hcons] at hdigits hnumber ⊢
  have htail : ∀ d ∈ cs, isNumberChar d = true := fun d hd =>
    isNumberChar_of_isDigit (hdigits d (List.mem_cons_of_mem c hd))
  have htaken : (cs ++ m :: rest).takeWhile isNumberChar = cs := by
    rw [List.takeWhile_append_of_pos htail, List.takeWhile_cons, h]
    exact List.append_nil cs
  have hleft : (cs ++ m :: rest).dropWhile isNumberChar = m :: rest := by
    rw [List.dropWhile_append_of_pos htail, List.dropWhile_cons, h]
    rfl
  rw [List.cons_append, tokensFrom_digit (hdigits c List.mem_cons_self), htaken, hleft,
    if_pos hnumber]

theorem Spells.append_number {as bs : List Char} {ss ts : List Token} (ha : Spells as ss)
    (n : Nat) {m : Char} (hm : isNumberChar m = false) (hb : Spells (m :: bs) ts) :
    Spells (as ++ Nat.toDigits 10 n ++ m :: bs)
      (ss ++ [.number (Nat.toDigits 10 n)] ++ ts) := by
  intro done rest
  rw [List.append_assoc, List.append_assoc, ha, List.cons_append, tokensFrom_toDigits n hm]
  refine (hb _ rest).trans ?_
  simp only [List.reverse_append, List.reverse_cons, List.append_assoc, List.cons_append,
    List.nil_append]

/-! ### Arrays of texts -/

def ofTexts (texts : List String) : Json := .array (texts.map fun text => .string (some text))

/-- The elements that are left of an array, and its end. -/
theorem foldlM_elements (text : String) (texts : List String) (done : List Json)
    (stack : List Container) :
    (listed (text :: texts) ++ [Token.closeArray]).foldlM Reading.next
        (.value (.array done :: stack)) =
      some (.complete stack
        (.array (done.reverse ++ (text :: texts).map fun text => Json.string (some text)))) := by
  induction texts generalizing text done with
  | nil =>
    rw [List.map_singleton, ← List.reverse_cons]
    rfl
  | cons next texts ih =>
    have hrest := ih next (.string (some text) :: done)
    rw [List.reverse_cons, List.append_assoc, List.singleton_append] at hrest
    exact hrest

theorem foldlM_listed (texts : List String) (stack : List Container) :
    (listed texts ++ [Token.closeArray]).foldlM Reading.next (.firstElement stack) =
      some (.complete stack (ofTexts texts)) := by
  match texts with
  | [] => rfl
  | [text] => rfl
  | text :: next :: texts => exact foldlM_elements text (next :: texts) [] stack

end EdgePlacement.Json

import EdgePlacement.CommandLine.Run
import EdgePlacement.Json.Shape
import EdgePlacement.Proofs.Json.Spelling

/-!
Reading back a line of the output.

A reader takes a line as a JSON text and the value it spells as a record with the fields of an
answer (`Answer.ofText?`). It reads every line as the answer it was written from
(`ofText_line`), and since no text is written with a line break in it, an answer takes up one
line (`newline_not_mem_line`). -/
namespace EdgePlacement.CommandLine
open Json

/-! ### Values -/

/-- A whole number of any size, written without sign, fraction and exponent. -/
def whole? : Json → Option Nat
  | .number literal => Text.numeral? 10 literal
  | _ => none

/-- An answer read from a record. -/
def Answer.ofJson? (v : Json) : Option Answer := do
  match ← fields? ["content", "location", "round", "space"] v with
  | [content, location, round, space] =>
    some ⟨← whole? (← round), ← text? (← location), ← natural? (← space),
      ← list? text? (← content)⟩
  | _ => none

/-- An answer read from a text. -/
def Answer.ofText? (text : String) : Option Answer := (Json.ofText? text).bind Answer.ofJson?

/-- The value that the line of an answer spells. -/
def Answer.json (a : Answer) : Json :=
  .object [(some "content", ofTexts a.content),
    (some "location", .string (some a.location)),
    (some "round", .number (Nat.toDigits 10 a.round)),
    (some "space", .number (Nat.toDigits 10 a.space.toNat))]

theorem list_ofTexts (texts : List String) : list? text? (ofTexts texts) = some texts := by
  have hread : text? ∘ (fun text => Json.string (some text)) = pure := rfl
  rw [ofTexts, list?, List.mapM_map, hread, List.mapM_pure, List.map_id']
  rfl

theorem natural_toDigits (n : UInt64) : natural? (.number (Nat.toDigits 10 n.toNat)) = some n := by
  rw [natural?, Text.numeral_toDigits, Option.bind_some, if_pos n.toNat_lt_size, UInt64.ofNat_toNat]

theorem ofJson_json (a : Answer) : Answer.ofJson? a.json = some a := by
  have hfields : fields? ["content", "location", "round", "space"] a.json =
      some [some (ofTexts a.content), some (.string (some a.location)),
        some (.number (Nat.toDigits 10 a.round)),
        some (.number (Nat.toDigits 10 a.space.toNat))] := rfl
  rw [Answer.ofJson?, hfields]
  simp only [bind, Option.bind_some, whole?, Text.numeral_toDigits, text?, natural_toDigits,
    list_ofTexts]

/-! ### Tokens -/

/-- The tokens of an answer's line. -/
def Answer.tokens (a : Answer) : List Token :=
  [Token.openObject, Token.string (some "content"), Token.colon, Token.openArray]
    ++ listed a.content
    ++ [Token.closeArray, Token.comma, Token.string (some "location"), Token.colon]
    ++ [Token.string (some a.location)]
    ++ [Token.comma, Token.string (some "round"), Token.colon]
    ++ [Token.number (Nat.toDigits 10 a.round)]
    ++ [Token.comma, Token.string (some "space"), Token.colon]
    ++ [Token.number (Nat.toDigits 10 a.space.toNat)]
    ++ [Token.closeObject]

/-- A key behind a comma, with its colon. -/
theorem spells_key (key : String) :
    Spells ([','] ++ (quoted key).toList ++ [':']) [.comma, .string (some key), .colon] :=
  ((spells_mark rfl).append (spells_quoted key)).append (spells_mark rfl)

theorem toList_line (a : Answer) : a.line.toList =
    "\x7b\"content\":[".toList
      ++ (",".intercalate (a.content.map quoted)).toList
      ++ "],\"location\":".toList ++ (quoted a.location).toList
      ++ ",\"round\":".toList ++ Nat.toDigits 10 a.round
      ++ ",\"space\":".toList ++ Nat.toDigits 10 a.space.toNat ++ ['\x7d'] := by
  have hround : (toString a.round).toList = Nat.toDigits 10 a.round := Nat.toList_repr
  have hspace : (toString a.space).toList = Nat.toDigits 10 a.space.toNat := Nat.toList_repr
  unfold Answer.line
  simp only [String.toList_append, hround, hspace]
  rfl

theorem spells_line (a : Answer) : Spells a.line.toList a.tokens := by
  have hopen : Spells "\x7b\"content\":[".toList
      [.openObject, .string (some "content"), .colon, .openArray] :=
    (((spells_mark rfl).append (spells_quoted "content")).append (spells_mark rfl)).append
      (spells_mark rfl)
  have hlocation : Spells "],\"location\":".toList
      [.closeArray, .comma, .string (some "location"), .colon] :=
    (spells_mark rfl).append (spells_key "location")
  have hround : Spells ",\"round\":".toList [.comma, .string (some "round"), .colon] :=
    spells_key "round"
  have hspace : Spells (',' :: "\"space\":".toList) [.comma, .string (some "space"), .colon] :=
    spells_key "space"
  have hclose : Spells ['\x7d'] [.closeObject] := spells_mark rfl
  rw [toList_line]
  exact (((((hopen.append (spells_listed a.content)).append hlocation).append
    (spells_quoted a.location)).append hround).append_number a.round rfl hspace).append_number
      a.space.toNat rfl hclose

theorem ofTokens_tokens (a : Answer) : ofTokens? a.tokens = some a.json := by
  have htokens : a.tokens =
      [Token.openObject, Token.string (some "content"), Token.colon, Token.openArray]
        ++ ((listed a.content ++ [Token.closeArray])
          ++ [Token.comma, Token.string (some "location"), Token.colon,
            Token.string (some a.location), Token.comma, Token.string (some "round"),
            Token.colon, Token.number (Nat.toDigits 10 a.round), Token.comma,
            Token.string (some "space"), Token.colon,
            Token.number (Nat.toDigits 10 a.space.toNat), Token.closeObject]) := by
    simp only [Answer.tokens, List.append_assoc, List.cons_append, List.nil_append]
  have hbegin : [Token.openObject, .string (some "content"), .colon, .openArray].foldlM
      Reading.next (.value []) = some (.firstElement [.object [] (some "content")]) := rfl
  rw [ofTokens?, htokens, List.foldlM_append, hbegin, Option.bind_eq_bind, Option.bind_some,
    List.foldlM_append, foldlM_listed]
  rfl

/-! ### Lines -/

/-- **A line is read as the answer it was written from.** -/
theorem ofText_line (a : Answer) : Answer.ofText? a.line = some a := by
  rw [Answer.ofText?, Json.ofText?, (spells_line a).tokens, Option.bind_some, ofTokens_tokens,
    Option.bind_some, ofJson_json]

/-- A line is one line. -/
theorem newline_not_mem_line (a : Answer) : '\n' ∉ a.line.toList := by
  have hdigits : ∀ n, '\n' ∉ Nat.toDigits 10 n := fun n hmem => by
    cases Text.isDigit_of_mem_toDigits hmem
  simp only [toList_line, List.mem_append, hdigits, newline_not_mem_intercalate,
    newline_not_mem_quoted, or_false]
  decide

end EdgePlacement.CommandLine

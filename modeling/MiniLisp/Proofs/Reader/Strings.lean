/-
  MiniLisp.Proofs.Reader.Strings

  Strings in program texts. Spellings of characters between double quotes are one
  token (`isLexeme_betweenQuotes`), and it stands for the characters that are
  spelled (`ofLiteral_betweenQuotes`). So a text that is nothing but a string is
  read as one datum, and how its characters are spelled makes no difference to
  it.
-/
import MiniLisp.Proofs.Reader.Grammar
import MiniLisp.Proofs.Text.Literal

namespace MiniLisp

open Text (SpelledBy)

/-- The parts of a string, one behind the other between double quotes. -/
def betweenQuotes (parts : List (List CodePoint)) : Text :=
  Text.ofList (.char '\x22' :: (parts.flatten ++ [.char '\x22']))

theorem isLexeme_betweenQuotes {cs : List CodePoint} {parts : List (List CodePoint)}
    (h : List.Forall₂ SpelledBy cs parts) : Token.IsLexeme ⟨.string, betweenQuotes parts⟩ :=
  .string (Text.enclosed_of_spelledBy h)

/-- A string stands for the text that it spells. -/
theorem ofLiteral_betweenQuotes [Host] {s : Text} {parts : List (List CodePoint)}
    (h : List.Forall₂ SpelledBy s.toList parts) :
    Datum.ofLiteral (betweenQuotes parts) = .ok (.str s) := by
  rw [TokenStream.ofLiteral_of_isString ((isLexeme_betweenQuotes h).isPlain rfl), betweenQuotes,
    Text.toList_ofList, Text.decode_of_spelledBy h]

/-- Reading undoes spelling. Let every character of a text be written in a string in one of the
    ways that there are for it: as itself, by a short escape, or by its number, in hexadecimal
    digits of either case or in octal ones. Then the string is read as one datum, which is the
    text, whatever ways are chosen and whatever stands next to each other. -/
theorem read_spelled_string [Host] (depth : Nat) {s : Text} {spellings : List (List CodePoint)}
    (h : List.Forall₂ SpelledBy s.toList spellings) :
    read (depth + 1) (betweenQuotes spellings) = .ok [.str s] := by
  have hlexeme := isLexeme_betweenQuotes h
  have hspells : Spells [⟨.string, betweenQuotes spellings⟩] (.str s) :=
    .string (hlexeme.isPlain rfl) (ofLiteral_betweenQuotes h)
  rw [read_of_lexeme hlexeme hspells (depth + 1)]
  exact if_pos (Nat.le_add_left 1 depth)

/-- An escaped backslash before a raw line break and the letter `n`, an octal escape before a digit,
    hexadecimal digits of both cases, and half of a surrogate pair by its number. -/
theorem read_spelled_string_mixed :
    letI := Host.bare
    read 1 "\"\\\\\nn\\0008\\xFf\\U0001f60A\\\"\\uD83d\"" =
      .ok [.str ("\\\nn\x008ÿ😊\"" ++ ⟨[.surrogate 0x3d]⟩)] := by
  let _ := Host.bare
  let parts : List Text :=
    ["\\\\", "\n", "n", "\\000", "8", "\\xFf", "\\U0001f60A", "\\\"", "\\uD83d"]
  have hchars : (Text.ofString "\\\nn\x008ÿ😊\"" ++ ⟨[.surrogate 0x3d]⟩).toList =
      ['\\', '\n', 'n', '\x00', '8', 'ÿ', '😊', '\x22'].map CodePoint.char ++
        [.surrogate 0x3d] := by
    decide
  have hspelled : List.Forall₂ SpelledBy
      (Text.ofString "\\\nn\x008ÿ😊\"" ++ ⟨[.surrogate 0x3d]⟩).toList
      (parts.map Text.toList) := by
    rw [hchars]
    have hraw (c : Char) (h : c ≠ '\x22') (h' : c ≠ '\\') (h'' : c ≠ '\x00') :
        SpelledBy (.char c) [.char c] :=
      .itself rfl (by simpa using h) (by simpa using h') (by simpa using h'')
    exact .cons (.short (by decide)) (.cons (hraw _ (by decide) (by decide) (by decide))
      (.cons (hraw _ (by decide) (by decide) (by decide)) (.cons (.octal (by decide))
      (.cons (hraw _ (by decide) (by decide) (by decide)) (.cons (.byte (by decide) rfl)
      (.cons (.scalar rfl) (.cons (.short (by decide)) (.cons (.unit (by decide) rfl) .nil))))))))
  have htext : betweenQuotes (parts.map Text.toList) =
      "\"\\\\\nn\\0008\\xFf\\U0001f60A\\\"\\uD83d\"" := by
    decide
  rw [← htext]
  exact read_spelled_string 0 hspelled

end MiniLisp

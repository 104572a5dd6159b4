/-
  MiniLisp.Token.Lexer

  Program text to tokens. Blanks and comments (from a semicolon to the end of
  its line) divide tokens and are dropped. Each bracket is a token; a string
  runs from a double quote to the next one that no backslash escapes; any
  other run of characters is a word.

  `scan` decides from the next characters what comes next and how far it
  reaches; `lexFrom` cuts it off and goes on with the rest. A text that cannot
  be cut into tokens to its end, because its last string is never closed, still
  gives the tokens before that string.
-/
import MiniLisp.Token
import MiniLisp.Text.Blank

namespace MiniLisp

/-- The tokens of a text and, if they do not reach to its end, what stopped them. -/
structure Lexed where
  tokens : List Token
  stopped : Option LexFault
deriving DecidableEq, Repr

namespace Lexer

/-- An opening bracket. -/
def isOpener (c : CodePoint) : Bool := c = '(' ∨ c = '[' ∨ c = '\x7b'

/-- A closing bracket. -/
def isCloser (c : CodePoint) : Bool := c = ')' ∨ c = ']' ∨ c = '\x7d'

/-- A character that words are made of. -/
def isWordChar (c : CodePoint) : Bool :=
  !(Text.isBlank c || isOpener c || isCloser c || c = '\x22' || c = ';')

/-- How many characters there are up to and with the quote that closes a string, `count` more
    than in the text given; `none` if no quote does. -/
def stringEnd (count : Nat) : List CodePoint → Option Nat
  | [] => none
  | .char '\x22' :: _ => some (count + 1)
  | .char '\\' :: _ :: cs => stringEnd (count + 2) cs
  | _ :: cs => stringEnd (count + 1) cs

/-- The text is a string, as strings are cut from program texts. -/
def isString : List CodePoint → Bool
  | .char '\x22' :: rest => stringEnd 0 rest = some rest.length
  | _ => false

/-- What comes next in a text, with the number of characters after its first. -/
inductive Scan where
  /-- A blank or a comment. -/
  | gap (more : Nat)
  | token (kind : TokenKind) (more : Nat)
  /-- A string that is not closed. -/
  | unclosed
  /-- A character that starts nothing. -/
  | unexpected
deriving DecidableEq, Repr

/-- What the character `c` and the text after it start with. -/
def scan (c : CodePoint) (rest : List CodePoint) : Scan :=
  if Text.isBlank c then .gap 0
  else if c = ';' then .gap (rest.takeWhile fun d => d ≠ CodePoint.char '\n').length
  else if isOpener c then .token .opener 0
  else if isCloser c then .token .closer 0
  else if c = '\x22' then
    match stringEnd 0 rest with
    | some more => .token .string more
    | none => .unclosed
  else if isWordChar c then .token .word (rest.takeWhile isWordChar).length
  else .unexpected

/-- Cuts a text into tokens from `position` on; `done` holds the tokens so far, last one
    first. -/
def lexFrom (position : Nat) (done : List Token) : List CodePoint → Lexed
  | [] => ⟨done.reverse, none⟩
  | c :: rest =>
    match scan c rest with
    | .gap more => lexFrom (position + 1 + more) done (rest.drop more)
    | .token kind more =>
      lexFrom (position + 1 + more) (⟨kind, Text.ofList (c :: rest.take more)⟩ :: done)
        (rest.drop more)
    | .unclosed => ⟨done.reverse, some (.unclosedString position)⟩
    | .unexpected => ⟨done.reverse, some (.unexpectedCharacter position c)⟩
termination_by cs => cs.length
decreasing_by all_goals simp only [List.length_drop, List.length_cons]; omega

end Lexer

/-- The tokens of a program text. -/
def lex (source : Text) : Lexed := Lexer.lexFrom 0 [] source.toList

end MiniLisp

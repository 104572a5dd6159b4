/-
  MiniLisp.Token

  Tokens: brackets of three shapes, quoted strings and words. A token keeps
  the text it was written with. Streams of tokens can also be built by hand,
  so kinds that no program text gives rise to are possible.
-/
import MiniLisp.Text

namespace MiniLisp

/-- The three shapes of brackets; a closer must have the shape of its opener. -/
inductive Bracket where
  | round
  | square
  | curly
deriving DecidableEq, Repr

namespace Bracket

/-- The opening bracket of a shape. -/
def opener : Bracket → CodePoint
  | .round => '('
  | .square => '['
  | .curly => '\x7b'

/-- The closing bracket of a shape. -/
def closer : Bracket → CodePoint
  | .round => ')'
  | .square => ']'
  | .curly => '\x7d'

/-- The shape whose opening bracket the text is. -/
def ofOpener? (text : Text) : Option Bracket :=
  [round, square, curly].find? fun b => text = .singleton b.opener

/-- The text is the closing bracket of the shape. -/
def closedBy (b : Bracket) (text : Text) : Bool := text = .singleton b.closer

/-- Every shape is found by its own opening bracket. -/
@[simp] theorem ofOpener?_opener (b : Bracket) : ofOpener? (.singleton b.opener) = some b := by
  cases b <;> decide

end Bracket

/-- What a token is. -/
inductive TokenKind where
  | opener
  | closer
  /-- A quoted string. -/
  | string
  /-- A word: an integer or a symbol. -/
  | word
  /-- A kind that program text never gives, by its name. -/
  | other (name : Text)
deriving DecidableEq, Repr

/-- Why a text cannot be cut into tokens to its end. -/
inductive LexFault where
  /-- A string that starts at `position` is never closed. -/
  | unclosedString (position : Nat)
  /-- The character at `position` starts no token. -/
  | unexpectedCharacter (position : Nat) (c : CodePoint)
deriving DecidableEq, Repr

/-- A token and its text. -/
structure Token where
  kind : TokenKind
  text : Text
deriving DecidableEq, Repr

end MiniLisp

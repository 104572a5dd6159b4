/-
  MiniLisp.Token.Stream

  Token streams: a list of tokens that is consumed from the front, with a
  buffer for tokens that are looked at first. The tokens are given, or cut from
  a text as they are asked for. A text that cannot be cut to its end fails when
  the tokens before that place are used up. Cutting stops at a failure: a
  stream whose text has failed is at its end from then on.

  Operations run in `Reading`, which keeps the stream as it stands when an
  operation fails: what is consumed stays consumed.
-/
import MiniLisp.Fault
import MiniLisp.Token.Lexer

namespace MiniLisp

/-- Tokens still to be consumed. -/
structure TokenStream where
  /-- Tokens that were looked at and not consumed. -/
  buffer : List Token
  /-- The tokens after them. -/
  pending : List Token
  /-- What stops the text behind the tokens, if anything does. -/
  stopped : Option LexFault
  /-- The tokens are cut from a text, and not given. -/
  fromText : Bool
deriving DecidableEq, Repr

/-- An operation on a token stream: a result or a fault, and the stream that is left. -/
abbrev Reading (α : Type) := EStateM Fault TokenStream α

namespace TokenStream

/-- The stream of given tokens. -/
def ofTokens (tokens : List Token) : TokenStream := ⟨[], tokens, none, false⟩

/-- The stream of the tokens of a text. -/
def ofText (source : Text) : TokenStream :=
  let lexed := lex source
  ⟨[], lexed.tokens, lexed.stopped, true⟩

/-- The stream of a text that has failed. -/
def finished : TokenStream := ⟨[], [], none, true⟩

/-- What is left of a stream when a datum nests too deep. There is no room to cut another token
    then, so the text fails too; given tokens are still there. -/
def abandon (s : TokenStream) : TokenStream := if s.fromText then finished else s

/-- The tokens left, in order. -/
def tokens (s : TokenStream) : List Token := s.buffer ++ s.pending

/-- How many tokens are left. -/
def size (s : TokenStream) : Nat := s.buffer.length + s.pending.length

/-- The next token, which stays in the stream; `none` at the end. -/
def peek : Reading (Option Token) := fun s =>
  match s.buffer, s.pending, s.stopped with
  | t :: _, _, _ => .ok (some t) s
  | [], t :: pending, _ => .ok (some t) { s with buffer := s.buffer ++ [t], pending }
  | [], [], some fault => .error (.lexing fault) finished
  | [], [], none => .ok none s

/-- The next token, which is consumed; `none` at the end. -/
def advance : Reading (Option Token) := fun s =>
  match s.buffer, s.pending, s.stopped with
  | t :: buffer, _, _ => .ok (some t) { s with buffer }
  | [], t :: pending, _ => .ok (some t) { s with pending }
  | [], [], some fault => .error (.lexing fault) finished
  | [], [], none => .ok none s

end TokenStream

end MiniLisp

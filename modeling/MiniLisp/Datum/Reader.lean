/-
  MiniLisp.Datum.Reader

  Tokens to surface data, by recursive descent. A word is an integer when all
  of it is a numeral, and a symbol otherwise; a string token is the text that
  its literal stands for; an opener starts a list, which runs to the next
  closer at its own level.

  Two things are left to the host that programs are read on: the names of
  characters, and what a literal stands for that was put by hand into a token
  and is no string of the language.

  Lists may nest only so deep: `depth` is the number of nested data that may
  still be entered.
-/
import MiniLisp.Datum
import MiniLisp.Token.Stream

namespace MiniLisp

/-- What a host makes of a text that is to be a literal. -/
inductive HostLiteral where
  | datum (d : Datum)
  /-- The text is no literal. -/
  | refused (words : Text)
  /-- The text is a literal, for something that cannot be built. -/
  | broken (words : Text)

/-- What reading takes from its host. -/
class Host where
  /-- The character of a Unicode name. -/
  named? : Text → Option Char
  /-- What a text stands for that is no string of the language, in the place of one. -/
  literal : Text → HostLiteral

/-- The host that knows no names and reads no literals. -/
@[reducible] def Host.bare : Host := ⟨fun _ => none, fun _ => .refused "malformed node or string"⟩

variable [Host]

namespace Datum

/-- The datum that a word stands for. -/
def ofWord (text : Text) : Except Fault Datum :=
  match Text.Numeral.ofChars? text.toList with
  | none => .ok (.sym ⟨text⟩)
  | some n =>
    if n.digits.length > Text.maxDigits then .error (.longNumeral n.digits.length)
    else .ok (.int n.value)

/-- The text that a string token stands for. -/
def ofLiteral (text : Text) : Except Fault Datum :=
  if Lexer.isString text.toList then
    match Text.Literal.decode Host.named? text.toList with
    | .ok chars => .ok (.str (Text.ofList chars))
    | .error cause => .error (.badLiteral text cause)
  else
    match Host.literal text with
    | .datum d => .ok d
    | .refused words => .error (.badLiteral text (.refused words))
    | .broken words => .error (.brokenLiteral words)

end Datum

namespace TokenStream

/-- Data up to the closer of a list, which is consumed. `item` reads one datum, `most` bounds the
    number of data and closers still to come, and `done` holds the data read, last one first. -/
def readItems (item : Reading (Option Datum)) (b : Bracket) :
    (most : Nat) → (done : List Datum) → Reading (List Datum)
  | 0, _ => throw (.unmatched b)
  | most + 1, done => do
    match ← peek with
    | none => throw (.unmatched b)
    | some ⟨.closer, text⟩ =>
      let _ ← advance
      if b.closedBy text then pure done.reverse else throw (.mismatched b text)
    | some _ =>
      match ← item with
      | none => throw (.unmatched b)
      | some d => readItems item b most (d :: done)

/-- One datum, or `none` at the end of the input. `most` is more than the number of tokens in the
    stream: each item of a list takes a token and so does its closer, so no list reaches it. -/
def readDatum (most : Nat) : (depth : Nat) → Reading (Option Datum)
  | 0 => fun s => .error .tooDeep s.abandon
  | depth + 1 => do
    match ← advance with
    | none => pure none
    | some ⟨.word, text⟩ => some <$> MonadExcept.ofExcept (Datum.ofWord text)
    | some ⟨.string, text⟩ => some <$> MonadExcept.ofExcept (Datum.ofLiteral text)
    | some ⟨.opener, text⟩ =>
      match Bracket.ofOpener? text with
      | none => throw (.noBracket text)
      | some b =>
        let items ← readItems (readDatum most depth) b most []
        pure (some (.list items))
    | some ⟨.closer, text⟩ => throw (.strayCloser text)
    | some ⟨.other kind, text⟩ => throw (.unknownToken kind text)

/-- All data up to the end of the input; `item` reads one datum and `most` bounds their
    number. -/
def readDataWith (item : Reading (Option Datum)) :
    (most : Nat) → (done : List Datum) → Reading (List Datum)
  | 0, done => pure done.reverse
  | most + 1, done => do
    match ← peek with
    | none => pure done.reverse
    | some _ =>
      match ← item with
      | none => pure done.reverse
      | some d => readDataWith item most (d :: done)

/-- The next datum, or `none` at the end of the input. -/
def next (depth : Nat) : Reading (Option Datum) := do
  let most := (← get).size + 1
  readDatum most depth

/-- All data up to the end of the input. -/
def readData (depth : Nat) : Reading (List Datum) := do
  let most := (← get).size + 1
  readDataWith (readDatum most depth) most []

/-- The result of an operation on a stream that is not needed afterwards. -/
def result {α : Type} (op : Reading α) (s : TokenStream) : Except Fault α :=
  match op s with
  | .ok a _ => .ok a
  | .error fault _ => .error fault

end TokenStream

/-- The surface data of a program text. -/
def read (depth : Nat) (source : Text) : Except Fault (List Datum) :=
  TokenStream.result (TokenStream.readData depth) (.ofText source)

end MiniLisp

/-
  MiniLisp.Text.Utf8

  Program files and standard input are bytes: UTF-8, with line breaks of any
  convention. `Utf8.decode` reads the bytes or reports the first sequence that
  is no character, with the span of bytes that already rules it out, and
  `unifyBreaks` makes every line break a line feed.

  In the other direction UTF-8 has bytes for every character and for no
  surrogate: `encodeFault?` finds the surrogates that a text is refused for.
  Where a text has to come out in any case, `escaped` spells its surrogates in
  ASCII.
-/
import MiniLisp.Text.Quoted

namespace MiniLisp.Text

/-- Why a sequence of bytes is no character. -/
inductive Utf8Cause where
  | startByte
  | continuationByte
  | endOfData
deriving DecidableEq, Repr

/-- A sequence that is no character: `span` bytes from `position` on, the first of which is
    `lead`. -/
structure Utf8Fault where
  position : Nat
  span : Nat
  lead : UInt8
  cause : Utf8Cause
deriving DecidableEq, Repr

/-- The wording of a cause. -/
def Utf8Cause.message : Utf8Cause → Text
  | .startByte => "invalid start byte"
  | .continuationByte => "invalid continuation byte"
  | .endOfData => "unexpected end of data"

/-- The wording of a fault: a single byte is shown, several are named by their positions. -/
def Utf8Fault.message (f : Utf8Fault) : Text :=
  let place :=
    if f.span = 1 then
      "byte 0x" ++ Text.ofList (hexDigits 2 f.lead.toNat) ++ s!" in position {f.position}"
    else s!"bytes in position {f.position}-{f.position + f.span - 1}"
  "'utf-8' codec can't decode " ++ place ++ ": " ++ f.cause.message

namespace Utf8

/-- What a lead byte announces: the value of its own bits, how many bytes follow it, and the
    least and greatest byte that may come second. -/
structure Lead where
  bits : Nat
  more : Nat
  low : Nat
  high : Nat

/-- The bytes that may start a character. The range of the second byte keeps out spellings that
    are too long, surrogates, and code points beyond the last one. -/
def lead? (b : UInt8) : Option Lead :=
  let n := b.toNat
  if n < 0x80 then some ⟨n, 0, 0x80, 0xbf⟩
  else if n < 0xc2 then none
  else if n < 0xe0 then some ⟨n - 0xc0, 1, 0x80, 0xbf⟩
  else if n < 0xf0 then
    some ⟨n - 0xe0, 2, if n = 0xe0 then 0xa0 else 0x80, if n = 0xed then 0x9f else 0xbf⟩
  else if n < 0xf5 then
    some ⟨n - 0xf0, 3, if n = 0xf0 then 0x90 else 0x80, if n = 0xf4 then 0x8f else 0xbf⟩
  else none

/-- Reads the `more` bytes that still belong to a character. `span` counts the bytes accepted so
    far; a failure gives it back with its cause. -/
def continuation : (more : Nat) → (low high value span : Nat) → List UInt8 →
    Except (Nat × Utf8Cause) (Nat × List UInt8)
  | 0, _, _, value, _, bytes => .ok (value, bytes)
  | _ + 1, _, _, _, span, [] => .error (span, .endOfData)
  | more + 1, low, high, value, span, b :: bytes =>
    if low ≤ b.toNat ∧ b.toNat ≤ high then
      continuation more 0x80 0xbf (64 * value + (b.toNat - 0x80)) (span + 1) bytes
    else .error (span, .continuationByte)

/-- What is left after a character is no longer than what was there. -/
theorem length_le_of_continuation {more low high value span : Nat} {bytes : List UInt8}
    {r : Nat × List UInt8} (h : continuation more low high value span bytes = .ok r) :
    r.2.length ≤ bytes.length := by
  induction more generalizing low high value span bytes with
  | zero => simp only [continuation] at h; cases h; simp
  | succ more ih =>
    cases bytes with
    | nil => simp [continuation] at h
    | cons b bytes =>
      simp only [continuation] at h
      split at h
      · have := ih h; simp only [List.length_cons]; omega
      · cases h

/-- Decodes the bytes from `position` on; `done` holds what is decoded so far, last character
    first. -/
def decodeFrom (position : Nat) (done : List CodePoint) (bytes : List UInt8) :
    Except Utf8Fault (List CodePoint) :=
  match bytes with
  | [] => .ok done.reverse
  | b :: rest =>
    match lead? b with
    | none => .error ⟨position, 1, b, .startByte⟩
    | some lead =>
      match h : continuation lead.more lead.low lead.high lead.bits 1 rest with
      | .error (span, cause) => .error ⟨position, span, b, cause⟩
      | .ok (value, rest') =>
        have : rest'.length ≤ rest.length := length_le_of_continuation h
        decodeFrom (position + 1 + lead.more) (.char (Char.ofNat value) :: done) rest'
termination_by bytes.length
decreasing_by simp only [List.length_cons]; omega

/-- The text that bytes spell. -/
def decode (bytes : List UInt8) : Except Utf8Fault (List CodePoint) := decodeFrom 0 [] bytes

end Utf8

/-- Surrogates in a text that is to be encoded: `count` of them, one behind the other, from
    `position` on, and the `first`. -/
structure EncodeFault where
  position : Nat
  first : CodePoint
  count : Nat
deriving DecidableEq, Repr

/-- The wording of a fault: a single surrogate is shown, several are named by their positions. -/
def EncodeFault.message (f : EncodeFault) : Text :=
  let place :=
    if f.count = 1 then
      "character '" ++ Text.ofList (codePointEscape f.first.toNat) ++ s!"' in position {f.position}"
    else s!"characters in position {f.position}-{f.position + f.count - 1}"
  "'utf-8' codec can't encode " ++ place ++ ": surrogates not allowed"

/-- The first surrogates of a text, if it holds any. -/
def encodeFault? (cs : List CodePoint) : Option EncodeFault :=
  let run := (cs.dropWhile fun c => !c.isSurrogate).takeWhile CodePoint.isSurrogate
  run.head?.map fun first => ⟨(cs.takeWhile fun c => !c.isSurrogate).length, first, run.length⟩

/-- A text is refused just if it holds a surrogate. -/
theorem encodeFault?_eq_none_iff {cs : List CodePoint} :
    encodeFault? cs = none ↔ ∀ c ∈ cs, c.isSurrogate = false := by
  rw [encodeFault?, Option.map_eq_none_iff, List.head?_eq_none_iff]
  induction cs with
  | nil => simp
  | cons c cs ih =>
    cases hc : c.isSurrogate with
    | false => simp [hc, ih]
    | true => simp [hc]

/-- The text with each surrogate spelled by its number. -/
def escaped (s : Text) : Text :=
  ⟨s.toList.flatMap fun c => if c.isSurrogate then codePointEscape c.toNat else [c]⟩

theorem escaped_append (s t : Text) : (s ++ t).escaped = s.escaped ++ t.escaped := by
  refine Text.ext ?_
  rw [escaped, toList_append, toList_append, List.flatMap_append]
  rfl

/-- Makes every line break a line feed: a carriage return becomes one, together with a line feed
    right after it. `done` holds what is finished so far, last character first. -/
def unifyBreaksFrom (done : List CodePoint) : List CodePoint → List CodePoint
  | [] => done.reverse
  | .char '\r' :: .char '\n' :: cs => unifyBreaksFrom ('\n' :: done) cs
  | .char '\r' :: cs => unifyBreaksFrom ('\n' :: done) cs
  | c :: cs => unifyBreaksFrom (c :: done) cs

/-- The text with every line break made a line feed. -/
def unifyBreaks (cs : List CodePoint) : List CodePoint := unifyBreaksFrom [] cs

end MiniLisp.Text

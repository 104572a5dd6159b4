/-
  MiniLisp.Console

  The machine that acts. A console has a sink, which the printed lines go to one
  after the other, and a log, which keeps the records of the other events. A
  sink may refuse a line: a buffer takes every text, while standard output takes
  only what it has an encoding for. A line that is refused is a fault at the
  place in the program that prints it, and is not written.
-/
import MiniLisp.Machine
import MiniLisp.Text.Sequence
import MiniLisp.Text.Utf8

namespace MiniLisp

/-- Where lines are printed to. -/
structure Sink where
  /-- Why a line is refused, if it is. -/
  refusal? : Text → Option Text
  /-- The lines printed so far. -/
  lines : List Text

namespace Sink

/-- A sink that keeps its lines as they are. -/
def buffer (lines : List Text) : Sink := ⟨fun _ => none, lines⟩

/-- Why a line cannot be encoded as UTF-8, if it cannot. -/
def utf8Refusal? (line : Text) : Option Text :=
  (Text.encodeFault? line.toList).map Text.EncodeFault.message

/-- Prints a line. -/
def println (line : Text) (s : Sink) : Except Fault Sink :=
  match s.refusal? line with
  | none => .ok { s with lines := s.lines ++ [line] }
  | some words => .error (.unencodable words)

/-- All lines, each with a line feed behind it. -/
def output (s : Sink) : Text := Text.asLines s.lines

end Sink

/-- A sink and a log. -/
structure Console where
  sink : Sink
  /-- The records logged so far. -/
  log : List Text

/-- A console before anything happens: the sink as it is given, and no records. -/
def Console.start (sink : Sink) : Console := ⟨sink, []⟩

/-- A computation that acts on a console: a result or a fault, and the console that is left. -/
abbrev Acting (α : Type) := EStateM Fault Console α

namespace Acting

/-- A result or a fault; the console stays as it is. -/
def ofExcept {α : Type} : Except Fault α → Acting α
  | .ok a => fun c => .ok a c
  | .error fault => fun c => .error fault c

/-- Prints the line of an event, or logs its record. -/
def emit (e : Event) : Acting Unit := fun c =>
  match e.line? with
  | none => .ok () { c with log := c.log ++ e.record?.toList }
  | some line =>
    match c.sink.println line with
    | .ok sink => .ok () { c with sink }
    | .error fault => .error fault c

instance : Machine (EStateM Fault Console) where
  ofExcept := ofExcept
  emit := emit

end Acting

end MiniLisp

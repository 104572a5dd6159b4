/-
  MiniLisp.CommandLine.Options

  Arguments of the command line to options. An argument that starts with a
  dash is a switch, apart from the dash alone, negative numbers, and
  arguments that hold a space and are no known switch. Long switches may be
  shortened as long as one is meant. A value stands in the next argument, or
  is attached: after an equals sign, or right behind a short switch. After the
  mark `--` every argument is plain.

  All arguments are sorted into classes first, then they are taken from left
  to right. The first plain argument names the program file; what nothing
  takes is refused at the end.
-/
import MiniLisp.Text.Digit
import MiniLisp.Text.Quoted
import MiniLisp.Text.Sequence

namespace MiniLisp.CommandLine

/-- The switches of the command line. -/
inductive Switch where
  | help
  | expr
  | level
deriving DecidableEq, Repr

namespace Switch

/-- The names of all switches, in the order in which they are listed. -/
def names : List (Text × Switch) :=
  [("-h", .help), ("--help", .help), ("-e", .expr), ("--expr", .expr), ("--log-level", .level)]

/-- The switch of a name. -/
def named? (name : Text) : Option Switch := names.lookup name

/-- The switch wants a value. -/
def takesValue : Switch → Bool
  | .help => false
  | .expr | .level => true

/-- The names of a switch, as complaints give them. -/
def label : Switch → Text
  | .help => "-h/--help"
  | .expr => "-e/--expr"
  | .level => "--log-level"

end Switch

/-- What is wrong with the arguments. -/
inductive UsageFault where
  /-- A shortened switch that could mean several. -/
  | ambiguous (arg : Text) (names : List Text)
  | missingValue (s : Switch)
  /-- A value for a switch that takes none. -/
  | ignoredValue (s : Switch) (value : Text)
  /-- Arguments that nothing takes. -/
  | unrecognized (args : List Text)
deriving DecidableEq, Repr

/-- The wording of a fault. -/
def UsageFault.message : UsageFault → Text
  | .ambiguous arg names =>
    "ambiguous option: " ++ arg ++ " could match " ++ Text.commas names
  | .missingValue s => "argument " ++ s.label ++ ": expected one argument"
  | .ignoredValue s value =>
    "argument " ++ s.label ++ ": ignored explicit argument " ++ Text.quoted value
  | .unrecognized args => "unrecognized arguments: " ++ Text.divided " " args

/-- The class of an argument. -/
inductive ArgClass where
  | plain
  /-- The mark after which all arguments are plain. -/
  | mark
  /-- A switch; `short` says that it is given by a name of one dash. -/
  | switch (s : Switch) (short : Bool) (attached : Option Text)
  /-- Looks like a switch, and is none. -/
  | unknown
deriving DecidableEq, Repr

/-- A negative number: a dash, then digits, or digits, a point and more digits, of which those
    before the point may be missing. A line feed at the end does not count. -/
def isNegativeNumber (cs : List CodePoint) : Bool :=
  match cs with
  | .char '-' :: rest =>
    let body := if rest.getLast? = some (.char '\n') then rest.dropLast else rest
    let whole := body.takeWhile Text.isDigit
    match body.dropWhile Text.isDigit with
    | [] => !whole.isEmpty
    | .char '.' :: fraction => !fraction.isEmpty && fraction.all Text.isDigit
    | _ => false
  | _ => false

/-- A text up to its first equals sign, and what stands after that. -/
def splitAtEquals (cs : List CodePoint) : List CodePoint × Option (List CodePoint) :=
  match cs.dropWhile fun c => c ≠ CodePoint.char '=' with
  | [] => (cs, none)
  | _ :: value => (cs.takeWhile fun c => c ≠ CodePoint.char '=', some value)

/-- The switches that an argument can stand for without naming one in full: for two dashes, those
    whose names start with it; for one, the switch of its first letter, the rest being a value. -/
def candidates (cs : List CodePoint) : List (Text × Switch × Option Text) :=
  match cs with
  | .char '-' :: .char '-' :: _ =>
    let (start, value) := splitAtEquals cs
    (Switch.names.filter fun (name, _) => start.isPrefixOf name.toList).map
      fun (name, s) => (name, s, value.map Text.ofList)
  | .char '-' :: c :: value =>
    (Switch.names.filter fun (name, _) => name.toList = [.char '-', c]).map
      fun (name, s) => (name, s, some (Text.ofList value))
  | _ => []

/-- The name starts with one dash. -/
def isShort (name : Text) : Bool := !([.char '-', .char '-'].isPrefixOf name.toList)

/-- The class of an argument before the mark. -/
def classify (arg : Text) : Except UsageFault ArgClass :=
  let cs := arg.toList
  if cs.head? ≠ some (.char '-') || cs = [.char '-'] then .ok .plain
  else
    match Switch.named? arg with
    | some s => .ok (.switch s (isShort arg) none)
    | none =>
      let (start, value) := splitAtEquals cs
      match Switch.named? (Text.ofList start), value with
      | some s, some value =>
        .ok (.switch s (isShort (Text.ofList start)) (some (Text.ofList value)))
      | _, _ =>
        match candidates cs with
        | [] => .ok (if isNegativeNumber cs || cs.contains ' ' then .plain else .unknown)
        | [(name, s, value)] => .ok (.switch s (isShort name) value)
        | several => .error (.ambiguous arg (several.map fun (name, _) => name))

/-- The classes of all arguments. -/
def classifyAll : List Text → Except UsageFault (List (Text × ArgClass))
  | [] => .ok []
  | arg :: rest =>
    if arg = "--" then .ok ((arg, .mark) :: rest.map fun arg => (arg, .plain))
    else do
      let c ← classify arg
      pure ((arg, c) :: (← classifyAll rest))

/-- The value of a switch. A mark given as an attached value is dropped, so that the switch is
    there without a value. -/
inductive Given where
  | value (text : Text)
  | dropped
deriving DecidableEq, Repr

/-- What the command line asks for. -/
structure Options where
  /-- The program file. -/
  file : Option Text
  /-- The program text. -/
  expr : Option Given
  /-- The name of a log level. -/
  level : Option Given
deriving DecidableEq, Repr

/-- A command line that is understood. -/
inductive Request where
  | help
  | options (o : Options)
deriving DecidableEq, Repr

/-- What was taken from the arguments so far. -/
structure Taken where
  options : Options
  /-- Arguments that nothing takes. -/
  extras : List Text

namespace Taken

/-- Nothing. -/
def nothing : Taken := ⟨⟨none, none, none⟩, []⟩

/-- Sets the value of a switch; the last value wins. -/
def set (t : Taken) (s : Switch) (g : Given) : Taken :=
  match s with
  | .help => t
  | .expr => { t with options := { t.options with expr := some g } }
  | .level => { t with options := { t.options with level := some g } }

/-- Puts an argument with those that nothing takes. -/
def refuse (t : Taken) (args : List Text) : Taken := { t with extras := t.extras ++ args }

/-- Takes a plain argument: the first names the file. -/
def plain (t : Taken) (arg : Text) : Taken :=
  match t.options.file with
  | none => { t with options := { t.options with file := some arg } }
  | some _ => t.refuse [arg]

/-- Takes the arguments after the last switch. A mark next to the argument that names the file is
    dropped; any other mark is refused like an argument. -/
def finish (t : Taken) (args : List (Text × ArgClass)) : Taken :=
  match t.options.file, args with
  | none, [] => t
  | none, [(_, .mark)] => t
  | none, (_, .mark) :: (arg, _) :: rest => (t.plain arg).refuse (rest.map (·.1))
  | none, (arg, _) :: (_, .mark) :: rest => (t.plain arg).refuse (rest.map (·.1))
  | none, (arg, _) :: rest => (t.plain arg).refuse (rest.map (·.1))
  | some _, _ => t.refuse (args.map (·.1))

/-- Everything is taken. -/
def request (t : Taken) : Except UsageFault Request :=
  if t.extras.isEmpty then .ok (.options t.options) else .error (.unrecognized t.extras)

end Taken

/-- The class is that of a switch, known or not. -/
def ArgClass.isSwitch : ArgClass → Bool
  | .switch _ _ _ | .unknown => true
  | .plain | .mark => false

/-- Follows the letters attached to `-h`, each of which must be a short switch. The last of them
    may want a value, which is there if more letters follow it, or if `next` is plain. -/
def helpLetters (next : Option ArgClass) : List CodePoint → Except UsageFault Request
  | [] => .ok .help
  | c :: rest =>
    match Switch.named? (Text.ofList ['-', c]) with
    | some .help => helpLetters next rest
    | some s =>
      if rest.isEmpty && next ≠ some .plain then .error (.missingValue s) else .ok .help
    | none => .error (.ignoredValue .help (Text.ofList (c :: rest)))

/-- Takes arguments from left to right. -/
def takeArgs (t : Taken) : List (Text × ArgClass) → Except UsageFault Request
  | [] => (t.finish []).request
  | (arg, c) :: rest =>
    if !(c.isSwitch || rest.any fun (_, c) => c.isSwitch) then (t.finish ((arg, c) :: rest)).request
    else
      match c with
      | .plain | .mark => takeArgs (t.plain arg) rest
      | .unknown => takeArgs (t.refuse [arg]) rest
      | .switch s short (some value) =>
        if s.takesValue then
          takeArgs (t.set s (if value = "--" then .dropped else .value value)) rest
        else if short && value ≠ "" then helpLetters (rest.head?.map (·.2)) value.toList
        else .error (.ignoredValue s value)
      | .switch s _ none =>
        if s.takesValue then
          match rest with
          | (value, .plain) :: rest => takeArgs (t.set s (.value value)) rest
          | _ => .error (.missingValue s)
        else .ok .help

/-- What the arguments ask for. -/
def request (argv : List Text) : Except UsageFault Request := do
  takeArgs .nothing (← classifyAll argv)

end MiniLisp.CommandLine

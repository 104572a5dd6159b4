/-
  MiniLisp.CommandLine

  The command line as a function of its surroundings: arguments, variables,
  standard input and files in; output, complaints and exit code out.

  The program text is that of `--expr`, else that of the file, else that of
  standard input. Its forms are evaluated one after the other, and the value of
  each is printed. Faults of the language and excessive depth are reported, with
  exit code 1; faults of the machinery end the run as they are, and so does a
  line that standard output refuses. Complaints always come out: a surrogate in
  them is spelled by its number.
-/
import MiniLisp.CommandLine.Options
import MiniLisp.FileTree
import MiniLisp.Session
import MiniLisp.Settings
import MiniLisp.Text.Utf8

namespace MiniLisp.CommandLine

variable [Host]

/-- What the command line is run in. -/
structure Surroundings where
  vars : Variables
  input : List UInt8
  files : Text → Except FileFault (List UInt8)
  /-- Why standard output refuses a line, if it does. -/
  refusal? : Text → Option Text

/-- A failure that is not reported but ends the run as it is. -/
inductive Breakdown where
  /-- A file that cannot be read. -/
  | unreadable (path : Text) (fault : FileFault)
  | undecodable (fault : Text.Utf8Fault)
  /-- A depth that is too large to be set. -/
  | depthTooLarge
  /-- A log level without a name. -/
  | noLevelName
  /-- A fault of the machinery. -/
  | machinery (fault : Fault)
deriving DecidableEq, Repr

/-- The wording of a breakdown. -/
def Breakdown.message : Breakdown → Text
  | .unreadable path fault => fault.message path
  | .undecodable fault => fault.message
  | .depthTooLarge => "Python int too large to convert to C int"
  | .noLevelName => "'list' object has no attribute 'upper'"
  | .machinery fault => fault.message

/-- How a run of the command line ends. -/
structure Report where
  stdout : Text
  stderr : Text
  ending : Except Breakdown Nat

/-- The line that shows how the command is used. -/
def usage : Text := "usage: aaqz [-h] [-e EXPR] [--log-level LOG_LEVEL] [file]\n"

/-- What `--help` prints. -/
def helpText : Text :=
  usage ++
  "\n" ++
  "Run AAQZ programs.\n" ++
  "\n" ++
  "positional arguments:\n" ++
  "  file                  program file; '-' or omitted reads standard input\n" ++
  "\n" ++
  "options:\n" ++
  "  -h, --help            show this help message and exit\n" ++
  "  -e EXPR, --expr EXPR  evaluate this program text instead of a file\n" ++
  "  --log-level LOG_LEVEL\n" ++
  "                        logging level name (default from AAQZ_LOG_LEVEL)\n"

/-- The level from which on records are shown. A level named on the command line goes before that
    of the variables, unless there is no such level. -/
def level (o : Options) (vars : Variables) : Except Breakdown Nat :=
  match o.level with
  | none => .ok (Settings.level vars)
  | some (.value name) => .ok ((Settings.level? name.toList).getD (Settings.level vars))
  | some .dropped => .error .noLevelName

/-- The text that bytes spell, with line feeds for line breaks. -/
def textOf (bytes : List UInt8) : Except Breakdown Text :=
  match Text.Utf8.decode bytes with
  | .ok chars => .ok (Text.ofList (Text.unifyBreaks chars))
  | .error fault => .error (.undecodable fault)

/-- The program text. -/
def source (o : Options) (around : Surroundings) : Except Breakdown Text :=
  match o.expr, o.file with
  | some (.value text), _ => .ok text
  | some .dropped, _ => .ok ""
  | none, none => textOf around.input
  | none, some name =>
    if name = "-" then textOf around.input
    else
      match around.files name with
      | .ok bytes => textOf bytes
      | .error fault => .error (.unreadable name fault)

/-- The least number of nested activations that is allowed. -/
def leastDepth : Nat := 1000

/-- How many nested activations are allowed; there is a greatest number that can be set. -/
def depth (vars : Variables) : Except Breakdown Nat :=
  let n := max leastDepth (Settings.depth vars)
  if n < Nat.pow 2 31 then .ok n else .error .depthTooLarge

/-- Evaluates the forms of a program text, all of which is read first, and prints the value of
    each. -/
def showText {m : Type → Type} [Machine m] (depth : Nat) (text : Text) : m Unit := do
  let forms ← Machine.ofExcept (read depth text)
  forms.forM fun form => do
    let result ← Machine.report depth topEnv form
    Machine.emit (.printed result)

/-- What is logged when a run ends in a fault. -/
def faultRecord (fault : Fault) : Text :=
  if fault.kind.isOfLanguage then "DEBUG aaqz: evaluation failed"
  else "DEBUG aaqz: evaluation exceeded the recursion limit"

/-- What a program is reported as that leaves a console behind; `verbose` says that records are
    shown. -/
def conclude (verbose : Bool) (left : EStateM.Result Fault Console Unit) : Report :=
  let shown (records : List Text) := if verbose then records else []
  match left with
  | .ok () c => ⟨c.sink.output, (Text.asLines (shown c.log)).escaped, .ok 0⟩
  | .error fault c =>
    if fault.kind.isOfLanguage || fault.kind = .depth then
      let complaint := shown (c.log ++ [faultRecord fault]) ++ [fault.message]
      ⟨c.sink.output, (Text.asLines complaint).escaped, .ok 1⟩
    else ⟨c.sink.output, (Text.asLines (shown c.log)).escaped, .error (.machinery fault)⟩

/-- Runs the program that the options ask for. -/
def runProgram (o : Options) (around : Surroundings) : Except Breakdown Report := do
  let level ← level o around.vars
  let text ← source o around
  let depth ← depth around.vars
  let shown : Acting Unit := showText depth text
  pure (conclude (level ≤ Settings.debugLevel) (shown (.start ⟨around.refusal?, []⟩)))

/-- Runs the command line. -/
def run (argv : List Text) (around : Surroundings) : Report :=
  match request argv with
  | .error fault => ⟨"", usage ++ "aaqz: error: " ++ fault.message.escaped ++ "\n", .ok 2⟩
  | .ok .help => ⟨helpText, "", .ok 0⟩
  | .ok (.options o) =>
    match runProgram o around with
    | .ok report => report
    | .error breakdown => ⟨"", "", .error breakdown⟩

/-- The file that the program text is to be read from, if it is. -/
def fileWanted (argv : List Text) : Option Text :=
  match request argv with
  | .ok (.options ⟨some name, none, _⟩) => if name = "-" then none else some name
  | _ => none

end MiniLisp.CommandLine

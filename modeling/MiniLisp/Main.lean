/-
  MiniLisp.Main

  The command: collects what `CommandLine.run` depends on, and writes out what
  it reports.
-/
import MiniLisp.CommandLine

namespace MiniLisp.CommandLine

/-- The number of a system error, whose code may come with its sign turned. -/
def errorNumber (code : UInt32) : Nat := min code.toNat (-code).toNat

/-- Reads a file, or says why it cannot be read. -/
def readFile (name : String) : IO (Except FileFault (List UInt8)) := do
  try
    let bytes ← IO.FS.readBinFile name
    return .ok bytes.toList
  catch
    | .noFileOrDirectory _ _ _ => return .error .missing
    | .inappropriateType _ code _ =>
      return .error (if errorNumber code = 20 then .notDirectory else .directory)
    | .invalidArgument _ code _ =>
      return .error (if errorNumber code = 36 then .longName else .nullInName)
    | other => throw other

/-- Reads a stream to its end. -/
partial def readAll (stream : IO.FS.Stream) (done : ByteArray) : IO ByteArray := do
  let bytes ← stream.read 65536
  if bytes.isEmpty then return done else readAll stream (done ++ bytes)

/-- The characters of a text. -/
def characters (s : Text) : String :=
  String.ofList (s.toList.filterMap fun | .char c => some c | .surrogate _ => none)

/-- What the command runs in: the variables, standard input or the file that is asked for, and a
    standard output that takes UTF-8. -/
def surroundings (argv : List Text) : IO Surroundings := do
  let depth ← IO.getEnv "AAQZ_RECURSION_LIMIT"
  let level ← IO.getEnv "AAQZ_LOG_LEVEL"
  let vars : Variables := fun name =>
    if name = "AAQZ_RECURSION_LIMIT" then depth.map Text.ofString
    else if name = "AAQZ_LOG_LEVEL" then level.map Text.ofString
    else none
  match fileWanted argv with
  | some name =>
    let file ← readFile (characters name)
    return ⟨vars, [], fun _ => file, Sink.utf8Refusal?⟩
  | none =>
    let input ← readAll (← IO.getStdin) .empty
    return ⟨vars, input.toList, fun _ => .error .missing, Sink.utf8Refusal?⟩

end MiniLisp.CommandLine

open MiniLisp MiniLisp.CommandLine in
def main (argv : List String) : IO UInt32 := do
  let argv := argv.map Text.ofString
  let report := @run Host.bare argv (← surroundings argv)
  IO.print (characters report.stdout)
  IO.eprint (characters report.stderr)
  match report.ending with
  | .ok code => return code.toUInt32
  | .error breakdown =>
    IO.eprintln (characters breakdown.message)
    return 1

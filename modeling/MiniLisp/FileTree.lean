/-
  MiniLisp.FileTree

  Files and directories, and how a path leads to one of them.

  A path is walked component by component, from the root if it starts with a
  slash and from the working directory if not. Each component, an empty one
  behind the last slash included, is taken from a directory only; so a path that
  passes through a file is refused, even when it turns back at once.
-/
import MiniLisp.Text.Quoted
import MiniLisp.Text.Utf8

namespace MiniLisp

/-- Why a file cannot be read. -/
inductive FileFault where
  /-- The path leads nowhere. -/
  | missing
  /-- The path passes through a file. -/
  | notDirectory
  /-- The path leads to a directory. -/
  | directory
  /-- The path, or a component of it, has too many bytes. -/
  | longName
  /-- The path holds a null character. -/
  | nullInName
  /-- The path holds surrogates. -/
  | unencodable (fault : Text.EncodeFault)
deriving DecidableEq, Repr

/-- The wording of a fault met on the way to `path`. -/
def FileFault.message (path : Text) : FileFault → Text
  | .missing => "[Errno 2] No such file or directory: " ++ Text.quoted path
  | .notDirectory => "[Errno 20] Not a directory: " ++ Text.quoted path
  | .directory => "[Errno 21] Is a directory: " ++ Text.quoted path
  | .longName => "[Errno 36] File name too long: " ++ Text.quoted path
  | .nullInName => "embedded null byte"
  | .unencodable fault => fault.message

/-- The components of a path, of which there is one more than there are slashes. -/
def components : List CodePoint → List (List CodePoint)
  | [] => [[]]
  | c :: cs =>
    match components cs with
    | [] => [[c]]
    | part :: parts => if c = '/' then [] :: part :: parts else (c :: part) :: parts

/-- A place in a tree: the names that lead to it from the root, the last one first. -/
abbrev Place := List Text

/-- What stands at a place. -/
inductive FileEntry where
  | file (bytes : List UInt8)
  | directory
deriving DecidableEq, Repr

/-- The places that hold something, and the one from which paths start. -/
structure FileTree where
  entries : List (Place × FileEntry)
  working : Place

namespace FileTree

/-- Most bytes that a path may have. -/
def maxPathBytes : Nat := 4095

/-- Most bytes that a component of a path may have. -/
def maxNameBytes : Nat := 255

/-- What stands at a place. Above everything that is there stand directories. -/
def entry? (t : FileTree) (p : Place) : Option FileEntry :=
  match t.entries.lookup p with
  | some e => some e
  | none =>
    if (t.working :: t.entries.map Prod.fst).any p.isSuffixOf then some .directory else none

/-- Goes from a place to the one that a component names. The root is above itself. -/
def step (t : FileTree) (p : Place) (name : Text) : Except FileFault Place :=
  match t.entry? p with
  | none => .error .missing
  | some (.file _) => .error .notDirectory
  | some .directory =>
    if name = "" || name = "." then .ok p
    else if name = ".." then .ok p.tail
    else if maxNameBytes < name.utf8Size then .error .longName
    else if (t.entry? (name :: p)).isSome then .ok (name :: p)
    else .error .missing

/-- The place that a path leads to. -/
def resolve (t : FileTree) (path : Text) : Except FileFault Place :=
  let cs := path.toList
  if cs.contains '\x00' then .error .nullInName
  else if let some fault := Text.encodeFault? cs then .error (.unencodable fault)
  else if cs.isEmpty then .error .missing
  else if maxPathBytes < path.utf8Size then .error .longName
  else
    let start := if cs.head? = some (.char '/') then [] else t.working
    ((components cs).map Text.ofList).foldlM t.step start

/-- The bytes of the file that a path leads to. -/
def readBytes (t : FileTree) (path : Text) : Except FileFault (List UInt8) := do
  match t.entry? (← t.resolve path) with
  | some (.file bytes) => .ok bytes
  | some .directory => .error .directory
  | none => .error .missing

/-- A working directory that holds what is listed, each under its path from there. It stands,
    under a name that no path can give, in the directory for temporary files; apart from that,
    the tree has only the device that is always empty. -/
def ofListing (listing : List (Text × FileEntry)) : FileTree :=
  let working : Place := ["", "tmp"]
  let place (path : Text) : Place :=
    (((components path.toList).map Text.ofList).filter fun name : Text =>
      name ≠ "" && name ≠ ".").reverse ++ working
  ⟨(["null", "dev"], .file []) :: listing.map fun (path, e) => (place path, e), working⟩

end FileTree

end MiniLisp

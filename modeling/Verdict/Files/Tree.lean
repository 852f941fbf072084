import Verdict.Files.Path
import Verdict.Table
import Verdict.Text.Line

/-!
# File trees

A tree of files as a value: directories, and files with their bytes, by their place below the root.
The root itself is always a directory, and one directory is the base from which paths start that do
not start at the root. A path may also hold steps to the parent directory; `Tree.find` follows the
steps one by one, so a step into something that is not there fails even if a later step would leave it
again. `Tree.seek` takes such a failure for the answer that nothing is there.
-/

namespace Verdict

/-- What a path can lead to. -/
inductive Entry where
  | directory
  | file (content : ByteArray)

def Entry.isDirectory : Entry → Bool
  | directory => true
  | file _ => false

/-- Why a file cannot be read. -/
inductive FileError where
  /-- Nothing is there. -/
  | missing
  /-- A directory is there. -/
  | isDirectory
  /-- The path goes on behind a file. -/
  | notDirectory
  /-- The content is no text. -/
  | notText
  /-- The path, or a step of it, takes too many bytes. -/
  | tooLong
  /-- The path holds a null character, which ends a path for the file system. -/
  | nullCharacter
deriving DecidableEq, Repr

/-- The message of an error, where it is not left to the file system to describe it. -/
def FileError.message? : FileError → Option String
  | nullCharacter => "embedded null byte"
  | _ => none

/-- The names on the way from the root to a place, without steps upwards. -/
abbrev Location := List String

/-- Directories and files by place. -/
structure Tree where
  /-- The directory that paths start from if they do not start at the root. -/
  base : Location := []
  entries : Table Location Entry := ∅

namespace Tree

/-- What is at a place. -/
def entry? (t : Tree) (l : Location) : Option Entry :=
  if l = [] then some .directory else t.entries.get? l

/-- The same path from the root. -/
def resolve (t : Tree) (p : Path) : Path :=
  p.within { fromRoot := true, steps := t.base }

/-! ## Building -/

/-- Makes the directories on a way, where there are none yet, and says where it leads. -/
def makeWay (t : Tree) (l : Location) : List String → Tree × Location
  | [] => (t, l)
  | step :: rest =>
    if step = Path.up then t.makeWay l.dropLast rest
    else
      let next := l ++ [step]
      -- What is there already keeps its kind.
      let t := if (t.entry? next).isSome then t
        else { t with entries := t.entries.insert next .directory }
      t.makeWay next rest

/-- The tree with a directory and all directories above it. -/
def addDirectory (t : Tree) (p : Path) : Tree :=
  (t.makeWay [] (t.resolve p).steps).1

/-- The tree with a file, and the directories above it. -/
def addFile (t : Tree) (p : Path) (content : ByteArray) : Tree :=
  let (t, l) := t.makeWay [] (t.resolve p).steps.dropLast
  { t with entries := t.entries.insert (l ++ [p.name]) (.file content) }

/-- The tree that holds only the directory that is its base. -/
def ofBase (base : Location) : Tree :=
  { base : Tree }.addDirectory { fromRoot := false, steps := [] }

/-! ## Reading -/

/-- The names in a directory, with what they stand for. -/
def childrenOf (t : Tree) (l : Location) : List (String × Entry) :=
  t.entries.entries.filterMap fun (q, e) =>
    if q.dropLast = l then q.getLast?.map fun name => (name, e) else none

/-- The directories at or below a directory. -/
def directoriesFrom (t : Tree) (l : Location) : List Location :=
  l :: t.entries.entries.filterMap fun (q, e) =>
    if l.isPrefixOf q && q ≠ l && e.isDirectory then some q else none

/-- Follows steps from a directory: the place they lead to, and what is there. The root is its own
parent. -/
def findFrom (t : Tree) (l : Location) : List String → Except FileError (Location × Entry)
  | [] => .ok (l, .directory)
  | step :: rest =>
    if step = Path.up then t.findFrom l.dropLast rest
    else if Path.maxNameSize < step.utf8ByteSize then .error .tooLong
    else
      let next := l ++ [step]
      match t.entry? next, rest with
      | none, _ => .error .missing
      | some .directory, _ => t.findFrom next rest
      | some e, [] => .ok (next, e)
      | some (.file _), _ :: _ => .error .notDirectory

/-- Follows a path: the place it leads to, and what is there. -/
def find (t : Tree) (p : Path) : Except FileError (Location × Entry) :=
  let p := t.resolve p
  if p.steps.any fun s => '\x00' ∈ s.toList then .error .nullCharacter
  else if Path.maxByteSize < p.byteSize then .error .tooLong
  else t.findFrom [] p.steps

/-- Follows a path that may lead to nothing. Only a path that is too long is refused. -/
def seek (t : Tree) (p : Path) : Except FileError (Option (Location × Entry)) :=
  match t.find p with
  | .ok found => .ok (some found)
  | .error .tooLong => .error .tooLong
  | .error _ => .ok none

/-- The text of a file. Its bytes have to be UTF-8, and every kind of line break becomes a line
feed. -/
def readText (t : Tree) (p : Path) : Except FileError String := do
  match ← t.find p with
  | (_, .directory) => throw .isDirectory
  | (_, .file content) =>
    match String.fromUTF8? content with
    | some s => return String.ofList (Text.normalizeNewlines s.toList)
    | none => throw .notText

end Tree

end Verdict

import Verdict.Document.Dependency
import Verdict.Document.Schema
import Verdict.Files.Path
import Verdict.Text.Line
import Verdict.Text.Word

/-!
# Documents from outlines

A document may be written as a plain-text outline. A line such as `import backlog from './backlog.md';`
names another document, and list items hold the rest:

    - [x] Postgres is an open source database     (an assumption that holds)
    - [ ] Postgres works with Node.js             (an assumption that does not)

    - We decided to go for Postgres               (an inference)
      - `1 & 2`                                   (what it depends on)

Reading goes in two steps. Each line is classified on its own (`Line.ofText`): an import, a list item
with its indent, a blank line, or other text. Then the classified lines are gone through in order
(`Outline.Draft.step`). Task items are assumptions at any depth; other items are inferences at the top
level of a list, and below it they may hold the dependencies of the inference above. A line of other
text ends the list, so the next item is at the top level again, and so does an item that is indented
no deeper than the top level.

Assumptions are numbered from one, and an inference takes the next number after everything read
before it.
-/

namespace Verdict.Outline

open Text

/-! ## Lines -/

inductive Content where
  /-- An assumption, and whether its box is ticked. -/
  | task (ticked : Bool) (text : List Char)
  | plain (text : List Char)
deriving DecidableEq, Repr

inductive Line where
  | importOf (name : List Char)
  | item (indent : Nat) (content : Content)
  | blank
  | other
deriving DecidableEq, Repr

/-- The width of an indent: a tab goes on to the next multiple of four, anything else is one wide. -/
def indentWidth (cs : List Char) : Nat :=
  cs.foldl (fun width c => if c = '\t' then (width / 4 + 1) * 4 else width + 1) 0

/-- Drops blanks, of which there has to be one. -/
def dropBlanks? : List Char → Option (List Char)
  | c :: cs => if isBlank c then some (trimStart cs) else none
  | [] => none

/-- Takes a nonempty run of characters off the start: the run and the rest. -/
def takeRun? (p : Char → Bool) (cs : List Char) : Option (List Char × List Char) :=
  match cs.takeWhile p with
  | [] => none
  | run => some (run, cs.dropWhile p)

def dropQuote? : List Char → Option (List Char)
  | c :: cs => if c = '"' ∨ c = '\'' then some cs else none
  | [] => none

def dropText? (text : String) (cs : List Char) : Option (List Char) :=
  text.toList.isPrefixOf? cs

/-- A file name without the extension of outlines, if it has that extension. -/
def dropExtension? (fileName : List Char) : Option (List Char) :=
  ".md".toList.isSuffixOf? fileName

/-- The document that a line imports: the word `import`, any name, the word `from`, and in quotes the
path of a file beside this one. -/
def importName? (line : List Char) : Option (List Char) := do
  let cs ← dropText? "import" (trimStart line)
  let cs ← dropBlanks? cs
  let (_, cs) ← takeRun? (fun c => isWord c || c == '$') cs
  let cs ← dropBlanks? cs
  let cs ← dropText? "from" cs
  let cs ← dropBlanks? cs
  let cs ← dropQuote? cs
  let cs ← dropText? "./" cs
  let (path, cs) ← takeRun? (fun c => isWord c || c == '.' || c == '-') cs
  let name ← dropExtension? path
  let cs := trimStart (← dropQuote? cs)
  -- One semicolon may end the line, and nothing else may stand there.
  let cs := trimStart ((dropText? ";" cs).getD cs)
  if cs = [] ∧ name ≠ [] then some name else none

/-- Reads the box of a task off the text of an item. -/
def Content.ofText (text : List Char) : Content :=
  match text with
  | '[' :: mark :: ']' :: c :: rest =>
    if (mark = ' ' ∨ mark = 'x' ∨ mark = 'X') ∧ isBlank c then .task (mark != ' ') (trim rest)
    else .plain text
  | _ => .plain text

/-- The indent and the text of a list item: a bullet with at least one blank behind it. -/
def item? (line : List Char) : Option (Nat × List Char) :=
  match trimStart line with
  | bullet :: c :: rest =>
    if (bullet = '-' ∨ bullet = '*' ∨ bullet = '+') ∧ isBlank c then
      some (indentWidth (line.takeWhile isBlank), trim rest)
    else none
  | _ => none

def Line.ofText (line : List Char) : Line :=
  match importName? line, item? line with
  | some name, _ => .importOf name
  | none, some (indent, text) => .item indent (.ofText text)
  | none, none => if line.all isBlank then .blank else .other

/-- The text between the first two backticks. -/
def codeSpan? (text : List Char) : Option (List Char) :=
  match text.dropWhile (· != '`') with
  | [] => none
  -- A single backtick opens nothing.
  | _ :: rest => if rest.contains '`' then some (rest.takeWhile (· != '`')) else none

/-! ## Reading -/

/-- What has been read of an outline. The lists are newest first. -/
structure Draft where
  imports : List String := []
  assumptions : List Assumption := []
  inferences : List Inference := []
  /-- The indent of the top level, inside a list. -/
  top : Option Nat := none
  /-- Whether the newest inference may still be given its dependencies. -/
  waiting : Bool := false
deriving DecidableEq, Repr

namespace Draft

def depend (dependsOn : List Id) : List Inference → List Inference
  | [] => []
  | i :: rest => { i with dependsOn } :: rest

/-- Whether an item at this indent lies below the top level. -/
def isNested (d : Draft) (indent : Nat) : Bool :=
  match d.top with
  | some top => top < indent
  | none => false

/-- A task item is the next assumption. -/
def addTask (d : Draft) (ticked : Bool) (text : List Char) : Draft :=
  let id := .number (d.assumptions.length + 1)
  { d with assumptions := { id, value := ticked, text := String.ofList text } :: d.assumptions }

/-- An item at the top level is the next inference. -/
def addInference (d : Draft) (text : List Char) : Draft :=
  let id := .number (d.assumptions.length + d.inferences.length + 1)
  { d with
    inferences := { id, text := String.ofList text } :: d.inferences
    waiting := true }

/-- An item below the top level gives the inference above its dependencies, if it holds some and is
the first to do so. -/
def addNested (d : Draft) (text : List Char) : Except NumeralError Draft :=
  match d.waiting, codeSpan? text with
  | true, some code =>
    (Dependency.read code).map fun dependsOn =>
      { d with inferences := depend dependsOn d.inferences, waiting := false }
  | _, _ => .ok d

def step (d : Draft) : Line → Except NumeralError Draft
  | .importOf name => .ok { d with imports := String.ofList name :: d.imports }
  | .blank => .ok d
  | .other => .ok { d with top := none, waiting := false }
  | .item indent content =>
    -- Whether the item is nested is decided before it may become the new top level.
    let nested := d.isNested indent
    let d := if nested then d else { d with top := some indent, waiting := false }
    match content with
    | .task ticked text => .ok (d.addTask ticked text)
    | .plain text => if nested then d.addNested text else .ok (d.addInference text)

def run (d : Draft) : List Line → Except NumeralError Draft
  | [] => .ok d
  | line :: rest => do
    let d ← d.step line
    d.run rest

def document (d : Draft) (name : String) : Document where
  name
  imports := d.imports.reverse
  assumptions := d.assumptions.reverse
  inferences := d.inferences.reverse

end Draft

/-- The lines of an outline, classified. -/
def linesOf (text : String) : List Line :=
  (lines text.toList).map Line.ofText

/-- The name of the document in a file: the name of the file, without its extension if it has one. -/
def documentName (path : String) : String :=
  let name := (Path.ofString path).name
  match dropExtension? name.toList with
  | some stem => String.ofList stem
  | none => name

end Verdict.Outline

namespace Verdict

/-- Why no document can be read. -/
inductive DocumentError where
  /-- A dependency consists of digits and is no numeral. -/
  | numeral (e : NumeralError)
  /-- The data do not have the form of a document. -/
  | issues (l : List Issue)
deriving DecidableEq, Repr

/-- The document that an outline holds. Its name comes from the path of the file, and must not be
blank; that is looked at last. -/
def Document.ofOutline (text path : String) : Except DocumentError Document := do
  let draft ← (Outline.Draft.run {} (Outline.linesOf text)).mapError .numeral
  let name := Outline.documentName path
  if Text.trim name.toList = [] then throw (.issues [⟨[.name "name"], .blankName⟩])
  return draft.document name

end Verdict

import Verdict.Document.Basic
import Verdict.Document.Data
import Verdict.Double
import Verdict.Text.Blank

/-!
# Documents from plain data

`Document.ofData` reads a document from a record. It does not stop at the first thing that is wrong:
every field and every list item is looked at, and the answer is either the document or all issues, in
the order of the fields, each with the path to the place it concerns.

What is optional may be absent, but not null. Unknown fields do not matter. Two fields have a second
name, which counts only when the first is absent.
-/

namespace Verdict

/-- A step on the way to a part of the data. -/
inductive PathStep where
  /-- Into the field of a record, or to an alternative among types. -/
  | name (s : String)
  /-- Into an item of a list. -/
  | index (n : Nat)
deriving DecidableEq, Repr

/-- What can be wrong with a part of the data. -/
inductive IssueKind where
  /-- It is no record of the named kind. -/
  | notRecord (kind : String)
  | missing
  | notList
  | notText
  /-- A document name without a visible character. -/
  | blankName
  /-- A text or an integer that is no truth value. -/
  | unreadableBool
  /-- Something that cannot even be read as a truth value. -/
  | notBool
  /-- A number with a fractional part where an integer is asked for. -/
  | fractional
  /-- A whole number in double precision that is too large for a machine word. -/
  | tooLarge
  /-- A number that is too large for double precision. -/
  | infinite
  | notInteger
deriving DecidableEq, Repr

namespace IssueKind

/-- The code of an issue, for machines. -/
def code : IssueKind → String
  | notRecord _ => "model_type"
  | missing => "missing"
  | notList => "list_type"
  | notText => "string_type"
  | blankName => "value_error"
  | unreadableBool => "bool_parsing"
  | notBool => "bool_type"
  | fractional => "int_from_float"
  | tooLarge => "int_parsing_size"
  | infinite => "finite_number"
  | notInteger => "int_type"

/-- The text of an issue, for people. -/
def message : IssueKind → String
  | notRecord kind => s!"Input should be a valid dictionary or instance of {kind}"
  | missing => "Field required"
  | notList => "Input should be a valid list"
  | notText => "Input should be a valid string"
  | blankName => "Value error, Document name must not be empty"
  | unreadableBool => "Input should be a valid boolean, unable to interpret input"
  | notBool => "Input should be a valid boolean"
  | fractional => "Input should be a valid integer, got a number with a fractional part"
  | tooLarge => "Unable to parse input string as an integer, exceeded maximum size"
  | infinite => "Input should be a finite number"
  | notInteger => "Input should be a valid integer"

end IssueKind

/-- Something that is wrong, and where. -/
structure Issue where
  path : List PathStep
  kind : IssueKind
deriving DecidableEq, Repr

/-- A value, or all issues that stand against it. -/
abbrev Checked (β : Type) := Except (List Issue) β

namespace Checked

variable {β γ : Type}

/-- Two values, or the issues of both. -/
def both : Checked β → Checked γ → Checked (β × γ)
  | .ok b, .ok c => .ok (b, c)
  | .ok _, .error l => .error l
  | .error l, .ok _ => .error l
  | .error l, .error m => .error (l ++ m)

/-- All values of a list, or the issues of all. -/
def all : List (Checked β) → Checked (List β)
  | [] => .ok []
  | c :: rest => (both c (all rest)).map fun (b, bs) => b :: bs

def issue (path : List PathStep) (kind : IssueKind) : Checked β :=
  .error [{ path, kind }]

end Checked

namespace Data

open Checked

/-- How values of a type are read at a place. -/
abbrev Reader (β : Type) := List PathStep → Data → Checked β

variable {β : Type}

def readText : Reader String
  | _, text s => .ok s
  | path, _ => issue path .notText

/-- Reads a document name, which must not be blank. -/
def readName : Reader String
  | path, text s => if Text.trim s.toList = [] then issue path .blankName else .ok s
  | path, _ => issue path .notText

/-- The words for the two truth values. -/
def boolWords : List (String × Bool) :=
  [("0", false), ("off", false), ("f", false), ("false", false), ("n", false), ("no", false),
   ("1", true), ("on", true), ("t", true), ("true", true), ("y", true), ("yes", true)]

/-- Whether an integer fits into a machine word with a sign. -/
def fitsWord (n : Int) : Bool :=
  Int64.minValue.toInt ≤ n && n ≤ Int64.maxValue.toInt

/-- The integer that a decimal stands for. It has to be strictly between the ends of a machine word:
the upper end is no number in double precision, and the lower end is left out with it. -/
def wholeOfDecimal (mantissa : Int) (places : Nat) : Except IssueKind Int :=
  match Double.ofDecimal mantissa places with
  | none => .error .infinite
  | some x =>
    match x.whole? with
    | none => .error .fractional
    | some n =>
      if fitsWord n && n ≠ Int64.minValue.toInt then .ok n else .error .tooLarge

/-- The truth value of zero and one. -/
def boolOfWhole (path : List PathStep) (n : Int) : Checked Bool :=
  if n = 0 then .ok false
  else if n = 1 then .ok true
  else issue path .unreadableBool

/-- Reads a truth value: also from the numbers zero and one, however they are written, and from the
usual words in small or capital letters. -/
def readBool : Reader Bool
  | _, bool b => .ok b
  | path, text s =>
    match boolWords.lookup s.toLower with
    | some b => .ok b
    | none => issue path .unreadableBool
  -- A number too large for a machine word, or with a fractional part, is not even looked at.
  | path, integer n => if fitsWord n then boolOfWhole path n else issue path .notBool
  | path, decimal mantissa places =>
    match wholeOfDecimal mantissa places with
    | .ok n => boolOfWhole path n
    | .error _ => issue path .notBool
  | path, _ => issue path .notBool

/-- Reads an id: a text as it stands, a number or a truth value as an integer. What is neither is
reported twice, once for each kind of id. -/
def readId : Reader Id
  | _, text s => .ok (.text s)
  | _, bool b => .ok (.number (if b then 1 else 0))
  | _, integer n => .ok (.number n)
  | path, decimal mantissa places =>
    match wholeOfDecimal mantissa places with
    | .ok n => .ok (.number n)
    | .error kind => neither path kind
  | path, _ => neither path .notInteger
where
  neither (path : List PathStep) (kind : IssueKind) : Checked Id :=
    .error [⟨path ++ [.name "int"], kind⟩, ⟨path ++ [.name "str"], .notText⟩]

def readList (read : Reader β) : Reader (List β)
  | path, list items => all (items.zipIdx.map fun (d, n) => read (path ++ [.index n]) d)
  | path, _ => issue path .notList

/-- Reads a field that must be there. -/
def required (fields : List (String × Data)) (path : List PathStep) (name : String)
    (read : Reader β) : Checked β :=
  match field? fields name with
  | some d => read (path ++ [.name name]) d
  | none => issue (path ++ [.name name]) .missing

/-- Reads a field that may be absent, under the first of its names that is there. -/
def optional (fields : List (String × Data)) (path : List PathStep) (names : List String)
    (default : β) (read : Reader β) : Checked β :=
  -- The first name that is there hides the others: what stands under those is not looked at.
  match names.findSome? fun name => (field? fields name).map (name, ·) with
  | some (name, d) => read (path ++ [.name name]) d
  | none => .ok default

def readAssumption : Reader Assumption
  | path, record fields =>
    let id := required fields path "id" readId
    let value := required fields path "value" readBool
    let text := optional fields path ["text"] "" readText
    (id.both (value.both text)).map fun (id, value, text) => { id, value, text }
  | path, _ => issue path (.notRecord "Assumption")

def readInference : Reader Inference
  | path, record fields =>
    let id := required fields path "id" readId
    let text := optional fields path ["text"] "" readText
    let dependsOn := optional fields path ["dependsOn", "depends_on"] [] (readList readId)
    (id.both (text.both dependsOn)).map fun (id, text, dependsOn) => { id, text, dependsOn }
  | path, _ => issue path (.notRecord "Inference")

def readDocument : Reader Document
  | path, record fields =>
    let name := required fields path "name" readName
    let imports := optional fields path ["import", "imports"] [] (readList readText)
    let assumptions := optional fields path ["assumptions"] [] (readList readAssumption)
    let inferences := optional fields path ["infer"] [] (readList readInference)
    (name.both (imports.both (assumptions.both inferences))).map
      fun (name, imports, assumptions, inferences) => { name, imports, assumptions, inferences }
  | path, _ => issue path (.notRecord "Document")

end Data

/-- The document that the data hold, or everything that is wrong with them. -/
def Document.ofData (d : Data) : Checked Document :=
  Data.readDocument [] d

end Verdict

import Verdict.Document.Basic
import Verdict.Notice
import Verdict.Program.Basic

/-!
# The program that checks documents

A list of documents becomes one program of fixed shape. Its relations hold what the documents say:

* `doc(Doc)`, `assumption(Doc, Id, Value)`, `inference(Doc, Id)`,
* `inference_dependsOn(Doc, Id, Dependency)`, one fact for each dependency,
* `equal(A, B)` on the three outcomes.

Its predicates are always the same. `inference_check(Doc, Id, Value)` holds for each truth value that
an inference reaches through its dependencies, `doc_check(Doc, Value)` for each that occurs among the
assumptions of a document. `inference_check_mixed(Doc, Id)` holds when an inference reaches both, and
`inference_check_stratified(Doc, Id, Value)` gives each inference its outcome. The rules for the two
pure outcomes deny `inference_check_mixed`, and a predicate without facts resolves to nothing: as long
as no inference at all is mixed, they derive nothing.

`Document.notices` finds what the documents refer to and no document has.
-/

namespace Verdict

namespace Check

variable {α : Type}

/-- The word for the outcome of an inference that reaches both truth values. -/
def mixedWord : String := "partial"

def clause (relation : String) (terms : List (Term α)) : Clause α := { relation, terms }

def denial (relation : String) (terms : List (Term α)) : Clause α :=
  { relation, terms, negated := true }

def doc : Term α := .var "Doc"

def id : Term α := .var "Id"

def dependency : Term α := .var "DependOnId"

def value : Term α := .var "Value"

/-- The clauses that pick a dependency of an inference. -/
def picked : Rule α :=
  [clause "doc" [doc], clause "inference" [doc, id],
   clause "inference_dependsOn" [doc, id, dependency]]

/-- The truth values that an inference reaches: through an assumption or an inference of the same
document, or through a whole document. -/
def inferenceCheck : Predicate α where
  args := ["Doc", "Id", "Value"]
  rules :=
    [picked ++ [clause "assumption" [doc, dependency, value]],
     picked ++ [clause "inference" [doc, dependency],
       clause "inference_check" [doc, dependency, value]],
     picked ++ [clause "doc" [dependency], clause "doc_check" [dependency, value]]]

def docCheck : Predicate α where
  args := ["Doc", "Value"]
  rules := [[clause "doc" [doc], clause "assumption" [doc, .var "Assumption", value]]]

/-- The inferences that reach both truth values. -/
def mixed : Predicate α where
  args := ["Doc", "Id"]
  rules :=
    [[clause "inference_check" [doc, id, .truth true],
      clause "inference_check" [doc, id, .truth false]]]

/-- A rule for one of the two pure outcomes. -/
def pureRule (outcome : Bool) : Rule α :=
  [clause "inference_check" [doc, id, .truth outcome],
   denial "inference_check_mixed" [doc, id],
   clause "equal" [value, .truth outcome]]

def stratified : Predicate α where
  args := ["Doc", "Id", "Value"]
  rules :=
    [pureRule true, pureRule false,
     [clause "inference_check_mixed" [doc, id], clause "equal" [value, .text mixedWord]]]

section Facts

variable (docs : List Document)

def docFacts : List (Fact α) :=
  docs.map fun d => [.text d.name]

def assumptionFacts : List (Fact α) :=
  docs.flatMap fun d => d.assumptions.map fun a => [.text d.name, .text a.id.key, .truth a.value]

def inferenceFacts : List (Fact α) :=
  docs.flatMap fun d => d.inferences.map fun i => [.text d.name, .text i.id.key]

def dependencyFacts : List (Fact α) :=
  docs.flatMap fun d => d.inferences.flatMap fun i =>
    i.dependsOn.map fun dep => [.text d.name, .text i.id.key, .text dep.key]

end Facts

/-- Each outcome equals itself. -/
def equalFacts : List (Fact α) :=
  [[.truth true, .truth true], [.truth false, .truth false], [.text mixedWord, .text mixedWord]]

variable [DecidableEq α]

/-- The nodes of the checking program, in the order in which they are evaluated and printed. -/
def nodes (docs : List Document) : List (String × Node α) :=
  [("doc", .relation (.ofRows (docFacts docs))),
   ("assumption", .relation (.ofRows (assumptionFacts docs))),
   ("inference", .relation (.ofRows (inferenceFacts docs))),
   ("inference_dependsOn", .relation (.ofRows (dependencyFacts docs))),
   ("inference_check", .predicate inferenceCheck),
   ("doc_check", .predicate docCheck),
   ("inference_check_mixed", .predicate mixed),
   ("equal", .relation (.ofRows equalFacts)),
   ("inference_check_stratified", .predicate stratified)]

end Check

/-- The program that checks the documents, with nothing computed yet. -/
def Program.ofDocuments {α : Type} [DecidableEq α] (docs : List Document) : Program α where
  nodes := .ofList (Check.nodes docs)

namespace Document

/-- The dependencies of a document that nothing is known about, among documents of the given names. -/
def dependencyNotices (names : List String) (d : Document) : List Notice :=
  let known := d.localKeys
  d.inferences.flatMap fun i =>
    (i.dependsOn.filter fun dep => dep.key ∉ known ∧ dep.key ∉ names).map fun dep =>
      .unknownDependency i.id.key d.name dep.key

/-- The imports of a document that nothing is known about. -/
def importNotices (names : List String) (d : Document) : List Notice :=
  (d.imports.filter (· ∉ names)).map (.unknownImport d.name)

/-- What the documents refer to and no document has, document by document. -/
def notices (docs : List Document) : List Notice :=
  let names := docs.map (·.name)
  docs.flatMap fun d => d.dependencyNotices names ++ d.importNotices names

end Document

end Verdict

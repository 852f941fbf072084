import Verdict.Batch

/-!
# Sessions

A session holds a program and an evaluator, and works on them command by command. A command that fails
leaves the session as it was.
-/

namespace Verdict

/-- Where a document comes from. -/
inductive DocumentSource where
  /-- An outline, with the path of its file. -/
  | outline (text path : String)
  | data (d : Data)

/-- Reads a document. -/
def DocumentSource.read : DocumentSource → Except DocumentError Document
  | outline text path => Document.ofOutline text path
  | data d => (Document.ofData d).mapError .issues

/-- Reads documents, in order. -/
def DocumentSource.readAll (l : List DocumentSource) : Except DocumentError (List Document) :=
  l.mapM read

/-- What a session can be asked to do. -/
inductive Command (α : Type := Empty) where
  /-- Take the program of a text. -/
  | parse (source : String)
  /-- Take the program of the given parts. -/
  | assemble (nodes computed : List (String × Candidate α))
  /-- Take the checking program of documents. -/
  | compile (docs : List DocumentSource)
  /-- Declare the nodes of a text as well. -/
  | extend (source : String)
  /-- Keep the named nodes, in this order. -/
  | reorder (names : List String)
  /-- Replace the store. -/
  | seed (computed : List (String × Candidate α))
  /-- Take a new evaluator. -/
  | setCap (cap : Int)
  | validate
  | evaluate
  /-- Show the rounds of an evaluation, at most so many. -/
  | rounds (take : Option Nat)
  /-- Show how many rounds the last evaluation took. -/
  | roundsRun
  /-- Look a name up, in the given store or in the program's. -/
  | resolve (name : String) (store : Option (List (String × Relation α)))
  | names
  /-- Print the program. -/
  | print (includeComputed : Bool)
  /-- Print the program and take what the text says. -/
  | reparse (includeComputed : Bool)
  | statuses

/-- What a session answers. -/
inductive Reply (α : Type := Empty) where
  | program (p : Program α)
  | nodeNames (names : List String)
  | computed (s : Store α)
  | cap (c : Cap)
  | valid
  | evaluated (s : Store α) (rounds : Nat)
  | rounds (snapshots : List (Store α)) (ending : Option (Ending α)) (cap : Cap) (roundsRun : Nat)
  | roundsRun (n : Nat)
  | relation (r : Option (Relation α))
  | names (predicates relations : List String)
  | text (s : String)
  | statuses (s : Statuses)

/-- A program and an evaluator to work with. -/
structure Session (α : Type := Empty) where
  program : Program α := {}
  evaluator : Evaluator := {}

namespace Session

variable {α : Type} [DecidableEq α] [Foreign α]

/-- Takes a program, and shows it. -/
def take (s : Session α) (p : Program α) : Reply α × Session α :=
  (.program p, { s with program := p })

/-- Takes a program, and shows what it declares. -/
def takeNodes (s : Session α) (p : Program α) : Reply α × Session α :=
  (.nodeNames p.nodes.keys, { s with program := p })

/-- Obeys a command: the answer and the new state, or an error. -/
def obey (s : Session α) : Command α → Outcome (Error α) (Reply α × Session α)
  | .parse source => do
    let p ← .ofExcept ((Program.parse source).mapError .source)
    return s.take p
  | .assemble nodes computed => do
    let p ← .ofExcept ((Program.ofCandidates nodes computed).mapError .candidate)
    return s.take p
  | .compile sources => do
    let docs ← .ofExcept ((DocumentSource.readAll sources).mapError .document)
    .note (Document.notices docs)
    return s.takeNodes (.ofDocuments docs)
  | .extend source => do
    let q ← .ofExcept ((Program.parse source).mapError .source)
    return s.take (s.program.extend q)
  | .reorder names => do
    let p ← .ofExcept ((s.program.reorder names).mapError .undeclared)
    return s.takeNodes p
  | .seed computed => do
    let store ← .ofExcept ((Store.ofCandidates computed).mapError .candidate)
    return (.computed store, { s with program := s.program.withComputed store })
  | .setCap n => do
    let cap ← .ofExcept ((Cap.ofInt n).mapError .cap)
    return (.cap cap, { s with evaluator := { cap } })
  | .validate => do
    .ofExcept (s.program.validate.mapError .defect)
    return (.valid, s)
  | .evaluate => do
    let (p, evaluator) ← s.evaluator.evaluateNoting s.program
    return (.evaluated p.computed evaluator.roundsRun, { program := p, evaluator })
  | .rounds take => do
    let cap := s.evaluator.cap
    let (snapshots, ending) := s.program.rounds cap take
    .note ((ending.map (Ending.notices cap)).getD [])
    return (.rounds snapshots ending cap s.evaluator.roundsRun, s)
  | .roundsRun => return (.roundsRun s.evaluator.roundsRun, s)
  | .resolve name store =>
    return (.relation (s.program.resolve? ((store.map Table.ofList).getD s.program.computed) name), s)
  | .names =>
    return (.names (s.program.predicates.map Prod.fst) (s.program.relations.map Prod.fst), s)
  | .print includeComputed => do
    let text ← .ofExcept ((s.program.print includeComputed).mapError .print)
    return (.text text, s)
  | .reparse includeComputed => do
    let text ← .ofExcept ((s.program.print includeComputed).mapError .print)
    let p ← .ofExcept ((Program.parse text).mapError .source)
    return s.take p
  | .statuses => do
    let statuses ← .ofExcept (s.program.statuses.mapError .status)
    return (.statuses statuses, s)

/-- Obeys commands one after another. Each has an outcome of its own. -/
def obeyAll (s : Session α) : List (Command α) → List (Outcome (Error α) (Reply α))
  | [] => []
  | c :: rest =>
    let o := s.obey c
    match o.result with
    | .ok (reply, next) => { o with result := .ok reply } :: next.obeyAll rest
    | .error e => { o with result := .error e } :: s.obeyAll rest

end Session

end Verdict

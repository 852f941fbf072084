import Verdict.Document.Check
import Verdict.Text.Quoted

/-!
# Statuses

The outcome of each inference, read off an evaluated program. An inference is known by the plain text
of its document's name and its own id. Where the computed facts give an inference several outcomes,
they are merged: outcomes that agree stay, any disagreement makes the inference mixed.
-/

namespace Verdict

inductive Status where
  /-- Everything it depends on holds. -/
  | holds
  /-- Nothing it depends on holds. -/
  | fails
  /-- Some of what it depends on holds and some does not. -/
  | mixed
deriving DecidableEq, Repr

namespace Status

def word : Status → String
  | holds => Term.truthWord true
  | fails => Term.truthWord false
  | mixed => Check.mixedWord

/-- The outcome that a truth value stands for. -/
def ofBool (value : Bool) : Status :=
  if value then holds else fails

/-- The outcome that a word stands for. -/
def ofWord? (s : String) : Option Status :=
  [holds, fails, mixed].find? fun st => st.word = s

/-- Two outcomes for one inference. -/
def merge (s t : Status) : Status :=
  if s = t then s else mixed

end Status

/-- Why the computed facts are no outcomes. -/
inductive StatusError where
  /-- A fact with fewer than three terms. -/
  | tooShort (terms : Nat)
  /-- A fact with more than three terms. -/
  | tooLong
  /-- A value that is the word of no outcome. -/
  | notStatus (value : String)
deriving DecidableEq, Repr

def StatusError.message : StatusError → String
  | tooShort terms => s!"not enough values to unpack (expected 3, got {terms})"
  | tooLong => "too many values to unpack (expected 3)"
  | notStatus value => Text.quote value ++ " is not a valid InferenceStatus"

variable {α : Type} [Foreign α]

/-- The outcomes of inferences, by document and id, in the order in which they were found. -/
abbrev Statuses := Table (String × String) Status

namespace Status

/-- The outcome that a term stands for. -/
def ofTerm (t : Term α) : Except StatusError Status :=
  match t with
  | .truth value => .ok (ofBool value)
  | t =>
    match ofWord? t.plain with
    | some s => .ok s
    | none => .error (.notStatus t.plain)

def add (statuses : Statuses) (f : Fact α) : Except StatusError Statuses :=
  match f with
  | [doc, id, value] => do
    let s ← ofTerm value
    -- Terms of different kinds that are written alike name the same inference.
    let key := (doc.plain, id.plain)
    return statuses.insert key (((statuses.get? key).map (merge · s)).getD s)
  | _ => .error (if f.length < 3 then .tooShort f.length else .tooLong)

def ofFacts (statuses : Statuses) : List (Fact α) → Except StatusError Statuses
  | [] => .ok statuses
  | f :: rest => do
    let statuses ← add statuses f
    ofFacts statuses rest

end Status

/-- The outcomes that an evaluated program holds; none before the last predicate has derived one. -/
def Program.statuses (p : Program α) : Except StatusError Statuses :=
  match p.computed.get? "inference_check_stratified" with
  | some r => Status.ofFacts ∅ r.facts
  | none => .ok ∅

end Verdict

import Verdict.Syntax.Printer

/-!
# Programs that can be written down

What a program has to be like for its written form to be a program text (`Program.Printable`): names
and variables are words of the right kind, every node says something, facts are ground rows of one
length, and nothing in it is foreign. Text constants may hold any characters.
-/

namespace Verdict

open Lexeme

/-- A word that starts small, and no keyword. -/
def IsIdentifier (s : String) : Prop :=
  (∃ c word, s.toList = c :: word ∧ isSmall c = true ∧ ∀ d ∈ word, inWord d = true) ∧
    s ≠ "not" ∧ s ≠ "true" ∧ s ≠ "false"

/-- A word that starts with a capital letter. -/
def IsVariable (s : String) : Prop :=
  ∃ c word, s.toList = c :: word ∧ isCapital c = true ∧ ∀ d ∈ word, inWord d = true

theorem wordKind_eq_identifier_iff {s : String} :
    wordKind s.toList = .identifier ↔ s ≠ "not" ∧ s ≠ "true" ∧ s ≠ "false" := by
  have hnot : s = "not" ↔ s.toList = ['n', 'o', 't'] := by rw [← String.toList_inj]; rfl
  have htrue : s = "true" ↔ s.toList = ['t', 'r', 'u', 'e'] := by rw [← String.toList_inj]; rfl
  have hfalse : s = "false" ↔ s.toList = ['f', 'a', 'l', 's', 'e'] := by
    rw [← String.toList_inj]; rfl
  unfold wordKind
  rw [ne_eq, ne_eq, ne_eq, hnot, htrue, hfalse]
  split
  · next h => simp [h]
  · next h₁ =>
    split
    · next h => simp [h]
    · next h₂ =>
      split
      · next h => simp [h]
      · next h₃ => simp [h₁, h₂, h₃]

/-- Identifiers are the texts that are written bare. -/
theorem isIdentifier_iff {s : String} : IsIdentifier s ↔ Term.isBare s.toList = true := by
  unfold IsIdentifier
  rw [← wordKind_eq_identifier_iff]
  cases s.toList with
  | nil =>
    constructor
    · intro h
      obtain ⟨⟨c, word, e, _⟩, _⟩ := h
      cases e
    · intro h
      cases h
  | cons c word =>
    simp only [Term.isBare, Bool.and_eq_true, List.all_eq_true, decide_eq_true_eq]
    constructor
    · intro h
      obtain ⟨⟨c', word', e, hc, hw⟩, hk⟩ := h
      cases e
      exact ⟨⟨hc, hw⟩, hk⟩
    · intro h
      obtain ⟨⟨hc, hw⟩, hk⟩ := h
      exact ⟨⟨c, word, rfl, hc, hw⟩, hk⟩

instance (s : String) : Decidable (IsIdentifier s) := decidable_of_iff _ isIdentifier_iff.symm

theorem isVariable_iff {s : String} :
    IsVariable s ↔ s.toList.head?.any isCapital = true ∧ s.toList.all inWord = true := by
  unfold IsVariable
  cases s.toList with
  | nil =>
    constructor
    · intro h
      obtain ⟨c, word, e, _⟩ := h
      cases e
    · intro h
      obtain ⟨h, _⟩ := h
      cases h
  | cons c word =>
    have hword : isCapital c = true → inWord c = true := by
      intro h
      simp only [inWord, h, Bool.or_true, Bool.true_or]
    simp only [List.head?_cons, Option.any_some, List.all_eq_true, List.forall_mem_cons]
    constructor
    · intro h
      obtain ⟨c', word', e, hc, hw⟩ := h
      cases e
      exact ⟨hc, hword hc, hw⟩
    · intro h
      obtain ⟨hc, _, hw⟩ := h
      exact ⟨c, word, rfl, hc, hw⟩

instance (s : String) : Decidable (IsVariable s) := decidable_of_iff _ isVariable_iff.symm

variable {α : Type}

/-- A variable has a proper name, and nothing is foreign. -/
def Term.Printable : Term α → Prop
  | .var x => IsVariable x
  | .text _ | .truth _ => True
  | .foreign _ => False

structure Clause.Printable (c : Clause α) : Prop where
  relation : IsIdentifier c.relation
  terms : ∀ t ∈ c.terms, t.Printable

/-- The rule has a clause, and its clauses can be written. -/
def Rule.Printable (rule : Rule α) : Prop :=
  rule ≠ [] ∧ ∀ c ∈ rule, c.Printable

def Node.Printable : Node α → Prop
  | .relation r =>
    r.facts ≠ [] ∧ (∀ f ∈ r.facts, Term.Ground f ∧ ∀ t ∈ f, t.Printable) ∧
      ∀ f ∈ r.facts, ∀ g ∈ r.facts, f.length = g.length
  | .predicate p =>
    (∀ x ∈ p.args, IsVariable x) ∧ p.rules ≠ [] ∧ ∀ rule ∈ p.rules, rule.Printable

/-- Each node has a proper name and can be written. -/
def Program.Printable (p : Program α) : Prop :=
  ∀ e ∈ p.nodes.entries, IsIdentifier e.1 ∧ e.2.Printable

section Decidable

instance : DecidablePred (Term.Printable (α := α)) := fun t =>
  match t with
  | .var x => inferInstanceAs (Decidable (IsVariable x))
  | .text _ | .truth _ => .isTrue trivial
  | .foreign _ => .isFalse id

instance (c : Clause α) : Decidable c.Printable :=
  decidable_of_iff (IsIdentifier c.relation ∧ ∀ t ∈ c.terms, t.Printable)
    ⟨fun h => ⟨h.1, h.2⟩, fun h => ⟨h.1, h.2⟩⟩

instance (rule : Rule α) : Decidable rule.Printable :=
  inferInstanceAs (Decidable (rule ≠ [] ∧ ∀ c ∈ rule, c.Printable))

instance : DecidablePred (Node.Printable (α := α)) := fun node =>
  match node with
  | .relation r =>
    inferInstanceAs (Decidable (r.facts ≠ [] ∧ (∀ f ∈ r.facts, Term.Ground f ∧ ∀ t ∈ f, t.Printable) ∧
      ∀ f ∈ r.facts, ∀ g ∈ r.facts, f.length = g.length))
  | .predicate p =>
    inferInstanceAs (Decidable ((∀ x ∈ p.args, IsVariable x) ∧ p.rules ≠ [] ∧
      ∀ rule ∈ p.rules, rule.Printable))

instance (p : Program α) : Decidable p.Printable :=
  inferInstanceAs (Decidable (∀ e ∈ p.nodes.entries, IsIdentifier e.1 ∧ e.2.Printable))

end Decidable

end Verdict

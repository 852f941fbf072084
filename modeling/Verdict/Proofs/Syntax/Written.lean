import Mathlib.Data.List.Basic
import Verdict.Proofs.Evaluation.Fixpoint
import Verdict.Proofs.Syntax.RoundTrip

/-!
# What is left of a program in its text

A node without facts or rules has no statement, so nothing is written of it, and what is read back lacks
it: a text stands for the program without such nodes (`Program.print_parse_written`).

For evaluation this makes no difference, unless an empty relation is denied
(`Program.evaluate_written`): a positive clause finds nothing, whether its name stands for no facts or for
nothing at all. For the check before evaluation it does, since there a clause has to name a node.
-/

namespace Verdict

variable {α : Type}

/-- The node has no statement. -/
def Node.isSilent : Node α → Bool
  | .relation r => r.facts.isEmpty
  | .predicate p => p.rules.isEmpty

namespace Program

/-- The program without the nodes that have no statement. -/
def written (p : Program α) : Program α :=
  { p with nodes := p.nodes.filter fun node => !node.isSilent }

variable {p : Program α}

theorem get?_written (p : Program α) (name : String) :
    p.written.nodes.get? name = (p.nodes.get? name).filter fun node => !node.isSilent :=
  Table.get?_filter _ _ _

theorem written_eq_self (h : ∀ e ∈ p.nodes.entries, e.2.isSilent = false) : p.written = p := by
  have hentries : p.nodes.entries.filter (fun e => !e.2.isSilent) = p.nodes.entries :=
    List.filter_eq_self.2 fun e he => by simp [h e he]
  have hnodes : p.written.nodes = p.nodes := Table.ext hentries
  show { p with nodes := p.written.nodes } = p
  rw [hnodes]

/-! ## Its text -/

section Text

variable [Foreign α]

theorem render_eq_nil_iff {name : String} {node : Node α} :
    node.render name = [] ↔ node.isSilent = true := by
  cases node with
  | relation r => simp [Node.render, Node.isSilent]
  | predicate q => simp [Node.render, Node.isSilent]

theorem render_written (p : Program α) : p.written.render false = p.render false := by
  have kept : p.written.sections.filter (fun lines : List String => ! lines.isEmpty) =
      p.sections.filter fun lines => ! lines.isEmpty := by
    rw [sections, sections, List.filter_map, List.filter_map]
    refine congrArg _ ?_
    rw [show p.written.nodes.entries = p.nodes.entries.filter fun e => !e.2.isSilent from rfl,
      List.filter_filter]
    refine List.filter_congr fun e _ => ?_
    cases hs : e.2.isSilent with
    | true => simp [render_eq_nil_iff.2 hs]
    | false => simp
  show "\n\n".intercalate ((p.written.sections.filter (fun lines : List String => ! lines.isEmpty) ++
    []).map ("\n".intercalate ·)) ++ "\n" = _
  rw [kept]
  rfl

omit [Foreign α] in
theorem terms_written (p : Program α) : p.written.terms false = p.terms false := by
  have silent (node : Node α) (h : node.isSilent = true) : node.terms = [] := by
    cases node with
    | relation r =>
      rw [Node.isSilent, List.isEmpty_iff] at h
      rw [Node.terms, h, List.flatten_nil]
    | predicate q =>
      rw [Node.isSilent, List.isEmpty_iff] at h
      rw [Node.terms, h, List.flatMap_nil]
  have kept (l : List (String × Node α)) :
      ((l.filter fun e => !e.2.isSilent).map Prod.snd).flatMap Node.terms =
        (l.map Prod.snd).flatMap Node.terms := by
    induction l with
    | nil => rfl
    | cons e l ih =>
      cases hs : e.2.isSilent with
      | true => simp [hs, ih, silent e.2 hs]
      | false => simp [hs, ih]
  exact congrArg (· ++ _) (kept p.nodes.entries)

theorem print_written (p : Program α) : p.written.print false = p.print false := by
  rw [print, print, render_written, terms_written]

/-- **A program is printed as the text of its nodes that have a statement.** -/
theorem print_parse_written [DecidableEq α] (h : p.written.Printable) :
    ∃ text, p.print false = .ok text ∧ parse text = .ok { nodes := p.written.nodes } :=
  ⟨_, (print_written p).symm.trans (print_eq_render h), parse_render h⟩

end Text

/-! ## Its evaluation -/

/-- No negated clause names an empty relation. -/
def DeniesNoEmpty (p : Program α) : Prop :=
  ∀ e ∈ p.predicates, ∀ rule ∈ e.2.rules, ∀ c ∈ rule, c.negated = true →
    ∀ r, p.nodes.get? c.relation = some (.relation r) → r.facts ≠ []

/-- Each predicate has a rule. -/
def Ruled (p : Program α) : Prop :=
  ∀ e ∈ p.predicates, e.2.rules ≠ []

theorem predicates_written (h : p.Ruled) : p.written.predicates = p.predicates := by
  unfold predicates
  show List.filterMap _ (p.nodes.entries.filter fun e => !e.2.isSilent) = _
  rw [List.filterMap_filter]
  refine List.filterMap_congr fun e he => ?_
  obtain ⟨name, node⟩ := e
  cases node with
  | relation r => simp [Node.predicate?]
  | predicate q =>
    have hq : q.rules ≠ [] := h (name, q) (List.mem_filterMap.2 ⟨_, he, rfl⟩)
    simp [Node.isSilent, hq]

/-- A name is resolved as before, or to nothing where it was resolved to no facts. -/
theorem resolve?_written (p : Program α) (s : Store α) (name : String) :
    p.written.resolve? s name = p.resolve? s name ∨ p.written.resolve? s name = none ∧
      ∃ r, p.resolve? s name = some r ∧ r.facts = [] ∧ p.nodes.get? name = some (.relation r) := by
  cases hs : s.get? name with
  | some r => exact Or.inl (by rw [resolve?_of_entry hs, resolve?_of_entry hs])
  | none =>
    rw [resolve?_of_no_entry hs, resolve?_of_no_entry hs, get?_written]
    cases p.nodes.get? name with
    | none => exact Or.inl rfl
    | some node =>
      cases hsilent : node.isSilent with
      | false => exact Or.inl (by simp [Option.filter, hsilent])
      | true =>
        cases node with
        | relation r => exact Or.inr ⟨by simp [Option.filter, hsilent], r, rfl, List.isEmpty_iff.1 hsilent, rfl⟩
        | predicate q => exact Or.inl (by simp [Option.filter, hsilent, Node.relation?])

variable [DecidableEq α]

theorem join_nil {c : Clause α} (hc : c.negated = false) (bs : List (Binding α)) :
    c.join [] bs = .ok [] := by
  induction bs with
  | nil => rfl
  | cons b bs ih =>
    have hstep : c.step [] b = .ok [] := by
      rw [Clause.step, hc, if_neg Bool.false_ne_true]
      rfl
    rw [Clause.join, hstep, ih]
    rfl

theorem solveFrom_nil (p : Program α) (s : Store α) (rule : Rule α) : p.solveFrom s rule [] = .ok [] := by
  induction rule with
  | nil => rfl
  | cons c rule ih =>
    rw [solveFrom]
    cases p.resolve? s c.relation with
    | none => rfl
    | some r => exact ih

theorem solveFrom_written {s : Store α} {rule : Rule α} (h : ∀ c ∈ rule, c.negated = true →
      ∀ r, p.nodes.get? c.relation = some (.relation r) → r.facts ≠ []) (bs : List (Binding α)) :
    p.written.solveFrom s rule bs = p.solveFrom s rule bs := by
  induction rule generalizing bs with
  | nil => rfl
  | cons c rule ih =>
    obtain ⟨hc, hrule⟩ := List.forall_mem_cons.1 h
    rw [solveFrom, solveFrom]
    rcases p.resolve?_written s c.relation with e | ⟨hnone, r, hr, hfacts, hnode⟩
    · rw [e]
      cases p.resolve? s c.relation with
      | none => rfl
      | some r => exact bind_congr fun bs => ih hrule bs
    · -- No row extends a binding, so there is none left for the clauses behind.
      have hpos : c.negated = false := by
        cases hn : c.negated with
        | false => rfl
        | true => exact absurd hfacts (hc hn r hnode)
      rw [hnone, hr]
      show Except.ok [] = (c.join r.facts bs >>= fun bs => p.solveFrom s rule bs)
      rw [hfacts, join_nil hpos]
      exact (p.solveFrom_nil s rule).symm

theorem run_written (hden : p.DeniesNoEmpty) (hruled : p.Ruled) (n : Nat) (s : Store α) :
    p.written.run n s = p.run n s := by
  have hderive : ∀ e ∈ p.predicates, ∀ s, p.written.derive s e.2 = p.derive s e.2 := by
    intro e he s
    exact derive_of_solve fun rule hr => solveFrom_written (hden e he rule hr) [∅]
  exact run_congr (predicates_written hruled) hderive n s

/-- **If no empty relation is denied, what is not written is not missed by the evaluation.** -/
theorem evaluate_written (hden : p.DeniesNoEmpty) (hruled : p.Ruled) (e : Evaluator) :
    (e.evaluate p.written).2 = (e.evaluate p).2 ∧
      (e.evaluate p.written).1.map Program.computed = (e.evaluate p).1.map Program.computed := by
  have hrun : p.written.run e.cap.rounds p.written.computed = p.run e.cap.rounds p.computed :=
    run_written hden hruled _ _
  simp only [Evaluator.evaluate, hrun]
  cases (p.run e.cap.rounds p.computed).ending.error? e.cap with
  | some err => exact ⟨rfl, rfl⟩
  | none => exact ⟨rfl, rfl⟩

end Program

end Verdict

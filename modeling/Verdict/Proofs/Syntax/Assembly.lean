import Verdict.Proofs.Syntax.Printing
import Verdict.Proofs.Table

/-!
# Programs from their statements

The statements of a printable program declare just this program (`Program.declareAll_statements`).
Facts of one name go into its relation one after another, and rules that are written with one head into
its predicate, since a rule that already has the declared head is aligned by leaving it as it is.
-/

namespace Verdict

variable {α : Type} [DecidableEq α]

theorem Relation.exists_facts_ofRows (first : Fact α) (rest : List (Fact α)) :
    ∃ tail, (Relation.ofRows (first :: rest)).facts = first :: tail :=
  ⟨_, List.eraseDups_cons⟩

/-- The error without the line on which it was found. -/
def AssemblyError.unplaced : AssemblyError → AssemblyError
  | nameConflict name _ => .nameConflict name 0
  | factArity name arity earlier _ => .factArity name arity earlier 0
  | alignment name e => .alignment name e

namespace Program

/-! ## One statement -/

theorem declare_fact_eq_ok_iff {nodes nodes' : Table String (Node α)} {name : String}
    {terms : Fact α} {line : Nat} :
    declare nodes (.fact name terms line) = .ok nodes' ↔
      (nodes.get? name = none ∧ nodes' = nodes.insert name (.relation (.ofRows [terms]))) ∨
      (∃ r, nodes.get? name = some (.relation r) ∧ r.facts = [] ∧
        nodes' = nodes.insert name (.relation (.ofRows [terms]))) ∨
      ∃ r first rest, nodes.get? name = some (.relation r) ∧ r.facts = first :: rest ∧
        terms.length = first.length ∧ nodes' = nodes.insert name (.relation (r.insert terms)) := by
  unfold declare
  dsimp only
  cases hn : nodes.get? name with
  | none => simp [eq_comm]
  | some node =>
    cases node with
    | predicate p => simp
    | relation r =>
      cases hr : r.facts with
      | nil => simp [hr, eq_comm]
      | cons first rest =>
        by_cases hl : terms.length = first.length
        · simp [hr, hl, eq_comm]
        · simp [hr, hl]

theorem declare_rule_eq_ok_iff {nodes nodes' : Table String (Node α)} {name : String}
    {args : List String} {body : Rule α} {line : Nat} :
    declare nodes (.rule name args body line) = .ok nodes' ↔
      (nodes.get? name = none ∧
        nodes' = nodes.insert name (.predicate { args, rules := [body] })) ∨
      ∃ p aligned, nodes.get? name = some (.predicate p) ∧
        Rule.align p.args args body = .ok aligned ∧
        nodes' = nodes.insert name (.predicate { p with rules := p.rules ++ [aligned] }) := by
  unfold declare
  dsimp only
  cases hn : nodes.get? name with
  | none => simp [eq_comm]
  | some node =>
    cases node with
    | relation r => simp
    | predicate p =>
      cases ha : Rule.align p.args args body with
      | error e => simp [ha]
      | ok aligned => simp [ha, eq_comm]

/-- The line of a statement only goes into its error. -/
theorem declare_unplaced (nodes : Table String (Node α)) (s : Statement α) :
    declare nodes s.unplaced = (declare nodes s).mapError AssemblyError.unplaced := by
  cases s with
  | fact name terms line =>
    simp only [Statement.unplaced, declare]
    cases nodes.get? name with
    | none => rfl
    | some node =>
      cases node with
      | predicate p => rfl
      | relation r =>
        cases hr : r.facts with
        | nil => simp [hr, Except.mapError]
        | cons first rest =>
          by_cases h : terms.length = first.length
          · simp [hr, h, Except.mapError]
          · simp [hr, h, Except.mapError, AssemblyError.unplaced]
  | rule name args body line =>
    simp only [Statement.unplaced, declare]
    cases nodes.get? name with
    | none => rfl
    | some node =>
      cases node with
      | relation r => rfl
      | predicate p =>
        dsimp only
        cases Rule.align p.args args body <;> rfl

/-! ## Several statements -/

theorem declareAll_unplaced (nodes : Table String (Node α)) (ss : List (Statement α)) :
    declareAll nodes (ss.map Statement.unplaced) =
      (declareAll nodes ss).mapError AssemblyError.unplaced := by
  induction ss generalizing nodes with
  | nil => rfl
  | cons s ss ih =>
    rw [List.map_cons, declareAll, declareAll, declare_unplaced]
    cases declare nodes s with
    | error e => rfl
    | ok next => exact ih next

theorem declareAll_of_unplaced {nodes nodes' : Table String (Node α)} {ss ss' : List (Statement α)}
    (e : ss.map Statement.unplaced = ss'.map Statement.unplaced)
    (h : declareAll nodes ss = .ok nodes') : declareAll nodes ss' = .ok nodes' := by
  have hboth := declareAll_unplaced nodes ss'
  rw [← e, declareAll_unplaced, h] at hboth
  exact mapError_eq_ok_iff.1 hboth.symm

theorem declareAll_append {nodes next : Table String (Node α)} {ss ss' : List (Statement α)}
    (h : declareAll nodes ss = .ok next) :
    declareAll nodes (ss ++ ss') = declareAll next ss' := by
  induction ss generalizing nodes with
  | nil =>
    cases h
    rfl
  | cons s ss ih =>
    obtain ⟨n, hn, h⟩ := bind_eq_ok_iff.1 h
    rw [List.cons_append, declareAll, hn]
    exact ih h

/-- Facts of one length go into the relation that was begun with some of them. -/
theorem declareAll_facts {nodes : Table String (Node α)} {name : String} {first : Fact α}
    {before rest : List (Fact α)} (h : ∀ f ∈ rest, f.length = first.length) :
    declareAll (nodes.insert name (.relation (.ofRows (first :: before))))
        (rest.map (.fact name · 0)) =
      .ok (nodes.insert name (.relation (.ofRows (first :: (before ++ rest))))) := by
  induction rest generalizing before with
  | nil => rw [List.append_nil]; rfl
  | cons f rest ih =>
    obtain ⟨tail, hfacts⟩ := Relation.exists_facts_ofRows first before
    have hstep : declare (nodes.insert name (.relation (.ofRows (first :: before))))
        (.fact name f 0) =
          .ok (nodes.insert name (.relation (.ofRows (first :: (before ++ [f]))))) := by
      refine declare_fact_eq_ok_iff.2 (Or.inr (Or.inr ⟨_, first, tail, Table.get?_insert_self _ _ _,
        hfacts, h f List.mem_cons_self, ?_⟩))
      rw [Relation.insert_ofRows, Table.insert_insert]
      rfl
    rw [List.map_cons, declareAll, hstep]
    refine (ih fun g hg => h g (List.mem_cons_of_mem _ hg)).trans ?_
    rw [List.append_assoc]
    rfl

/-- Rules with the declared head go into the predicate as they are. -/
theorem declareAll_rules {nodes : Table String (Node α)} {name : String} {args : List String}
    {before rest : List (Rule α)} :
    declareAll (nodes.insert name (.predicate { args, rules := before }))
        (rest.map (.rule name args · 0)) =
      .ok (nodes.insert name (.predicate { args, rules := before ++ rest })) := by
  induction rest generalizing before with
  | nil => rw [List.append_nil]; rfl
  | cons rule rest ih =>
    have hstep : declare (nodes.insert name (.predicate { args, rules := before }))
        (.rule name args rule 0) =
          .ok (nodes.insert name (.predicate { args, rules := before ++ [rule] })) := by
      refine declare_rule_eq_ok_iff.2 (Or.inr ⟨_, rule, Table.get?_insert_self _ _ _,
        if_pos rfl, ?_⟩)
      rw [Table.insert_insert]
    rw [List.map_cons, declareAll, hstep]
    refine ih.trans ?_
    rw [List.append_assoc]
    rfl

/-- The statements of a node declare this node. -/
theorem declareAll_node {nodes : Table String (Node α)} {name : String} {node : Node α}
    (h : node.Printable) (hn : name ∉ nodes.keys) :
    declareAll nodes (node.statements name) = .ok (nodes.insert name node) := by
  have hnone := Table.get?_eq_none_iff.2 hn
  cases node with
  | relation r =>
    obtain ⟨hne, _, hlength⟩ := h
    cases hr : r.facts with
    | nil => exact absurd hr hne
    | cons first rest =>
      have hfirst : first ∈ r.facts := hr ▸ List.mem_cons_self
      have hstep : declare nodes (.fact name first 0) =
          .ok (nodes.insert name (.relation (.ofRows [first]))) :=
        declare_fact_eq_ok_iff.2 (Or.inl ⟨hnone, rfl⟩)
      rw [Node.statements, hr, List.map_cons, declareAll, hstep]
      show declareAll _ _ = _
      rw [declareAll_facts fun f hf => hlength f (hr ▸ List.mem_cons_of_mem _ hf) first hfirst,
        List.nil_append, ← hr, Relation.ofRows_facts]
  | predicate p =>
    obtain ⟨_, hne, _⟩ := h
    obtain ⟨args, rules⟩ := p
    cases rules with
    | nil => exact absurd rfl hne
    | cons rule rest =>
      have hstep : declare nodes (.rule name args rule 0) =
          .ok (nodes.insert name (.predicate { args, rules := [rule] })) :=
        declare_rule_eq_ok_iff.2 (Or.inl ⟨hnone, rfl⟩)
      rw [Node.statements, List.map_cons, declareAll, hstep]
      exact declareAll_rules

theorem declareAll_nodes {nodes : Table String (Node α)} {l : List (String × Node α)}
    (h : ∀ e ∈ l, e.2.Printable) (hl : (nodes.keys ++ l.map Prod.fst).Nodup) :
    declareAll nodes (l.flatMap fun e => e.2.statements e.1) = .ok (nodes.insertAll l) := by
  induction l generalizing nodes with
  | nil => rfl
  | cons e l ih =>
    have hn : e.1 ∉ nodes.keys := fun hk =>
      (List.nodup_append.1 hl).2.2 e.1 hk e.1 List.mem_cons_self rfl
    have hkeys : (nodes.insert e.1 e.2).keys = nodes.keys ++ [e.1] := by
      rw [Table.keys_insert, if_neg hn]
    rw [List.flatMap_cons, declareAll_append (declareAll_node (h e List.mem_cons_self) hn)]
    refine ih (fun x hx => h x (List.mem_cons_of_mem _ hx)) ?_
    rw [hkeys, List.append_assoc]
    exact hl

/-- **The statements of a printable program declare its nodes.** -/
theorem declareAll_statements {p : Program α} (h : p.Printable) :
    declareAll ∅ p.statements = .ok p.nodes := by
  have hl : ((∅ : Table String (Node α)).keys ++ p.nodes.entries.map Prod.fst).Nodup := p.nodes.nodup
  rw [statements, declareAll_nodes (fun e he => (h e he).2) hl]
  exact congrArg Except.ok (Table.ofList_entries p.nodes)

/-! ## Programs -/

/-- **What a text is read as.** A text is read as a program if it comes to symbols of the grammar, for
statements that declare its nodes. -/
theorem parse_eq_ok_iff {source : String} {p : Program α} :
    parse source = .ok p ↔ p.computed = ∅ ∧ ∃ w ss, Lexes source.toList w ∧
      Grammar.OfStatements (α := α) ss w ∧ declareAll ∅ ss = .ok p.nodes := by
  constructor
  · intro h
    unfold parse at h
    split at h
    · cases h
    · next tokens htokens =>
      unfold ofReading at h
      split at h
      · cases h
      · cases h
      · next nodes hdeclare herror =>
        cases h
        let r : Reading α := .ofTokens tokens
        have hread : Statement.readAll (Token.endOf tokens) tokens = ⟨r.statements, none⟩ := by
          rw [← herror]
          rfl
        exact ⟨rfl, _, r.statements, Lexes.exists_tokenize_iff.1 ⟨tokens, htokens, rfl⟩,
          Grammar.ofStatements_of_readAll hread, hdeclare⟩
  · intro h
    obtain ⟨hcomputed, w, ss, hlexes, hss, hdeclare⟩ := h
    obtain ⟨tokens, htokens, rfl⟩ := Lexes.exists_tokenize_iff.2 hlexes
    obtain ⟨ss', hread, hss'⟩ := Grammar.exists_readAll (Token.endOf tokens) hss
    have hreading : Reading.ofTokens tokens = ⟨ss', none⟩ := hread
    obtain ⟨nodes, computed⟩ := p
    cases hcomputed
    rw [parse, htokens]
    show ofReading (Reading.ofTokens tokens) = _
    rw [hreading, ofReading, declareAll_of_unplaced hss'.symm hdeclare]
    rfl

end Program

end Verdict

import Verdict.Proofs.Document.Meaning
import Verdict.Proofs.Evaluation.Dependency
import Verdict.Proofs.Syntax.Written

/-!
# The checking program in print

The relations of the checking program hold what the documents say, and a relation that holds nothing is
not written. So what is read back from the print of the program is the program itself just if the
documents say something in each respect (`Check.Complete`), and only then it passes the check before
evaluation, for the rules name all relations (`Check.reprint_ofDocuments`). Evaluated without the check
it gives the same facts and statuses in any case, since no relation is denied.
-/

namespace Verdict

namespace Check

open Document Program

variable {α : Type} {docs : List Document}

/-- Some document has an assumption, and some has an inference with a dependency. -/
def Complete (docs : List Document) : Prop :=
  (∃ d a v, Assumes docs d a v) ∧ ∃ d i p, Depends docs d i p

variable [DecidableEq α]

theorem entries_ofDocuments : (ofDocuments docs).nodes.entries = nodes (α := α) docs :=
  Table.entries_ofList (by simp [nodes])

theorem valid_ofDocuments : (ofDocuments docs : Program α).Valid := by
  rfl

theorem isSilent_ofRows {rows : List (Fact α)} :
    (Node.relation (.ofRows rows)).isSilent = false ↔ ∃ f, f ∈ rows := by
  rw [Node.isSilent, ← Bool.not_eq_true, List.isEmpty_iff]
  constructor
  · intro h
    obtain ⟨f, hf⟩ := List.exists_mem_of_ne_nil _ h
    exact ⟨f, Relation.mem_ofRows.1 hf⟩
  · intro h
    obtain ⟨f, hf⟩ := h
    exact List.ne_nil_of_mem (Relation.mem_ofRows.2 hf)

/-! ## Its text -/

theorem isIdentifier_of_nodes {name : String} (h : name ∈ (nodes (α := α) docs).map Prod.fst) :
    IsIdentifier name := by
  have hall : ∀ n ∈ ["doc", "assumption", "inference", "inference_dependsOn", "inference_check",
      "doc_check", "inference_check_mixed", "equal", "inference_check_stratified"],
      IsIdentifier n := by decide
  exact hall name h

/-- Rows of constants, all of one length, can be written. -/
theorem printable_ofRows {rows : List Fact} {n : Nat}
    (hs : (Node.relation (.ofRows rows)).isSilent = false)
    (h : ∀ f ∈ rows, f.length = n ∧ Term.Ground f ∧ ∀ t ∈ f, t.Printable) :
    (Node.relation (.ofRows rows)).Printable := by
  have h {f : Fact} (hf : f ∈ (Relation.ofRows rows).facts) := h f (Relation.mem_ofRows.1 hf)
  obtain ⟨f, hf⟩ := isSilent_ofRows.1 hs
  refine ⟨List.ne_nil_of_mem (Relation.mem_ofRows.2 hf), fun f hf => (h hf).2, fun f hf g hg => ?_⟩
  rw [(h hf).1, (h hg).1]

theorem printable_written (docs : List Document) : (ofDocuments docs : Program).written.Printable := by
  intro e he
  obtain ⟨he, hs⟩ := List.mem_filter.1 he
  rw [Bool.not_eq_true'] at hs
  rw [entries_ofDocuments] at he
  refine ⟨isIdentifier_of_nodes (List.mem_map_of_mem he), ?_⟩
  simp only [nodes, List.mem_cons, List.not_mem_nil, or_false] at he
  rcases he with rfl | rfl | rfl | rfl | rfl | rfl | rfl | rfl | rfl
  · refine printable_ofRows (n := 1) hs fun f hf => ?_
    obtain ⟨d, -, rfl⟩ := mem_docFacts.1 hf
    simp [Term.Ground, Term.var?, Term.Printable]
  · refine printable_ofRows (n := 3) hs fun f hf => ?_
    obtain ⟨d, p, v, -, rfl⟩ := mem_assumptionFacts.1 hf
    simp [Term.Ground, Term.var?, Term.Printable]
  · refine printable_ofRows (n := 2) hs fun f hf => ?_
    obtain ⟨d, i, -, rfl⟩ := mem_inferenceFacts.1 hf
    simp [Term.Ground, Term.var?, Term.Printable]
  · refine printable_ofRows (n := 3) hs fun f hf => ?_
    obtain ⟨d, i, p, -, rfl⟩ := mem_dependencyFacts.1 hf
    simp [Term.Ground, Term.var?, Term.Printable]
  all_goals exact (by decide)

/-! ## What is missing in it -/

theorem written_ofDocuments (h : Complete docs) :
    (ofDocuments docs : Program α).written = ofDocuments docs := by
  obtain ⟨⟨d, a, v, ha⟩, d', i, p, hd⟩ := h
  refine written_eq_self fun e he => ?_
  rw [entries_ofDocuments] at he
  simp only [nodes, List.mem_cons, List.not_mem_nil, or_false] at he
  rcases he with rfl | rfl | rfl | rfl | rfl | rfl | rfl | rfl | rfl
  · exact isSilent_ofRows.2 ⟨_, mem_docFacts.2 ⟨d, ha.exists_name, rfl⟩⟩
  · exact isSilent_ofRows.2 ⟨_, mem_assumptionFacts.2 ⟨d, a, v, ha, rfl⟩⟩
  · exact isSilent_ofRows.2 ⟨_, mem_inferenceFacts.2 ⟨d', i, hd.infers, rfl⟩⟩
  · exact isSilent_ofRows.2 ⟨_, mem_dependencyFacts.2 ⟨d', i, p, hd, rfl⟩⟩
  all_goals rfl

/-- A relation that is still there has a fact. -/
theorem exists_mem_of_written {name : String} {rows : List (Fact α)} {node : Node α}
    (hrows : (ofDocuments docs).nodes.get? name = some (.relation (.ofRows rows)))
    (h : (ofDocuments docs).written.nodes.get? name = some node) : ∃ f, f ∈ rows := by
  rw [get?_written, hrows, Option.filter_eq_some_iff] at h
  obtain ⟨e, hs⟩ := h
  cases e
  exact isSilent_ofRows.1 (Bool.not_eq_true' _ ▸ hs)

theorem complete_of_written {node node' : Node α}
    (ha : (ofDocuments docs).written.nodes.get? "assumption" = some node)
    (hd : (ofDocuments docs).written.nodes.get? "inference_dependsOn" = some node') :
    Complete docs := by
  obtain ⟨f, hf⟩ := exists_mem_of_written get?_assumption ha
  obtain ⟨g, hg⟩ := exists_mem_of_written get?_dependency hd
  obtain ⟨d, a, v, ha, -⟩ := mem_assumptionFacts.1 hf
  obtain ⟨d', i, p, hd, -⟩ := mem_dependencyFacts.1 hg
  exact ⟨⟨d, a, v, ha⟩, d', i, p, hd⟩

theorem sameMap_written_iff :
    (ofDocuments docs : Program α).written.nodes.SameMap (ofDocuments docs).nodes ↔ Complete docs := by
  constructor
  · intro h
    exact complete_of_written ((h _).trans get?_assumption) ((h _).trans get?_dependency)
  · intro h name
    rw [written_ofDocuments h]

theorem ruled_ofDocuments : (ofDocuments docs : Program α).Ruled := by
  intro e he
  rcases mem_predicates_ofDocuments.1 he with ⟨-, h⟩ | ⟨-, h⟩ | ⟨-, h⟩ | ⟨-, h⟩ <;> rw [h] <;> exact nofun

/-- The one name that is denied is that of a predicate. -/
theorem deniesNoEmpty_ofDocuments : (ofDocuments docs : Program α).DeniesNoEmpty := by
  intro e he rule hr c hc hn r hnode
  have hrelation : c.relation = "inference_check_mixed" := by
    rcases mem_predicates_ofDocuments.1 he with ⟨-, h⟩ | ⟨-, h⟩ | ⟨-, h⟩ | ⟨-, h⟩ <;> rw [h] at hr <;>
      revert c rule
    · simp [inferenceCheck, picked, clause]
    · simp [docCheck, clause]
    · simp [mixed, clause]
    · simp [stratified, pureRule, clause, denial]
  rw [hrelation, get?_mixed] at hnode
  cases hnode

theorem valid_written_iff : (ofDocuments docs : Program α).written.Valid ↔ Complete docs := by
  constructor
  · intro h
    have hpred := predicates_written (p := (ofDocuments docs : Program α)) ruled_ofDocuments
    have named {name : String} {pred : Predicate α} (hm : (name, pred) ∈ (ofDocuments docs).predicates)
        {rule : Rule α} (hr : rule ∈ pred.rules) {c : Clause α} (hc : c ∈ rule) :
        ∃ node, (ofDocuments docs).written.nodes.get? c.relation = some node :=
      h.exists_node (hpred ▸ hm) hr hc
    obtain ⟨node, ha⟩ := named (mem_predicates_iff.2 get?_docCheck) List.mem_cons_self
      (List.mem_cons_of_mem _ List.mem_cons_self)
    obtain ⟨node', hd⟩ := named (mem_predicates_iff.2 get?_inferenceCheck) List.mem_cons_self
      (List.mem_cons_of_mem _ (List.mem_cons_of_mem _ List.mem_cons_self))
    exact complete_of_written ha hd
  · intro h
    rw [written_ofDocuments h]
    exact valid_ofDocuments

/-- **What is printed of a checking program reads back, but not always as the program.** The print of
the program is read as the nodes that have a statement, with nothing computed. These are all its nodes
just if some document has an assumption and some has a dependency, and otherwise the program that is
read does not pass the check that the program itself passes. Evaluated without the check, both come to
the same facts and statuses in the same number of rounds, or fail alike. -/
theorem reprint_ofDocuments (docs : List Document) :
    (ofDocuments docs : Program).Valid ∧
      ∃ (text : String) (reread : Program),
        (ofDocuments docs : Program).print false = .ok text ∧ parse text = .ok reread ∧
        reread = (ofDocuments docs).written ∧
        (reread.nodes.SameMap (ofDocuments docs).nodes ↔ Complete docs) ∧
        (reread.Valid ↔ Complete docs) ∧
        ∀ e : Evaluator, (e.evaluate reread).2 = (e.evaluate (ofDocuments docs : Program)).2 ∧
          (e.evaluate reread).1.map (fun q => (q.computed, q.statuses)) =
            (e.evaluate (ofDocuments docs : Program)).1.map fun q => (q.computed, q.statuses) := by
  obtain ⟨text, hprint, hparse⟩ := print_parse_written (printable_written docs)
  refine ⟨valid_ofDocuments, text, _, hprint, hparse, rfl, sameMap_written_iff, valid_written_iff,
    fun e => ?_⟩
  obtain ⟨hrounds, hcomputed⟩ :=
    evaluate_written (p := (ofDocuments docs : Program)) deniesNoEmpty_ofDocuments ruled_ofDocuments e
  -- Statuses are read off what is computed.
  have hread (x : Except EvaluationError Program) : x.map (fun q => (q.computed, q.statuses)) =
      (x.map Program.computed).map fun s => (s, Program.statuses { computed := s }) := by
    cases x <;> rfl
  rw [hread, hread]
  exact ⟨hrounds, congrArg _ hcomputed⟩

/-- A single document with an assumption and no inference. -/
def backlog : List Document :=
  [{ name := "backlog", assumptions := [{ id := .number 1, value := false }] }]

theorem reprint_backlog :
    ∃ (text : String) (reread : Program),
      (ofDocuments backlog : Program).print false = .ok text ∧ parse text = .ok reread ∧
        reread.nodes.get? "inference" = none ∧ ¬ reread.nodes.SameMap (ofDocuments backlog).nodes ∧
        reread.validate = .error (.unknownRelation "inference_check" "inference") := by
  obtain ⟨text, hprint, hparse⟩ := print_parse_written (printable_written backlog)
  have hnone : (ofDocuments backlog : Program).written.nodes.get? "inference" = none := by decide
  refine ⟨text, _, hprint, hparse, hnone, fun h => ?_, by decide⟩
  have hsame := (h "inference").symm.trans hnone
  rw [get?_inference] at hsame
  cases hsame

end Check

end Verdict

import Verdict.Proofs.Document.Reprint
import Verdict.Proofs.Evaluation.Bound
import Verdict.Proofs.Outcome

/-!
# The check of documents comes to rest

Documents may depend on each other in a circle, and so may the inferences of one of them. The checking
program denies the mixed inferences, but what it makes of the denial is not used any further.

> Whatever the documents say, a batch of them returns under every cap that is large enough
> (`Document.exists_evaluateAll`).
-/

namespace Verdict

namespace Check

open Document Program

variable {docs : List Document}

/-- The arity of each name of the checking program. -/
def arity (name : String) : Nat :=
  if name = "doc" then 1
  else if name ∈ ["inference", "doc_check", "inference_check_mixed", "equal"] then 2
  else 3

theorem mem_relations_ofDocuments {name : String} {r : Relation} :
    (name, r) ∈ (ofDocuments docs).relations ↔
      (name = "doc" ∧ r = .ofRows (docFacts docs)) ∨
      (name = "assumption" ∧ r = .ofRows (assumptionFacts docs)) ∨
      (name = "inference" ∧ r = .ofRows (inferenceFacts docs)) ∨
      (name = "inference_dependsOn" ∧ r = .ofRows (dependencyFacts docs)) ∨
      (name = "equal" ∧ r = .ofRows equalFacts) := by
  rw [mem_relations_iff, ofDocuments, Table.get?_ofList_iff (by simp [nodes])]
  simp [nodes]

theorem fitsArities_ofDocuments (docs : List Document) : (ofDocuments docs).FitsArities arity := by
  refine ⟨fun e he f hf => ?_, fun e he => ?_⟩
  · obtain ⟨name, r⟩ := e
    rcases mem_relations_ofDocuments.1 he with
      ⟨rfl, rfl⟩ | ⟨rfl, rfl⟩ | ⟨rfl, rfl⟩ | ⟨rfl, rfl⟩ | ⟨rfl, rfl⟩
    · obtain ⟨d, -, rfl⟩ := mem_docFacts.1 (Relation.mem_ofRows.1 hf)
      rfl
    · obtain ⟨d, p, v, -, rfl⟩ := mem_assumptionFacts.1 (Relation.mem_ofRows.1 hf)
      rfl
    · obtain ⟨d, i, -, rfl⟩ := mem_inferenceFacts.1 (Relation.mem_ofRows.1 hf)
      rfl
    · obtain ⟨d, i, p, -, rfl⟩ := mem_dependencyFacts.1 (Relation.mem_ofRows.1 hf)
      rfl
    · revert f
      decide
  · obtain ⟨name, pred⟩ := e
    rcases mem_predicates_ofDocuments.1 he with ⟨rfl, rfl⟩ | ⟨rfl, rfl⟩ | ⟨rfl, rfl⟩ | ⟨rfl, rfl⟩ <;>
      decide

/-- Nothing is drawn from the outcomes. -/
theorem graded_ofDocuments (docs : List Document) : (ofDocuments docs : Program).Graded fun name =>
    if name = "inference_check_stratified" then 1 else 0 :=
  of_decide_eq_true rfl

end Check

open Check Program

theorem Cap.ofInt_of_pos {n : Int} (h : 0 < n.toNat) : Cap.ofInt n = .ok ⟨n.toNat, h⟩ :=
  dif_pos h

theorem Cap.ofInt_eq_ok_iff {n : Int} {c : Cap} : Cap.ofInt n = .ok c ↔ 0 < n ∧ c.rounds = n.toNat := by
  obtain ⟨rounds, pos⟩ := c
  rw [ofInt]
  split
  · next h =>
    simp only [Except.ok.injEq, Cap.mk.injEq]
    omega
  · next h =>
    simp only [reduceCtorEq, false_iff]
    omega

theorem Cap.ofInt_eq_error_iff {n : Int} {e : CapError} : Cap.ofInt n = .error e ↔ n ≤ 0 ∧ e = ⟨n⟩ := by
  rw [ofInt]
  split
  · next h =>
    simp only [reduceCtorEq, false_iff]
    omega
  · next h =>
    simp only [Except.error.injEq, eq_comm, iff_and_self]
    omega

/-- Notices aside, a batch comes to what the evaluation of its checking program comes to, since that
program is valid. -/
theorem Document.result_evaluateAll (docs : List Document) (cap : Int) :
    (Document.evaluateAll docs cap).result =
      ((Cap.ofInt cap).mapError .cap >>= fun cap =>
        (({ cap } : Evaluator).evaluate (.ofDocuments docs)).1.mapError .evaluation) := by
  have hcheck : (Program.ofDocuments docs : Program).validate = .ok () := by
    rw [Program.validate, show (Program.ofDocuments docs).defect? = none from valid_ofDocuments]
  unfold Document.evaluateAll
  simp only [Outcome.result_bind, hcheck, Evaluator.result_evaluateNoting]
  cases Cap.ofInt cap with
  | error e => rfl
  | ok cap =>
    show ((_ >>= fun q => pure (q, _)) >>= fun b => pure b.1) = Except.mapError Error.evaluation _
    simp only [bind_assoc, pure_bind, bind_pure]

theorem Document.evaluateAll_of_evaluate {docs : List Document} {cap : Int} {c : Cap} {q : Program}
    (hcap : Cap.ofInt cap = .ok c)
    (hq : (({ cap := c } : Evaluator).evaluate (.ofDocuments docs)).1 = .ok q) :
    (Document.evaluateAll docs cap).result = .ok q := by
  rw [Document.result_evaluateAll, hcap]
  exact mapError_eq_ok_iff.2 hq

/-- **A batch returns, if the cap is large enough.** -/
theorem Document.exists_evaluateAll (docs : List Document) :
    ∃ m : Int, ∀ cap, m ≤ cap → ∃ q, (Document.evaluateAll docs cap).result = .ok q := by
  let p : Program := .ofDocuments docs
  have hend : (p.run p.roundBound p.computed).ending = .settled := by
    refine (fitsArities_ofDocuments docs).settled_of_ne_capReached (Store.fits_empty arity) ?_
    exact ending_roundBound valid_ofDocuments fun _ => (graded_ofDocuments docs).not_recursive
  refine ⟨p.roundBound + 1, fun cap hcap => ?_⟩
  have hpos : 0 < cap.toNat := by omega
  have hle : p.roundBound ≤ cap.toNat := by omega
  let e : Evaluator := { cap := ⟨cap.toNat, hpos⟩ }
  obtain ⟨q, hq⟩ := evaluate_of_run_settled (e := e) hend hle
  exact ⟨q, evaluateAll_of_evaluate (Cap.ofInt_of_pos hpos) (congrArg Prod.fst hq)⟩

end Verdict

import Verdict.Batch
import Verdict.Proofs.Evaluation.Rounds

/-!
# Rows of actions that succeed

The counterpart for outcomes of what `Result` says about plain computations: a row of actions has a
value exactly when each of its actions has one. With it a batch that returns a program is taken apart
(`Document.exists_of_evaluateAll`).
-/

namespace Verdict

namespace Outcome

variable {ε β γ : Type}

/-- Notices aside, actions follow each other as plain computations do. -/
theorem result_bind (o : Outcome ε β) (f : β → Outcome ε γ) :
    (o >>= f).result = o.result >>= fun b => (f b).result := by
  show (Outcome.bind o f).result = _
  obtain ⟨result, notices⟩ := o
  cases result with
  | error e => rfl
  | ok b => rfl

theorem result_bind_eq_ok_iff {o : Outcome ε β} {f : β → Outcome ε γ} {c : γ} :
    (o >>= f).result = .ok c ↔ ∃ b, o.result = .ok b ∧ (f b).result = .ok c := by
  rw [result_bind, bind_eq_ok_iff]

theorem mem_notices_bind_iff {o : Outcome ε β} {f : β → Outcome ε γ} {n : Notice} :
    n ∈ (o >>= f).notices ↔ n ∈ o.notices ∨ ∃ b, o.result = .ok b ∧ n ∈ (f b).notices := by
  show n ∈ (Outcome.bind o f).notices ↔ _
  obtain ⟨result, notices⟩ := o
  cases result with
  | error e => simp [Outcome.bind]
  | ok b => simp [Outcome.bind]

/-- What is made of the value in the end is not noted. -/
theorem notices_bind_pure (o : Outcome ε β) (f : β → γ) :
    (o >>= fun b => pure (f b)).notices = o.notices := by
  show (Outcome.bind o fun b => pure (f b)).notices = _
  obtain ⟨result, notices⟩ := o
  cases result with
  | error e => rfl
  | ok b => exact List.append_nil _

end Outcome

/-- Notices aside, noting changes nothing about an evaluation. -/
theorem Evaluator.result_evaluateNoting {α : Type} [DecidableEq α] (e : Evaluator) (p : Program α) :
    (e.evaluateNoting p).result = do
      let q ← (e.evaluate p).1.mapError .evaluation
      return (q, (e.evaluate p).2) := by
  unfold Evaluator.evaluateNoting
  split
  · next hp =>
    rw [hp]
    rfl
  · next hp =>
    rw [hp]
    rfl

/-- A batch that returns has gone from the empty store of its checking program to a settled one. -/
theorem Document.exists_of_evaluateAll {docs : List Document} {cap : Int} {q : Program}
    (h : (Document.evaluateAll docs cap).result = .ok q) :
    ∃ s, q = (Program.ofDocuments docs).withComputed s ∧ (Program.ofDocuments docs).Reaches ∅ s ∧
      (Program.ofDocuments docs).Settled s := by
  unfold Document.evaluateAll at h
  obtain ⟨_, _, h⟩ := Outcome.result_bind_eq_ok_iff.1 h
  obtain ⟨_, _, h⟩ := Outcome.result_bind_eq_ok_iff.1 h
  obtain ⟨_, _, h⟩ := Outcome.result_bind_eq_ok_iff.1 h
  obtain ⟨_, heval, h⟩ := Outcome.result_bind_eq_ok_iff.1 h
  cases h
  rw [Evaluator.result_evaluateNoting] at heval
  obtain ⟨q, hq, e⟩ := bind_eq_ok_iff.1 heval
  cases e
  exact Program.exists_of_evaluate (mapError_eq_ok_iff.1 hq)

end Verdict

import Verdict.Proofs.Evaluation.Rounds
import Verdict.Proofs.Evaluation.Satisfaction

/-!
# The result is a fixpoint

`evaluate_fixpoint`: whatever the rules deny, whatever store an evaluation starts with and whatever its
cap is, a result that it returns holds for each predicate just the facts that its rules derive from
that result. So evaluating it again takes one round and gives back the same program, down to the order
of the entries and of their facts.
-/

namespace Verdict

variable {α : Type} [DecidableEq α]

namespace Program

/-- A settled store holds what the rules derive from it. -/
theorem Settled.mem_factsOf {p : Program α} {s : Store α} (h : p.Settled s) {name : String}
    {pred : Predicate α} (hm : (name, pred) ∈ p.predicates) {f : Fact α} :
    f ∈ s.factsOf name ↔ pred.Derives (p.view s) f := by
  obtain ⟨r, hr, same⟩ := update_eq_none_iff.1 (h name pred hm)
  rw [same f, mem_derive hr]

end Program

namespace Evaluator

/-- A program whose store is settled is its own result, after one round. -/
theorem evaluate_of_settled {p : Program α} (h : p.Settled p.computed) (e : Evaluator) :
    e.evaluate p = (.ok p, { e with roundsRun := 1 }) := by
  rw [evaluate, Program.run_of_settled h e.cap]
  rfl

/-- **A result is a fixpoint of every rule, and evaluating it again changes nothing.** The facts that
the rules of a predicate compute from the result are the facts of its entry, or there are none if it
has no entry; they are also what the rules state over the view of the result. -/
theorem evaluate_fixpoint (e : Evaluator) (p q : Program α) (h : (e.evaluate p).1 = .ok q) :
    q = p.withComputed q.computed ∧
      (∀ name pred, (name, pred) ∈ q.predicates →
        ∃ r, q.derive q.computed pred = .ok r ∧
          ∀ f, (f ∈ r ↔ f ∈ q.computed.factsOf name) ∧
            (f ∈ r ↔ pred.Derives (q.view q.computed) f)) ∧
      ∀ e' : Evaluator,
        q.run e'.cap.rounds q.computed = ⟨[q.computed], .settled⟩ ∧
          e'.evaluate q = (.ok q, { e' with roundsRun := 1 }) := by
  obtain ⟨t, rfl, -, hs⟩ := Program.exists_of_evaluate h
  have hq : (p.withComputed t).Settled t := hs.withComputed t
  refine ⟨rfl, ?_, ?_⟩
  · intro name pred hm
    obtain ⟨r, hr, same⟩ := Program.update_eq_none_iff.1 (hq name pred hm)
    exact ⟨r, hr, fun f => ⟨(same f).symm, Program.mem_derive hr⟩⟩
  · intro e'
    exact ⟨Program.run_of_settled hq e'.cap, evaluate_of_settled hq e'⟩

/-- Two predicates that deny each other, with a seed that hides the declared relation and an entry
without facts. -/
def rivals : Program where
  nodes := .ofList
    [("person", .relation (.ofRows [[.text "ann"]])),
     ("in", .predicate
       { args := ["X"]
         rules := [[⟨"person", [.var "X"], false⟩, ⟨"out", [.var "X"], true⟩]] }),
     ("out", .predicate
       { args := ["X"]
         rules := [[⟨"person", [.var "X"], false⟩, ⟨"in", [.var "X"], true⟩]] })]
  computed := .ofList [("out", ∅), ("person", .ofRows [[.text "bob"]])]

theorem evaluate_fixpoint_rivals :
    ∃ q, (({} : Evaluator).evaluate rivals).1 = .ok q ∧ q.computed.keys = ["out", "person", "in"] ∧
      (q.computed.factsOf "in").facts = [[.text "bob"]] ∧
      ∀ e : Evaluator, e.evaluate q = (.ok q, { e with roundsRun := 1 }) := by
  refine ⟨_, rfl, by decide, by decide, fun e => ?_⟩
  exact ((evaluate_fixpoint {} rivals _ rfl).2.2 e).2

end Evaluator

end Verdict

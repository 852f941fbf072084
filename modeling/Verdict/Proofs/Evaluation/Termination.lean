import Verdict.Proofs.Evaluation.Convergence
import Verdict.Proofs.Evaluation.Failure

/-!
# Programs that come to rest

What may keep a program from coming to rest is a recursion above a denial. There facts appear that
were derived before the denied predicate was complete, and while they are taken back in one place they
may already have been passed on to another.

> If nothing above a denial depends on itself, evaluation returns under every cap that is large enough.

Stratifiability is not enough for that (`stratifiable_not_terminating`): where the data go round in a
circle, so may the facts that should not be there.
-/

namespace Verdict

namespace Program

/-! ## Rest -/

/-- **A program with no recursion above a denial is evaluated, if the cap is large enough.** -/
theorem terminates_of_not_recursive (p : Program) (hvalid : p.Valid) (harity : p.ArityConsistent)
    (h₀ : p.computed = ∅) (hrec : ∀ a, p.AboveDenial a → ¬ p.Recursive a) :
    ∃ m, ∀ e : Evaluator, m ≤ e.cap.rounds → ∃ q, (e.evaluate p).1 = .ok q := by
  obtain ⟨arity, harity⟩ := harity
  -- The rounds needed: one for each fact and each predicate above a denial, and the last one.
  let facts := {x | x ∈ p.base}.ncard
  let levels := {b | p.AboveDenial b}.ncard
  have hend (n : Nat) (hn : facts + levels < n) : (p.run n ∅).ending ≠ .capReached := by
    refine ending_ne_capReached_of_base hvalid.monotoneOn (d := p.depth) ?_ ?_ hn
    · intro a b hab _ hb
      have hb := not_not.1 hb
      exact depth_lt hab hb (hrec b hb)
    · intro name pred _
      by_cases hname : p.AboveDenial name
      · exact Or.inr (depth_lt_ncard hname (hrec name hname))
      · exact Or.inl hname
  refine ⟨facts + levels + 1, fun e he => ?_⟩
  rcases evaluate_cases e p with ⟨t, ht, -⟩ | hcap | ⟨err, herr, -⟩
  · exact ⟨_, ht⟩
  · rw [h₀] at hcap
    exact absurd hcap (hend _ he)
  · exact absurd herr (harity.evaluate_ne_unify h₀ e err)

theorem terminates_release :
    (release ["ann"]).Valid ∧ (release ["ann"]).ArityConsistent ∧
      (∀ a, (release ["ann"]).AboveDenial a → ¬ (release ["ann"]).Recursive a) ∧
      ∃ m, ∀ e : Evaluator, m ≤ e.cap.rounds → ∃ q, (e.evaluate (release ["ann"])).1 = .ok q := by
  have hvalid : (release ["ann"]).Valid := by decide
  have harity : (release ["ann"]).ArityConsistent :=
    ⟨fun name => if name = "partner" then 2 else 1, by decide⟩
  have hrec a : (release ["ann"]).AboveDenial a → ¬ (release ["ann"]).Recursive a :=
    (graded_release ["ann"]).not_recursive
  exact ⟨hvalid, harity, hrec, terminates_of_not_recursive _ hvalid harity rfl hrec⟩

/-! ## Unrest -/

/-- **A run that only ever changes one store of a set into another never settles.** -/
theorem ending_of_progress {α : Type} [DecidableEq α] {p : Program α} {I : Store α → Prop}
    (hI : ∀ s, I s → ∃ t, p.round s = .ok (t, true) ∧ I t) (n : Nat) {s : Store α} (hs : I s) :
    (p.run n s).ending = .capReached := by
  induction n generalizing s with
  | zero => rfl
  | succ n ih =>
    obtain ⟨t, hst, ht⟩ := hI s hs
    rw [run, hst]
    exact ih ht

/-- An inquiry in which the partner of a suspect is one as well. -/
def chase : Program :=
  inquiry ["ann", "cid"] [[⟨"suspect", [.var "Y"], false⟩, ⟨"partner", [.var "Y", .var "X"], false⟩]]

/-- The chase can be stratified, and it does not come to rest: from the second round on ann is under
suspicion for being the partner of bob, and then bob for being the partner of ann. -/
theorem stratifiable_not_terminating :
    chase.Valid ∧ chase.ArityConsistent ∧ chase.Stratifiable ∧ chase.computed = ∅ ∧
      ∀ e : Evaluator, (e.evaluate chase).1 = .error (.capReached e.cap.rounds) := by
  refine ⟨by decide, ⟨fun name => if name = "partner" then 2 else 1, by decide⟩, ?_, rfl,
    fun e => evaluate_of_capReached ?_⟩
  · exact stratifiable_iff_exists_layered.2
      ⟨fun name => if name = "suspect" then 1 else 0, by decide⟩
  · let everyone := ["bob", "ann", "cid"]
    let I (s : Store) : Prop :=
      s = ∅ ∨ s = findings ["bob"] ["ann", "cid"] ∨ s = findings everyone ["bob"] ∨
        s = findings everyone ["ann"]
    have hI : ∀ s, I s → ∃ t, chase.round s = .ok (t, true) ∧ I t := by
      rintro _ (rfl | rfl | rfl | rfl)
      · exact ⟨_, rfl, .inr (.inl rfl)⟩
      · exact ⟨_, rfl, .inr (.inr (.inl rfl))⟩
      · exact ⟨_, rfl, .inr (.inr (.inr rfl))⟩
      · exact ⟨_, rfl, .inr (.inr (.inl rfl))⟩
    exact ending_of_progress hI _ (.inl rfl)

end Program

end Verdict

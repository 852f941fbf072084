import Verdict.Proofs.Evaluation.Termination

/-!
# One arity for each name

Validation does not look at arities, so a valid program may fail in the middle of a run, on a row that
was derived just before. If there is one arity for each name, which the declared facts, the seed, the
heads and the clauses keep to, this cannot happen: every store that a run comes to keeps to it as well
(`FitsArities.fits_of_reaches`), and on such a store no predicate fails (`FitsArities.exists_derive`).

> With one arity for each name an evaluation returns, or it reaches its cap
> (`evaluates_or_capReached`).
-/

namespace Verdict

namespace Program

theorem FitsArities.fits_of_mem_rounds {p : Program} {arity : String → Nat} (hp : p.FitsArities arity)
    (hs : p.computed.Fits arity) {cap : Cap} {take : Option Nat} {s : Store}
    (h : s ∈ (p.rounds cap take).1) : s.Fits arity := by
  obtain ⟨n, hsnapshots, -⟩ := exists_run_of_rounds p cap take
  rw [hsnapshots] at h
  exact hp.fits_of_reaches hs (reaches_of_mem_run h)

theorem FitsArities.rounds_ne_failed {p : Program} {arity : String → Nat} (hp : p.FitsArities arity)
    (hs : p.computed.Fits arity) (cap : Cap) (take : Option Nat) (err : UnifyError) :
    (p.rounds cap take).2 ≠ some (.failed err) := by
  intro h
  obtain ⟨n, -, hending⟩ := exists_run_of_rounds p cap take
  exact hp.run_ne_failed hs n err (hending _ h)

theorem FitsArities.evaluate_eq_error_iff {p : Program} {arity : String → Nat} (hp : p.FitsArities arity)
    (h₀ : p.computed = ∅) {e : Evaluator} {err : EvaluationError} :
    (e.evaluate p).1 = .error err ↔
      (p.run e.cap.rounds ∅).ending = .capReached ∧ err = .capReached e.cap.rounds := by
  have hcap : (p.run e.cap.rounds ∅).ending = .capReached →
      (e.evaluate p).1 = .error (.capReached e.cap.rounds) := by
    rw [← h₀]
    exact evaluate_of_capReached
  constructor
  · intro herr
    rcases evaluate_cases e p with ⟨t, ht, -⟩ | hend | ⟨err', hfail, -⟩
    · rw [herr] at ht
      cases ht
    · rw [h₀] at hend
      rw [hcap hend] at herr
      cases herr
      exact ⟨hend, rfl⟩
    · exact absurd hfail (hp.evaluate_ne_unify h₀ e err')
  · rintro ⟨hend, rfl⟩
    exact hcap hend

/-- **What keeps to its arities fails on nothing but the cap.** The rounds under any cap, however many of
them are asked for, lead through stores that keep to the arities and never fail; an evaluation returns
such a store, or it has reached its cap. -/
theorem evaluates_or_capReached (p : Program) (arity : String → Nat) (hp : p.FitsArities arity)
    (hs : p.computed.Fits arity) :
    (∀ cap take, (∀ s ∈ (p.rounds cap take).1, s.Fits arity) ∧
        ∀ err, (p.rounds cap take).2 ≠ some (.failed err)) ∧
      ∀ e : Evaluator, (∃ q, (e.evaluate p).1 = .ok q ∧ q.computed.Fits arity) ∨
        (e.evaluate p).1 = .error (.capReached e.cap.rounds) := by
  refine ⟨fun cap take => ⟨fun s => hp.fits_of_mem_rounds hs, hp.rounds_ne_failed hs cap take⟩,
    fun e => ?_⟩
  rcases evaluate_cases e p with ⟨t, ht, hreach, -⟩ | hcap | ⟨err, -, t, name, pred, hreach, hm, herr⟩
  · exact Or.inl ⟨_, ht, hp.fits_of_reaches hs hreach⟩
  · exact Or.inr (evaluate_of_capReached hcap)
  · exact absurd herr (hp.derive_ne_error hs hreach hm err)

/-- The chase, taken up again where its first round has left it. -/
def resumed : Program :=
  chase.withComputed (findings ["bob"] ["ann", "cid"])

/-- In the resumed chase suspects are cleared and suspected again, round by round. Nothing but the cap
stops it. -/
theorem evaluates_or_capReached_resumed :
    resumed.FitsArities (fun name => if name = "partner" then 2 else 1) ∧
      resumed.computed.Fits (fun name => if name = "partner" then 2 else 1) ∧
      (∀ cap take err, (resumed.rounds cap take).2 ≠ some (.failed err)) ∧
      (({ cap := { rounds := 9 } } : Evaluator).evaluate resumed).1 = .error (.capReached 9) := by
  have hp : resumed.FitsArities fun name => if name = "partner" then 2 else 1 := by decide
  have hs : resumed.computed.Fits fun name => if name = "partner" then 2 else 1 :=
    Store.forall_factsOf (by decide)
  obtain ⟨hrounds, hresult⟩ := evaluates_or_capReached resumed _ hp hs
  refine ⟨hp, hs, fun cap take => (hrounds cap take).2,
    (hresult { cap := { rounds := 9 } }).resolve_left ?_⟩
  rintro ⟨q, hq, -⟩
  cases hq

end Program

end Verdict

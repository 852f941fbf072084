import Verdict.Proofs.Evaluation.Writes

/-!
# What the cap does

A cap decides how far a run gets, and nothing else.

> Under the smaller of two caps the snapshots are the first of those under the larger one. A run that
> has ended by itself ends so under every larger cap, and a run has reached its cap iff it has made as
> many rounds as the cap allows and the last of them has changed the facts of a predicate
> (`rounds_truncate`).

So a last round without a change is needed to come to rest, and it counts: a cap of as many rounds as
there are changing ones is too small, with one more it is large enough.
-/

namespace Verdict

variable {α : Type} [DecidableEq α]

namespace Program

variable {p : Program α}

/-- **A smaller cap only cuts a run off.** -/
theorem run_take {m n : Nat} (h : m ≤ n) (s : Store α) :
    (p.run m s).snapshots = (p.run n s).snapshots.take m := by
  induction m generalizing n s with
  | zero => rfl
  | succ m ih =>
    obtain ⟨n, rfl⟩ : ∃ k, n = k + 1 := ⟨n - 1, by omega⟩
    rw [run, run]
    split
    · rfl
    · next u hu => exact congrArg (u :: ·) (ih (Nat.le_of_succ_le_succ h) u)
    · simp

/-- A run reaches its cap iff its last allowed round is made and changes something. -/
theorem capReached_iff {n : Nat} {s : Store α} :
    (p.run (n + 1) s).ending = .capReached ↔
      ∃ u v, (s :: (p.run (n + 1) s).snapshots)[n]? = some u ∧
        (p.run (n + 1) s).snapshots[n]? = some v ∧ p.Differ u v := by
  induction n generalizing s with
  | zero =>
    rw [run]
    split
    · simp
    · next u hu => simpa [Run.cons, run] using (changed_iff_differ hu).1 rfl
    · next u hu => simpa using (changed_iff_differ hu).not.1 Bool.false_ne_true
  | succ n ih =>
    rw [run]
    split
    · simp
    · next u hu => exact ih
    · next u hu => simp

theorem evaluate_eq_capReached_iff (e : Evaluator) :
    (e.evaluate p).1 = .error (.capReached e.cap.rounds) ↔
      (p.run e.cap.rounds p.computed).ending = .capReached := by
  refine ⟨fun h => ?_, evaluate_of_capReached⟩
  rcases evaluate_cases e p with ⟨t, ht, -⟩ | hcap | ⟨err, herr, -⟩
  · rw [h] at ht
    cases ht
  · exact hcap
  · rw [h] at herr
    cases herr

/-- A failure leaves the evaluator as it was. -/
theorem evaluator_of_error {e : Evaluator} {err : EvaluationError α}
    (h : (e.evaluate p).1 = .error err) : (e.evaluate p).2 = e := by
  simp only [Evaluator.evaluate] at h ⊢
  cases hend : (p.run e.cap.rounds p.computed).ending.error? e.cap with
  | none =>
    rw [hend] at h
    cases h
  | some err' => rfl

/-- **The cap only truncates.** Take two caps, `m` and a larger `n`. The snapshots under `m` are the first
of those under `n`. What does not reach its cap under `m` goes the same way under `n`; so, if it settles,
both evaluate to one result and count the same rounds, as many as there are snapshots. The cap `m` is
reached iff there are `m` snapshots and the last of them differs in the facts of a predicate from the one
before it, which is the seed if `m` is one; and just then evaluation fails with this cap as its error. A
failed evaluation leaves the number of rounds that the evaluator has kept. -/
theorem rounds_truncate (p : Program α) (m n : Cap) (hmn : m.rounds ≤ n.rounds) :
    (p.rounds m none).1 <+: (p.rounds n none).1 ∧
      ((p.rounds m none).2 ≠ some .capReached → p.rounds n none = p.rounds m none) ∧
      ((p.rounds m none).2 = some .settled → ∃ q, ∀ e : Evaluator, e.cap = m ∨ e.cap = n →
        e.evaluate p = (.ok q, { e with roundsRun := (p.rounds m none).1.length })) ∧
      ((p.rounds m none).2 = some .capReached ↔
        (p.rounds m none).1.length = m.rounds ∧ ∃ s t,
          (p.computed :: (p.rounds m none).1)[m.rounds - 1]? = some s ∧
            (p.rounds m none).1[m.rounds - 1]? = some t ∧ p.Differ s t) ∧
      ∀ e : Evaluator,
        (e.cap = m → ((e.evaluate p).1 = .error (.capReached m.rounds) ↔
          (p.rounds m none).2 = some .capReached)) ∧
        ∀ err, (e.evaluate p).1 = .error err → (e.evaluate p).2 = e := by
  have hsame (h : (p.rounds m none).2 ≠ some .capReached) :
      p.run n.rounds p.computed = p.run m.rounds p.computed :=
    run_of_le (fun e => h (congrArg some e)) hmn
  refine ⟨?_, fun h => ?_, fun h => ?_, ?_, fun e => ⟨?_, fun err => evaluator_of_error⟩⟩
  · show (p.run m.rounds p.computed).snapshots <+: (p.run n.rounds p.computed).snapshots
    rw [run_take hmn]
    exact List.take_prefix _ _
  · show ((p.run n.rounds p.computed).snapshots, some (p.run n.rounds p.computed).ending) = _
    rw [hsame h]
    rfl
  · have hend : (p.run m.rounds p.computed).ending = .settled := Option.some.inj h
    refine ⟨p.withComputed ((p.rounds m none).1.getLast?.getD p.computed), fun e he => ?_⟩
    have hrun : p.run e.cap.rounds p.computed = p.run m.rounds p.computed := by
      rcases he with rfl | rfl
      · rfl
      · exact hsame (by rw [h]; simp)
    simp only [Evaluator.evaluate, hrun, hend, Ending.error?]
    rfl
  · obtain ⟨k, hk⟩ : ∃ k, m.rounds = k + 1 := ⟨m.rounds - 1, by have := m.pos; omega⟩
    show some (p.run m.rounds p.computed).ending = some .capReached ↔
      (p.run m.rounds p.computed).snapshots.length = m.rounds ∧ _
    have hle := length_snapshots_le (p := p) m.rounds p.computed
    simp only [rounds]
    rw [Option.some.injEq, hk, Nat.add_sub_cancel, capReached_iff]
    refine ⟨fun h => ⟨?_, h⟩, And.right⟩
    obtain ⟨_, _, _, ht, _⟩ := h
    have := (List.getElem?_eq_some_iff.1 ht).1
    rw [hk] at hle
    omega
  · rintro rfl
    rw [evaluate_eq_capReached_iff]
    exact Option.some.injEq _ _ ▸ Iff.rfl

/-- The rivals come to rest in the second round, so a cap of one round is too small for them and a cap
of two is as good as any larger one. -/
theorem rounds_truncate_rivals :
    (1 ≤ 2 ∧
      (Evaluator.rivals.rounds { rounds := 1 } none).1 <+:
        (Evaluator.rivals.rounds { rounds := 2 } none).1 ∧
      (Evaluator.rivals.rounds { rounds := 1 } none).2 = some .capReached ∧
      (∃ t, (Evaluator.rivals.rounds { rounds := 1 } none).1[0]? = some t ∧
        Evaluator.rivals.Differ Evaluator.rivals.computed t) ∧
      ({ cap := { rounds := 1 }, roundsRun := 7 } : Evaluator).evaluate Evaluator.rivals =
        (.error (.capReached 1), { cap := { rounds := 1 }, roundsRun := 7 })) ∧
      2 ≤ Cap.standard.rounds ∧
      (Evaluator.rivals.rounds { rounds := 2 } none).2 = some .settled ∧
      Evaluator.rivals.rounds .standard none = Evaluator.rivals.rounds { rounds := 2 } none ∧
      ∃ q, ({} : Evaluator).evaluate Evaluator.rivals = (.ok q, { roundsRun := 2 }) := by
  have hone : 1 ≤ 2 := by decide
  have htwo : 2 ≤ Cap.standard.rounds := by decide
  have hcap : (Evaluator.rivals.rounds { rounds := 1 } none).2 = some .capReached := rfl
  have hsettled : (Evaluator.rivals.rounds { rounds := 2 } none).2 = some .settled := rfl
  obtain ⟨htake, -, -, hreached, hfail⟩ :=
    rounds_truncate Evaluator.rivals { rounds := 1 } { rounds := 2 } hone
  have herror := ((hfail { cap := { rounds := 1 }, roundsRun := 7 }).1 rfl).2 hcap
  obtain ⟨-, s, t, hs, ht, hdiffer⟩ := hreached.1 hcap
  obtain ⟨-, hsame, hresult, -⟩ := rounds_truncate Evaluator.rivals { rounds := 2 } .standard htwo
  obtain ⟨q, hq⟩ := hresult hsettled
  cases hs
  exact ⟨⟨hone, htake, hcap, ⟨t, ht, hdiffer⟩, Prod.ext herror ((hfail _).2 _ herror)⟩, htwo, hsettled,
    hsame (by rw [hsettled]; simp), q, hq {} (.inr rfl)⟩

end Program

end Verdict

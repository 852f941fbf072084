import Mathlib.Logic.Relation
import Verdict.Evaluation.Evaluator
import Verdict.Proofs.Result

/-!
# Runs as chains of changes

A round goes through the predicates and writes at once what it finds, so the store in the middle of a
round is as real as the one at its end. What holds of all of them is best proved change by change:
`Program.Changes` is one predicate written anew, and every snapshot of a run is reached from the
store it started with by a chain of changes (`reaches_of_mem_run`, `run_pairwise`). An invariant then
needs one case.

A run that settles ends in a store that no predicate would change any more (`Program.Settled`), since
a round without a change has shown the same store to all of them (`sweep_unchanged`).
-/

namespace Verdict

variable {α : Type}

/-- The facts that a store holds for a name. A name without an entry has none. -/
def Store.factsOf (store : Store α) (name : String) : Relation α :=
  (store.get? name).getD ∅

theorem Store.factsOf_of_entry {s : Store α} {name : String} {r : Relation α}
    (h : s.get? name = some r) : s.factsOf name = r := by
  rw [factsOf, h, Option.getD_some]

theorem Store.factsOf_of_no_entry {s : Store α} {name : String} (h : s.get? name = none) :
    s.factsOf name = ∅ := by
  rw [factsOf, h, Option.getD_none]

theorem Store.factsOf_congr {s t : Store α} {name : String} (h : s.get? name = t.get? name) :
    s.factsOf name = t.factsOf name := by
  rw [factsOf, h, factsOf]

theorem Store.mem_factsOf_iff {s : Store α} {name : String} {f : Fact α} :
    f ∈ s.factsOf name ↔ ∃ r, s.get? name = some r ∧ f ∈ r := by
  cases h : s.get? name with
  | some r => simp [factsOf_of_entry h]
  | none =>
    rw [factsOf_of_no_entry h]
    constructor
    · intro hf
      cases hf
    · intro hr
      obtain ⟨r, e, _⟩ := hr
      cases e

theorem Store.forall_factsOf {s : Store α} {P : String → Fact α → Prop}
    (h : ∀ e ∈ s.entries, ∀ f ∈ e.2.facts, P e.1 f) : ∀ name, ∀ f ∈ s.factsOf name, P name f := by
  intro name f hf
  obtain ⟨r, hr, hf⟩ := mem_factsOf_iff.1 hf
  exact h (name, r) (Table.get?_eq_some_iff.1 hr) f hf

variable [DecidableEq α]

instance (f : Fact α) (r : Relation α) : Decidable (f ∈ r) :=
  decidable_of_iff (∃ g ∈ r.facts, g = f) exists_eq_right

namespace Program

/-- One predicate is recomputed, and written since its facts are others. -/
def Changes (p : Program α) (s t : Store α) : Prop :=
  ∃ name pred, (name, pred) ∈ p.predicates ∧ p.update s name pred = .ok (some t)

/-- A chain of changes leads from one store to the other. -/
abbrev Reaches (p : Program α) : Store α → Store α → Prop :=
  Relation.ReflTransGen p.Changes

/-- The store holds for each predicate just what it derives. -/
def Settled (p : Program α) (s : Store α) : Prop :=
  ∀ name pred, (name, pred) ∈ p.predicates → p.update s name pred = .ok none

variable {p : Program α}

/-! ## What an update reads -/

theorem solveFrom_congr {q : Program α} {s t : Store α} {rule : Rule α}
    (h : ∀ c ∈ rule, p.resolve? s c.relation = q.resolve? t c.relation) (bs : List (Binding α)) :
    p.solveFrom s rule bs = q.solveFrom t rule bs := by
  induction rule generalizing bs with
  | nil => rfl
  | cons c rule ih =>
    have hrest : ∀ d ∈ rule, p.resolve? s d.relation = q.resolve? t d.relation :=
      fun d hd => h d (List.mem_cons_of_mem c hd)
    simp only [solveFrom, h c List.mem_cons_self, ih hrest]

theorem derive_of_solve {q : Program α} {s t : Store α} {pred : Predicate α}
    (h : ∀ rule ∈ pred.rules, p.solve s rule = q.solve t rule) : p.derive s pred = q.derive t pred := by
  have rules (l : List (Rule α)) (hl : ∀ rule ∈ l, p.solve s rule = q.solve t rule) :
      p.deriveRules s pred.args l = q.deriveRules t pred.args l := by
    induction l with
    | nil => rfl
    | cons rule l ih =>
      simp only [deriveRules, deriveRule, hl rule List.mem_cons_self,
        ih fun r hr => hl r (List.mem_cons_of_mem rule hr)]
  simp only [derive, rules pred.rules h]

/-- **What a predicate computes depends only on what its clauses name.** -/
theorem derive_congr {q : Program α} {s t : Store α} {pred : Predicate α}
    (h : ∀ rule ∈ pred.rules, ∀ c ∈ rule, p.resolve? s c.relation = q.resolve? t c.relation) :
    p.derive s pred = q.derive t pred :=
  derive_of_solve fun rule hr => solveFrom_congr (h rule hr) [∅]

/-! ## One update -/

theorem update_eq_none_iff {s : Store α} {name : String} {pred : Predicate α} :
    p.update s name pred = .ok none ↔
      ∃ r, p.derive s pred = .ok r ∧ (s.factsOf name).SameFacts r := by
  rw [update, bind_eq_ok_iff]
  constructor
  · intro h
    obtain ⟨r, hr, h⟩ := h
    rw [pure_eq_ok_iff] at h
    split at h
    · next same => exact ⟨r, hr, same⟩
    · cases h
  · intro h
    obtain ⟨r, hr, same⟩ := h
    exact ⟨r, hr, by rw [pure_eq_ok_iff]; exact if_pos same⟩

theorem update_eq_some_iff {s t : Store α} {name : String} {pred : Predicate α} :
    p.update s name pred = .ok (some t) ↔
      ∃ r, p.derive s pred = .ok r ∧ ¬ (s.factsOf name).SameFacts r ∧ t = s.insert name r := by
  rw [update, bind_eq_ok_iff]
  constructor
  · intro h
    obtain ⟨r, hr, h⟩ := h
    rw [pure_eq_ok_iff] at h
    split at h
    · cases h
    · next other => exact ⟨r, hr, other, (Option.some.inj h).symm⟩
  · intro h
    obtain ⟨r, hr, other, e⟩ := h
    exact ⟨r, hr, by rw [pure_eq_ok_iff, e]; exact if_neg other⟩

/-! ## Rounds -/

/-- A pass recomputes the first predicate and goes on with the store that comes out of it. -/
theorem sweep_cons_eq_ok_iff {name : String} {pred : Predicate α} {rest : List (String × Predicate α)}
    {s t : Store α} {changed : Bool} :
    p.sweep ((name, pred) :: rest) s = .ok (t, changed) ↔
      ∃ first later, p.update s name pred = .ok first ∧
        p.sweep rest (first.getD s) = .ok (t, later) ∧ changed = (first.isSome || later) := by
  rw [sweep, bind_eq_ok_iff]
  constructor
  · intro h
    obtain ⟨first, hfirst, h⟩ := h
    cases first with
    | none => exact ⟨none, changed, hfirst, h, rfl⟩
    | some u =>
      obtain ⟨⟨t', later⟩, hrest, h⟩ := bind_eq_ok_iff.1 h
      cases h
      exact ⟨some u, later, hfirst, hrest, rfl⟩
  · intro h
    obtain ⟨first, later, hfirst, hrest, rfl⟩ := h
    refine ⟨first, hfirst, ?_⟩
    cases first with
    | none => exact hrest
    | some u => exact bind_eq_ok_iff.2 ⟨_, hrest, rfl⟩

/-- **A pass that changes nothing has shown one store to every predicate.** -/
theorem sweep_unchanged {l : List (String × Predicate α)} {s t : Store α}
    (h : p.sweep l s = .ok (t, false)) :
    t = s ∧ ∀ name pred, (name, pred) ∈ l → p.update s name pred = .ok none := by
  induction l with
  | nil =>
    cases h
    exact ⟨rfl, fun _ _ hm => nomatch hm⟩
  | cons e rest ih =>
    obtain ⟨name, pred⟩ := e
    obtain ⟨first, later, hc, h, hflag⟩ := sweep_cons_eq_ok_iff.1 h
    cases first with
    | some u =>
      -- A change is reported, whatever comes after it.
      cases hflag
    | none =>
      obtain rfl : false = later := hflag
      obtain ⟨e, hrest⟩ := ih h
      refine ⟨e, fun name' pred' hm => ?_⟩
      rcases List.mem_cons.1 hm with hm | hm
      · cases hm
        exact hc
      · exact hrest name' pred' hm

/-- If no predicate would change, none does. -/
theorem sweep_of_unchanged {l : List (String × Predicate α)} {s : Store α}
    (h : ∀ name pred, (name, pred) ∈ l → p.update s name pred = .ok none) :
    p.sweep l s = .ok (s, false) := by
  induction l with
  | nil => rfl
  | cons e rest ih =>
    obtain ⟨name, pred⟩ := e
    rw [sweep, h name pred (by simp)]
    exact ih fun name' pred' hm => h name' pred' (List.mem_cons_of_mem _ hm)

theorem reaches_of_sweep {l : List (String × Predicate α)} {s t : Store α} {changed : Bool}
    (hl : ∀ e ∈ l, e ∈ p.predicates) (h : p.sweep l s = .ok (t, changed)) :
    p.Reaches s t := by
  induction l generalizing s changed with
  | nil =>
    cases h
    exact .refl
  | cons e rest ih =>
    obtain ⟨name, pred⟩ := e
    have hrest : ∀ e ∈ rest, e ∈ p.predicates := fun e he => hl e (List.mem_cons_of_mem _ he)
    obtain ⟨first, _, hfirst, hr, -⟩ := sweep_cons_eq_ok_iff.1 h
    cases first with
    | none => exact ih hrest hr
    | some u => exact .head ⟨name, pred, hl _ List.mem_cons_self, hfirst⟩ (ih hrest hr)

theorem reaches_of_round {s t : Store α} {changed : Bool} (h : p.round s = .ok (t, changed)) :
    p.Reaches s t :=
  reaches_of_sweep (fun _ he => he) h

theorem settled_of_round {s t : Store α} (h : p.round s = .ok (t, false)) : t = s ∧ p.Settled s :=
  sweep_unchanged h

theorem round_of_settled {s : Store α} (h : p.Settled s) : p.round s = .ok (s, false) :=
  sweep_of_unchanged h

/-! ## Runs -/

theorem run_of_round {n : Nat} {s t : Store α} {changed : Bool} (h : p.round s = .ok (t, changed)) :
    p.run (n + 1) s = if changed then .cons t (p.run n t) else ⟨[t], .settled⟩ := by
  rw [run, h]
  cases changed <;> rfl

/-- A snapshot of a run is that of its first round, or one of the run that goes on from there. -/
theorem exists_of_getElem?_run {n k : Nat} {s t : Store α}
    (h : (p.run n s).snapshots[k]? = some t) :
    ∃ m u changed, n = m + 1 ∧ p.round s = .ok (u, changed) ∧
      (k = 0 ∧ t = u ∨ changed = true ∧ ∃ j, k = j + 1 ∧ (p.run m u).snapshots[j]? = some t) := by
  cases n with
  | zero => cases h
  | succ m =>
    rw [run] at h
    split at h
    · cases h
    · next u hu =>
      refine ⟨m, u, true, rfl, hu, ?_⟩
      cases k with
      | zero => exact Or.inl ⟨rfl, (Option.some.inj h).symm⟩
      | succ j => exact Or.inr ⟨rfl, j, rfl, h⟩
    · next u hu =>
      refine ⟨m, u, false, rfl, hu, ?_⟩
      cases k with
      | zero => exact Or.inl ⟨rfl, (Option.some.inj h).symm⟩
      | succ j => cases h

theorem reaches_of_mem_run {n : Nat} {s t : Store α} (h : t ∈ (p.run n s).snapshots) :
    p.Reaches s t := by
  induction n generalizing s with
  | zero => cases h
  | succ n ih =>
    rw [run] at h
    split at h
    · cases h
    · next u hr =>
      rcases List.mem_cons.1 h with rfl | h
      · exact reaches_of_round hr
      · exact (reaches_of_round hr).trans (ih h)
    · next u hr =>
      rcases List.mem_singleton.1 h with rfl
      exact reaches_of_round hr

/-- Each snapshot of a run is reached from all before it. -/
theorem run_pairwise (n : Nat) (s : Store α) :
    (p.run n s).snapshots.Pairwise p.Reaches := by
  induction n generalizing s with
  | zero => exact .nil
  | succ n ih =>
    rw [run]
    split
    · exact .nil
    · exact .cons (fun t ht => reaches_of_mem_run ht) (ih _)
    · exact .cons (List.forall_mem_nil _) .nil

/-- A run that settles ends with a settled store. -/
theorem settled_of_run {n : Nat} {s : Store α} (h : (p.run n s).ending = .settled) :
    ∃ t, (p.run n s).snapshots.getLast? = some t ∧ p.Settled t := by
  induction n generalizing s with
  | zero => cases h
  | succ n ih =>
    rw [run] at h ⊢
    split at h
    · cases h
    · next u hr =>
      obtain ⟨t, ht, hs⟩ := ih h
      exact ⟨t, by simp only [Run.cons, List.getLast?_cons, ht, Option.getD_some], hs⟩
    · next u hr =>
      obtain ⟨rfl, hs⟩ := settled_of_round hr
      exact ⟨u, rfl, hs⟩

/-- A run that starts settled needs one round to see it, and every cap has room for one. -/
theorem run_of_settled {s : Store α} (h : p.Settled s) (cap : Cap) :
    p.run cap.rounds s = ⟨[s], .settled⟩ := by
  obtain ⟨n, hn⟩ : ∃ n, cap.rounds = n + 1 := Nat.exists_eq_succ_of_ne_zero (Nat.ne_of_gt cap.pos)
  rw [hn, run, round_of_settled h]

theorem length_snapshots_le (n : Nat) (s : Store α) : (p.run n s).snapshots.length ≤ n := by
  induction n generalizing s with
  | zero => exact Nat.le_refl 0
  | succ n ih =>
    rw [run]
    split
    · exact Nat.zero_le _
    · exact Nat.succ_le_succ (ih _)
    · exact Nat.succ_le_succ (Nat.zero_le n)

/-- **A run that came to an end goes the same way under a larger cap.** -/
theorem run_of_le {m n : Nat} {s : Store α} (h : (p.run m s).ending ≠ .capReached) (hmn : m ≤ n) :
    p.run n s = p.run m s := by
  induction m generalizing n s with
  | zero => exact absurd rfl h
  | succ m ih =>
    obtain ⟨n, rfl⟩ : ∃ k, n = k + 1 := ⟨n - 1, by omega⟩
    rw [run] at h
    rw [run, run]
    split at h
    · rfl
    · rw [ih h (Nat.le_of_succ_le_succ hmn)]
    · rfl

/-- The rounds that are asked for make a run, and they have its ending if they have one. -/
theorem exists_run_of_rounds (p : Program α) (cap : Cap) (take : Option Nat) :
    ∃ n, (p.rounds cap take).1 = (p.run n p.computed).snapshots ∧
      ∀ ending, (p.rounds cap take).2 = some ending → (p.run n p.computed).ending = ending := by
  cases take with
  | none => exact ⟨cap.rounds, rfl, fun _ h => Option.some.inj h⟩
  | some k =>
    refine ⟨min cap.rounds k, rfl, fun ending h => ?_⟩
    simp only [rounds] at h
    split at h
    · cases h
    · exact Option.some.inj h

theorem exists_of_sweep_error {l : List (String × Predicate α)} (hl : ∀ e ∈ l, e ∈ p.predicates)
    {s : Store α} {err : UnifyError α} (h : p.sweep l s = .error err) :
    ∃ t name pred, p.Reaches s t ∧ (name, pred) ∈ p.predicates ∧ p.derive t pred = .error err := by
  induction l generalizing s with
  | nil => cases h
  | cons e rest ih =>
    obtain ⟨name, pred⟩ := e
    obtain ⟨hm, hrest⟩ := List.forall_mem_cons.1 hl
    rw [sweep] at h
    rcases bind_eq_error_iff.1 h with h | ⟨first, hfirst, h⟩
    · rcases bind_eq_error_iff.1 h with h | ⟨_, _, h⟩
      · exact ⟨s, name, pred, .refl, hm, h⟩
      · cases h
    · cases first with
      | none => exact ih hrest h
      | some u =>
        rcases bind_eq_error_iff.1 h with h | ⟨_, _, h⟩
        · obtain ⟨t, n, q, hut, hq, herr⟩ := ih hrest h
          exact ⟨t, n, q, .head ⟨name, pred, hm, hfirst⟩ hut, hq, herr⟩
        · cases h

/-- A run that fails has come to a store on which some predicate fails. -/
theorem exists_of_run_failed {n : Nat} {s : Store α} {err : UnifyError α}
    (h : (p.run n s).ending = .failed err) :
    ∃ t name pred, p.Reaches s t ∧ (name, pred) ∈ p.predicates ∧ p.derive t pred = .error err := by
  induction n generalizing s with
  | zero => cases h
  | succ n ih =>
    rw [run] at h
    split at h
    · next e he =>
      cases h
      exact exists_of_sweep_error (fun _ hm => hm) he
    · next u hr =>
      obtain ⟨t, name, pred, hut, hm, herr⟩ := ih h
      exact ⟨t, name, pred, (reaches_of_round hr).trans hut, hm, herr⟩
    · cases h

/-! ## The result of an evaluation -/

theorem evaluate_of_capReached {e : Evaluator}
    (h : (p.run e.cap.rounds p.computed).ending = .capReached) :
    (e.evaluate p).1 = .error (.capReached e.cap.rounds) := by
  simp only [Evaluator.evaluate, h, Ending.error?]

/-- What settles within `m` rounds is returned under each cap that has as many, with their number. -/
theorem evaluate_of_run_settled {m : Nat} (h : (p.run m p.computed).ending = .settled) {e : Evaluator}
    (he : m ≤ e.cap.rounds) :
    ∃ q, e.evaluate p =
      (.ok q, { e with roundsRun := (p.run m p.computed).snapshots.length }) := by
  have hrun : p.run e.cap.rounds p.computed = p.run m p.computed :=
    run_of_le (by simp [h]) he
  simp only [Evaluator.evaluate, hrun, h, Ending.error?]
  exact ⟨_, rfl⟩

/-- What is returned has settled, and the number of its rounds is kept. -/
theorem settled_of_evaluate {e e' : Evaluator} {q : Program α} (h : e.evaluate p = (.ok q, e')) :
    (p.run e.cap.rounds p.computed).ending = .settled ∧
      e'.roundsRun = (p.run e.cap.rounds p.computed).snapshots.length := by
  simp only [Evaluator.evaluate] at h
  cases hend : (p.run e.cap.rounds p.computed).ending with
  | settled =>
    rw [hend] at h
    cases h
    exact ⟨rfl, rfl⟩
  | capReached =>
    rw [hend] at h
    cases h
  | failed err =>
    rw [hend] at h
    cases h

/-- **The three ways in which an evaluation ends:** it has gone from the store of its program to a settled
one, or the cap was reached, or some predicate failed on a store on the way. -/
theorem evaluate_cases (e : Evaluator) (p : Program α) :
    (∃ t, (e.evaluate p).1 = .ok (p.withComputed t) ∧ p.Reaches p.computed t ∧ p.Settled t) ∨
      (p.run e.cap.rounds p.computed).ending = .capReached ∨
      ∃ err, (e.evaluate p).1 = .error (.unify err) ∧
        ∃ t name pred, p.Reaches p.computed t ∧ (name, pred) ∈ p.predicates ∧
          p.derive t pred = .error err := by
  cases h : (p.run e.cap.rounds p.computed).ending with
  | settled =>
    obtain ⟨t, ht, hs⟩ := settled_of_run h
    refine Or.inl ⟨t, ?_, reaches_of_mem_run (List.mem_of_getLast? ht), hs⟩
    simp only [Evaluator.evaluate, h, Ending.error?, ht, Option.getD_some]
  | capReached => exact Or.inr (Or.inl rfl)
  | failed err =>
    refine Or.inr (Or.inr ⟨err, ?_, exists_of_run_failed h⟩)
    simp only [Evaluator.evaluate, h, Ending.error?]

/-- An evaluation that returns has gone from the store of its program to a settled one. -/
theorem exists_of_evaluate {e : Evaluator} {q : Program α} (h : (e.evaluate p).1 = .ok q) :
    ∃ t, q = p.withComputed t ∧ p.Reaches p.computed t ∧ p.Settled t := by
  rcases evaluate_cases e p with ⟨t, ht, hreach, hs⟩ | hcap | ⟨err, herr, -⟩
  · rw [h] at ht
    cases ht
    exact ⟨t, rfl, hreach, hs⟩
  · rw [evaluate_of_capReached hcap] at h
    cases h
  · rw [herr] at h
    cases h

/-! ## Programs that run alike -/

theorem sweep_congr {q : Program α} {l : List (String × Predicate α)}
    (h : ∀ e ∈ l, ∀ s, q.derive s e.2 = p.derive s e.2) (s : Store α) : q.sweep l s = p.sweep l s := by
  induction l generalizing s with
  | nil => rfl
  | cons e rest ih =>
    obtain ⟨name, pred⟩ := e
    obtain ⟨hfirst, hrest⟩ := List.forall_mem_cons.1 h
    simp only [sweep, update, hfirst, ih hrest]

/-- **Two programs with the same predicates run alike if these derive the same.** -/
theorem run_congr {q : Program α} (hpred : q.predicates = p.predicates)
    (h : ∀ e ∈ p.predicates, ∀ s, q.derive s e.2 = p.derive s e.2) (n : Nat) (s : Store α) :
    q.run n s = p.run n s := by
  have hround (s : Store α) : q.round s = p.round s := by
    rw [round, round, hpred]
    exact sweep_congr h s
  induction n generalizing s with
  | zero => rfl
  | succ n ih => simp only [run, hround, ih]

/-- What is computed depends on the nodes and the store at hand, not on the store of the program. -/
theorem derive_withComputed (s t : Store α) (pred : Predicate α) :
    (p.withComputed t).derive s pred = p.derive s pred :=
  derive_congr fun _ _ _ _ => rfl

theorem run_withComputed (n : Nat) (s t : Store α) : (p.withComputed t).run n s = p.run n s := by
  have hpred : (p.withComputed t).predicates = p.predicates := rfl
  exact run_congr hpred (fun e _ s => derive_withComputed s t e.2) n s

theorem Settled.withComputed {s : Store α} (h : p.Settled s) (t : Store α) :
    (p.withComputed t).Settled s := by
  intro name pred hm
  rw [update, derive_withComputed]
  exact h name pred hm

end Program

end Verdict

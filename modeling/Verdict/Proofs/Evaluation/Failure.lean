import Verdict.Proofs.Evaluation.Base

/-!
# When matching fails

Over terms alone a clause can only fail on a row of another length. Whether an evaluation comes across
such a row depends on the order in which names, clauses and rows are looked at, for a rule is left
where no binding is left, and a negated clause is left at its first match. Two facts hold all the same:

* where every name has one arity, nothing ever fails (`FitsArities.exists_derive`), and each run settles
  or reaches its cap;
* a predicate that fails on a store fails on every store that has no fewer rows for its positive
  clauses and the same rows for its negated ones (`exists_derive_of_widens`, read backwards).
-/

namespace Verdict

/-! ## One row after another -/

namespace Binding

theorem exists_unifyFrom (b : Binding) (pattern : List Term) (row : Fact) :
    ∃ o, b.unifyFrom pattern row = .ok o := by
  induction pattern generalizing b row with
  | nil => exact ⟨some b, by rw [unifyFrom]; simp⟩
  | cons t pattern ih =>
    cases row with
    | nil => exact ⟨some b, by rw [unifyFrom]; simp⟩
    | cons v row =>
      cases t with
      | var x =>
        rw [unifyFrom]
        split
        · exact ih _ _
        · split
          · exact ih _ _
          · exact ⟨none, rfl⟩
      | text s =>
        rw [unifyFrom]
        split
        · exact ih _ _
        · exact ⟨none, rfl⟩
      | truth s =>
        rw [unifyFrom]
        split
        · exact ih _ _
        · exact ⟨none, rfl⟩
      | foreign a => cases a

theorem exists_unify_iff {b : Binding} {pattern : List Term} {row : Fact} :
    (∃ o, b.unify pattern row = .ok o) ↔ pattern.length = row.length := by
  rw [unify]
  split
  · next hl => exact ⟨fun _ => hl, fun _ => exists_unifyFrom b pattern row⟩
  · next hl =>
    constructor
    · intro h
      obtain ⟨_, h⟩ := h
      cases h
    · exact fun h => absurd h hl

theorem exists_extensions_iff {b : Binding} {pattern : List Term} {rows : List Fact} :
    (∃ bs, b.extensions pattern rows = .ok bs) ↔ ∀ row ∈ rows, pattern.length = row.length := by
  induction rows with
  | nil => exact ⟨fun _ => List.forall_mem_nil _, fun _ => ⟨[], rfl⟩⟩
  | cons row rows ih =>
    rw [List.forall_mem_cons, ← ih, ← exists_unify_iff (b := b), extensions]
    exact exists_pair_eq_ok_iff

theorem exists_hasMatch {b : Binding} {pattern : List Term} {rows : List Fact}
    (h : ∀ row ∈ rows, pattern.length = row.length) : ∃ o, b.hasMatch pattern rows = .ok o := by
  induction rows with
  | nil => exact ⟨false, rfl⟩
  | cons row rows ih =>
    obtain ⟨hrow, hrows⟩ := List.forall_mem_cons.1 h
    obtain ⟨found, hfound⟩ := exists_unify_iff.2 hrow
    rw [hasMatch, hfound]
    cases found with
    | some _ => exact ⟨true, rfl⟩
    | none => exact ih hrows

/-- Whether a row matches is a matter of what is bound, not of the order in which it was. -/
theorem hasMatch_congr {b b' : Binding} (hb : b.get? = b'.get?) (pattern : List Term)
    (rows : List Fact) : b.hasMatch pattern rows = b'.hasMatch pattern rows := by
  induction rows with
  | nil => rfl
  | cons row rows ih =>
    rw [hasMatch, hasMatch]
    by_cases hl : pattern.length = row.length
    · obtain ⟨found, hfound⟩ := exists_unify_iff (b := b).2 hl
      obtain ⟨found', hfound'⟩ := exists_unify_iff (b := b').2 hl
      rw [hfound, hfound']
      cases found with
      | some c =>
        obtain ⟨_, hc, -⟩ := unify_of_matches (hb ▸ unify_matches hfound)
        rw [hfound'] at hc
        cases hc
        rfl
      | none =>
        cases found' with
        | some c =>
          obtain ⟨_, hc, -⟩ := unify_of_matches (hb.symm ▸ unify_matches hfound')
          rw [hfound] at hc
          cases hc
        | none => exact ih
    · rw [unify, unify, if_neg hl, if_neg hl]
      rfl

end Binding

/-! ## One clause after another -/

namespace Clause

theorem exists_step_of_fits {c : Clause} {facts : List Fact}
    (h : ∀ row ∈ facts, c.arity = row.length) (b : Binding) : ∃ cs, c.step facts b = .ok cs := by
  unfold step
  split
  · obtain ⟨o, ho⟩ := Binding.exists_hasMatch (b := b) h
    exact ⟨_, by rw [ho]; rfl⟩
  · exact Binding.exists_extensions_iff.2 h

/-- A step succeeds also with fewer rows, and with the same ones where nothing may match. -/
theorem exists_step_of_subset {c : Clause} {facts facts' : List Fact} {b b' : Binding}
    (hfacts : ∀ row ∈ facts, row ∈ facts') (hneg : c.negated = true → facts = facts')
    (hb : b.get? = b'.get?) (h : ∃ cs, c.step facts' b' = .ok cs) : ∃ cs, c.step facts b = .ok cs := by
  obtain ⟨cs, h⟩ := h
  unfold step at h ⊢
  cases hn : c.negated with
  | true =>
    rw [hn, if_pos rfl] at h
    obtain ⟨o, ho, -⟩ := bind_eq_ok_iff.1 h
    refine ⟨if o then [] else [b], ?_⟩
    rw [if_pos rfl, hneg hn, Binding.hasMatch_congr hb, ho]
    rfl
  | false =>
    rw [hn, if_neg Bool.false_ne_true] at h
    have hfits := Binding.exists_extensions_iff.1 ⟨cs, h⟩
    rw [if_neg Bool.false_ne_true]
    exact Binding.exists_extensions_iff.2 fun row hrow => hfits row (hfacts row hrow)

theorem exists_join_iff {c : Clause} {facts : List Fact} {bs : List Binding} :
    (∃ cs, c.join facts bs = .ok cs) ↔ ∀ b ∈ bs, ∃ cs, c.step facts b = .ok cs := by
  induction bs with
  | nil => exact ⟨fun _ => List.forall_mem_nil _, fun _ => ⟨[], rfl⟩⟩
  | cons b bs ih =>
    rw [List.forall_mem_cons, ← ih, join]
    exact exists_pair_eq_ok_iff

end Clause

/-- The facts that a store holds for each name have the arity given to it. -/
def Store.Fits (s : Store) (arity : String → Nat) : Prop :=
  ∀ name, ∀ f ∈ s.factsOf name, f.length = arity name

theorem Store.fits_empty (arity : String → Nat) : (∅ : Store).Fits arity := by
  intro name f hf
  cases hf

namespace Program

variable {p : Program}

/-- What the clause finds resolved in `s` it finds resolved in `t`: with no fewer rows, and with the same
relation if it is negated. -/
def Widens (p : Program) (s t : Store) (c : Clause) : Prop :=
  ∀ r, p.resolve? s c.relation = some r →
    ∃ r', p.resolve? t c.relation = some r' ∧ (∀ f ∈ r, f ∈ r') ∧ (c.negated = true → r = r')

theorem Widens.leAt {s t : Store} {c : Clause} (h : p.Widens s t c) {r : Relation}
    (hr : p.resolve? s c.relation = some r) : (p.view s).LeAt (p.view t) c := by
  obtain ⟨r', hr', hsub, hneg⟩ := h r hr
  unfold View.LeAt
  cases hn : c.negated with
  | true =>
    obtain rfl := hneg hn
    refine ⟨fun _ => ?_, fun f hf => ?_⟩
    · simp only [view, hr', Option.isSome_some]
    · simp only [view, hr', Option.some.injEq, exists_eq_left'] at hf
      exact ⟨r, hr, hf⟩
  | false =>
    intro f hf
    simp only [view, hr, Option.some.injEq, exists_eq_left'] at hf
    exact ⟨r', hr', hsub f hf⟩

theorem exists_solveFrom_of_fits {s : Store} {rule : Rule}
    (h : ∀ c ∈ rule, ∀ r, p.resolve? s c.relation = some r → ∀ row ∈ r, c.arity = row.length)
    (bs : List Binding) : ∃ cs, p.solveFrom s rule bs = .ok cs := by
  induction rule generalizing bs with
  | nil => exact ⟨bs, rfl⟩
  | cons c rule ih =>
    obtain ⟨hc, hrule⟩ := List.forall_mem_cons.1 h
    rw [solveFrom]
    split
    · exact ⟨[], rfl⟩
    · next r hr =>
      obtain ⟨js, hjs⟩ := Clause.exists_join_iff.2 fun b (_ : b ∈ bs) =>
        Clause.exists_step_of_fits (hc r hr) b
      rw [hjs]
      exact ih hrule js

/-- Fewer bindings and fewer rows are joined without fail if more are. -/
theorem exists_solveFrom_of_widens {s t : Store} {rule : Rule} (h : ∀ c ∈ rule, p.Widens s t c)
    {bs bs' : List Binding} (hbs : ∀ b ∈ bs, ∃ b' ∈ bs', b.get? = b'.get?)
    (hok : ∃ cs, p.solveFrom t rule bs' = .ok cs) : ∃ cs, p.solveFrom s rule bs = .ok cs := by
  induction rule generalizing bs bs' with
  | nil => exact ⟨bs, rfl⟩
  | cons c rule ih =>
    obtain ⟨hc, hrule⟩ := List.forall_mem_cons.1 h
    rw [solveFrom]
    cases hr : p.resolve? s c.relation with
    | none => exact ⟨[], rfl⟩
    | some r =>
      obtain ⟨r', hr', hsub, hneg⟩ := hc r hr
      obtain ⟨cs, hok⟩ := hok
      rw [solveFrom, hr'] at hok
      obtain ⟨js', hjs', hrest⟩ := bind_eq_ok_iff.1 hok
      obtain ⟨js, hjs⟩ : ∃ js, c.join r.facts bs = .ok js := by
        refine Clause.exists_join_iff.2 fun b hb => ?_
        obtain ⟨b', hb', e⟩ := hbs b hb
        have hstep := Clause.exists_join_iff.1 ⟨js', hjs'⟩ b' hb'
        exact Clause.exists_step_of_subset hsub (fun hn => congrArg _ (hneg hn)) e hstep
      -- The bindings that come out here are among those that come out there.
      have hsubset : ∀ b ∈ js, ∃ b' ∈ js', b.get? = b'.get? := by
        intro b hb
        have hmem : b.get? ∈ js.map Table.get? := List.mem_map.2 ⟨b, hb, rfl⟩
        obtain ⟨v, hv, hsat⟩ := (Clause.mem_join (sees_of_resolve? hr) hjs).1 hmem
        obtain ⟨b₀, hb₀, rfl⟩ := List.mem_map.1 hv
        obtain ⟨b₀', hb₀', e⟩ := hbs b₀ hb₀
        have hmem' : b.get? ∈ js'.map Table.get? :=
          (Clause.mem_join (sees_of_resolve? hr') hjs').2
            ⟨b₀.get?, e ▸ List.mem_map.2 ⟨b₀', hb₀', rfl⟩, hsat.mono (hc.leAt hr)⟩
        obtain ⟨b', hb', e'⟩ := List.mem_map.1 hmem'
        exact ⟨b', hb', e'.symm⟩
      obtain ⟨ds, hds⟩ := ih hrule hsubset ⟨cs, hrest⟩
      exact ⟨ds, bind_eq_ok_iff.2 ⟨js, hjs, hds⟩⟩

/-! ## One predicate after another -/

theorem exists_deriveRules_iff (s : Store) (head : List String) {rules : List Rule} :
    (∃ fs, p.deriveRules s head rules = .ok fs) ↔ ∀ rule ∈ rules, ∃ bs, p.solve s rule = .ok bs := by
  induction rules with
  | nil => exact ⟨fun _ => List.forall_mem_nil _, fun _ => ⟨[], rfl⟩⟩
  | cons rule rules ih =>
    have hrule : (∃ fs, p.deriveRule s head rule = .ok fs) ↔ ∃ bs, p.solve s rule = .ok bs :=
      exists_map_eq_ok_iff
    rw [List.forall_mem_cons, ← ih, ← hrule, deriveRules]
    exact exists_pair_eq_ok_iff

theorem exists_derive_iff {s : Store} {pred : Predicate} :
    (∃ r, p.derive s pred = .ok r) ↔ ∀ rule ∈ pred.rules, ∃ bs, p.solve s rule = .ok bs := by
  rw [← exists_deriveRules_iff s pred.args, derive]
  exact exists_map_eq_ok_iff

/-- **What does not fail on a store does not fail on a narrower one.** -/
theorem exists_derive_of_widens {s t : Store} {pred : Predicate}
    (h : ∀ rule ∈ pred.rules, ∀ c ∈ rule, p.Widens s t c) (hok : ∃ r, p.derive t pred = .ok r) :
    ∃ r, p.derive s pred = .ok r := by
  refine exists_derive_iff.2 fun rule hr => ?_
  refine exists_solveFrom_of_widens (h rule hr) ?_ (exists_derive_iff.1 hok rule hr)
  exact fun b hb => ⟨b, hb, rfl⟩

/-! ## Arities -/

/-- The facts, heads and clauses of each name have the arity given to it. -/
def FitsArities (p : Program) (arity : String → Nat) : Prop :=
  (∀ e ∈ p.relations, ∀ f ∈ e.2.facts, f.length = arity e.1) ∧
    ∀ e ∈ p.predicates, e.2.arity = arity e.1 ∧
      ∀ rule ∈ e.2.rules, ∀ c ∈ rule, c.arity = arity c.relation

instance (p : Program) (arity : String → Nat) : Decidable (p.FitsArities arity) :=
  inferInstanceAs (Decidable ((∀ e ∈ p.relations, ∀ f ∈ e.2.facts, f.length = arity e.1) ∧
    ∀ e ∈ p.predicates, e.2.arity = arity e.1 ∧
      ∀ rule ∈ e.2.rules, ∀ c ∈ rule, c.arity = arity c.relation))

/-- Each name has one arity. -/
def ArityConsistent (p : Program) : Prop :=
  ∃ arity, p.FitsArities arity

theorem FitsArities.fits_of_reaches {arity : String → Nat} (h : p.FitsArities arity) {s t : Store}
    (hs : s.Fits arity) (hst : p.Reaches s t) : t.Fits arity := by
  induction hst with
  | refl => exact hs
  | tail _ hc ih =>
    obtain ⟨n, pred, hm, ⟨r, hr, hder, -⟩, hother⟩ := exists_of_changes hc
    intro name f hf
    by_cases e : name = n
    · subst e
      rw [Store.factsOf_of_entry hr, hder] at hf
      exact hf.length_eq.trans (h.2 _ hm).1
    · rw [Store.factsOf_congr (hother name e)] at hf
      exact ih name f hf

/-- **With one arity for each name nothing fails.** -/
theorem FitsArities.exists_derive {arity : String → Nat} (h : p.FitsArities arity) {s : Store}
    (hs : s.Fits arity) {name : String} {pred : Predicate} (hm : (name, pred) ∈ p.predicates) :
    ∃ r, p.derive s pred = .ok r := by
  refine exists_derive_iff.2 fun rule hr => exists_solveFrom_of_fits (fun c hc r hres row hrow => ?_) _
  rw [(h.2 (name, pred) hm).2 rule hr c hc]
  cases hget : s.get? c.relation with
  | some r' =>
    rw [resolve?_of_entry hget] at hres
    cases hres
    rw [← Store.factsOf_of_entry hget] at hrow
    exact (hs _ _ hrow).symm
  | none =>
    rw [resolve?_of_no_entry hget] at hres
    obtain ⟨node, hnode, hrel⟩ := Option.bind_eq_some_iff.1 hres
    cases node with
    | relation r' =>
      cases hrel
      exact (h.1 (c.relation, r) (mem_relations_iff.2 hnode) row hrow).symm
    | predicate q => cases hrel

theorem FitsArities.derive_ne_error {arity : String → Nat} (h : p.FitsArities arity) {s t : Store}
    (hs : s.Fits arity) (hst : p.Reaches s t) {name : String} {pred : Predicate}
    (hm : (name, pred) ∈ p.predicates) (err : UnifyError) : p.derive t pred ≠ .error err := by
  intro herr
  obtain ⟨r, hr⟩ := h.exists_derive (h.fits_of_reaches hs hst) hm
  rw [herr] at hr
  cases hr

theorem FitsArities.exists_round {arity : String → Nat} (h : p.FitsArities arity) {s : Store}
    (hs : s.Fits arity) : ∃ t changed, p.round s = .ok (t, changed) := by
  cases hr : p.round s with
  | ok next => exact ⟨_, _, rfl⟩
  | error err =>
    obtain ⟨t, name, pred, hst, hm, herr⟩ := exists_of_sweep_error (fun _ he => he) hr
    exact absurd herr (h.derive_ne_error hs hst hm err)

theorem FitsArities.run_ne_failed {arity : String → Nat} (h : p.FitsArities arity) {s : Store}
    (hs : s.Fits arity) (n : Nat) (err : UnifyError) : (p.run n s).ending ≠ .failed err := by
  intro hfail
  obtain ⟨t, name, pred, hst, hm, herr⟩ := exists_of_run_failed hfail
  exact h.derive_ne_error hs hst hm err herr

theorem FitsArities.settled_of_ne_capReached {arity : String → Nat} (h : p.FitsArities arity)
    {s : Store} (hs : s.Fits arity) {n : Nat} (hn : (p.run n s).ending ≠ .capReached) :
    (p.run n s).ending = .settled := by
  cases hend : (p.run n s).ending with
  | settled => rfl
  | capReached => exact absurd hend hn
  | failed err => exact absurd hend (h.run_ne_failed hs n err)

theorem FitsArities.evaluate_ne_unify {arity : String → Nat} (h : p.FitsArities arity)
    (h₀ : p.computed = ∅) (e : Evaluator) (err : UnifyError) : (e.evaluate p).1 ≠ .error (.unify err) := by
  intro herr
  rcases evaluate_cases e p with ⟨t, ht, -⟩ | hcap | ⟨err', -, t, name, pred, hreach, hm, hfail⟩
  · rw [herr] at ht
    cases ht
  · rw [evaluate_of_capReached hcap] at herr
    cases herr
  · rw [h₀] at hreach
    exact h.derive_ne_error (Store.fits_empty arity) hreach hm err' hfail

end Program

end Verdict

import Mathlib.Data.Finset.Lattice.Lemmas
import Verdict.Proofs.Evaluation.ClauseOrder
import Verdict.Proofs.Evaluation.Failure

/-!
# The solutions of a rule

A body is joined clause by clause, and what has come out in the end can be said of the body as a whole.
A valuation *satisfies* a rule (`Program.Satisfies`) when it gives terms to the variables of the positive
clauses and to no others, makes each of these clauses a row of its relation, and leaves no row to be
matched by a negated clause, whatever the variables might stand for that are still open there.

> A rule is solved where the rows have the length of their clauses. Its solutions are the valuations that
> satisfy it, and none of them comes out twice (`Program.solve_exact`).

That none comes out twice is a matter of what is bound. All bindings that a clause is joined with bind
the same variables (`Valuation.Binds`), so what a row makes of one of them still tells that binding and
the row (`Clause.nodup_join`).
-/

namespace Verdict

variable {α : Type}

namespace Valuation

/-- The valuation gives terms to just these variables. -/
def Binds (v : Valuation α) (bound : Finset String) : Prop :=
  ∀ x, (∃ t, v x = some t) ↔ x ∈ bound

theorem binds_empty : (empty : Valuation α).Binds ∅ := by
  intro x
  simp [empty]

/-- What a larger valuation gives to the bound variables is all there is to it. -/
theorem Binds.eq_on {v w : Valuation α} {bound : Finset String} (h : v.Binds bound) (hle : v.Le w) :
    v = w.on bound := by
  funext x
  refine Option.ext fun t => ?_
  rw [on_eq_some_iff]
  constructor
  · intro hx
    exact ⟨(h x).1 ⟨t, hx⟩, hle x t hx⟩
  · intro hx
    obtain ⟨hb, hx⟩ := hx
    obtain ⟨s, hs⟩ := (h x).2 hb
    rw [hs, ← hx, hle x s hs]

theorem Matches.binds {v w : Valuation α} {pattern : List (Term α)} {row : Fact α}
    {bound : Finset String} (h : v.Matches pattern row w) (hv : v.Binds bound) :
    w.Binds (bound ∪ (Term.vars pattern).toFinset) := by
  intro x
  rw [Finset.mem_union, List.mem_toFinset, Term.mem_vars]
  constructor
  · intro hx
    obtain ⟨t, ht⟩ := hx
    exact (h.least x t ht).imp (fun hvx => (hv x).1 ⟨t, hvx⟩) id
  · intro hx
    rcases hx with hx | hx
    · obtain ⟨t, ht⟩ := (hv x).2 hx
      exact ⟨t, h.le x t ht⟩
    · obtain ⟨t, -, ht⟩ := h.maps.exists_of_var hx
      exact ⟨t, ht⟩

/-- A valuation makes one row of a pattern. -/
theorem Maps.unique {v : Valuation α} {pattern : List (Term α)} {row row' : Fact α}
    (h : v.Maps pattern row) (h' : v.Maps pattern row') : row = row' :=
  List.map_injective_iff.2 (Option.some_injective _) (h.symm.trans h')

end Valuation

/-! ## What is bound -/

/-- The variables that are bound behind a clause. -/
def Clause.boundAfter (c : Clause α) (bound : Finset String) : Finset String :=
  if c.negated then bound else bound ∪ c.vars.toFinset

theorem Clause.Sat.binds {V : View α} {c : Clause α} {v w : Valuation α} {bound : Finset String}
    (h : c.Sat V v w) (hv : v.Binds bound) : w.Binds (c.boundAfter bound) := by
  unfold boundAfter
  cases hn : c.negated with
  | true =>
    obtain ⟨rfl, -⟩ := (sat_of_negated hn).1 h
    exact hv
  | false =>
    obtain ⟨row, -, hm⟩ := (sat_of_positive hn).1 h
    exact hm.binds hv

theorem Clause.Sat.known {p : Program α} {store : Store α} {c : Clause α} {v w : Valuation α}
    (h : c.Sat (p.view store) v w) : ∃ r, p.resolve? store c.relation = some r := by
  cases hn : c.negated with
  | true =>
    obtain ⟨-, hk, -⟩ := (sat_of_negated hn).1 h
    exact Option.isSome_iff_exists.1 hk
  | false =>
    obtain ⟨row, ⟨r, hr, -⟩, -⟩ := (sat_of_positive hn).1 h
    exact ⟨r, hr⟩

/-- There is no way past a name that nothing is known about. -/
theorem Rule.Sat.known {p : Program α} {store : Store α} {rule : Rule α} {v w : Valuation α}
    (h : Rule.Sat (p.view store) rule v w) :
    ∀ c ∈ rule, ∃ r, p.resolve? store c.relation = some r := by
  induction rule generalizing v with
  | nil => exact List.forall_mem_nil _
  | cons c rule ih =>
    obtain ⟨u, hu, hr⟩ := h
    exact List.forall_mem_cons.2 ⟨hu.known, ih hr⟩

/-! ## No solution comes out twice -/

section Nodup

open Verdict.Valuation

variable [DecidableEq α]

/-- Different rows extend a binding in different ways. -/
theorem Binding.nodup_extensions {b : Binding α} {pattern : List (Term α)} {rows : List (Fact α)}
    {bs : List (Binding α)} (h : b.extensions pattern rows = .ok bs) (hrows : rows.Nodup) :
    (bs.map Table.get?).Nodup := by
  induction rows generalizing bs with
  | nil =>
    cases h
    exact List.nodup_nil
  | cons row rows ih =>
    rw [extensions] at h
    obtain ⟨found, hfound, h⟩ := bind_eq_ok_iff.1 h
    obtain ⟨rest, hrest, h⟩ := bind_eq_ok_iff.1 h
    rw [pure_eq_ok_iff] at h
    subst h
    obtain ⟨hrow, hrows⟩ := List.nodup_cons.1 hrows
    have hlater := ih hrest hrows
    cases found with
    | none => simpa using hlater
    | some b' =>
      refine List.nodup_cons.2 ⟨fun hmem => ?_, hlater⟩
      obtain ⟨row', hrow', hm'⟩ := (mem_extensions hrest).1 hmem
      have hm := unify_matches hfound
      exact hrow (hm.maps.unique hm'.maps ▸ hrow')

namespace Clause

theorem nodup_step {c : Clause α} {facts : List (Fact α)} {b : Binding α} {cs : List (Binding α)}
    (h : c.step facts b = .ok cs) (hfacts : facts.Nodup) : (cs.map Table.get?).Nodup := by
  unfold step at h
  split at h
  · obtain ⟨found, -, h⟩ := bind_eq_ok_iff.1 h
    rw [pure_eq_ok_iff] at h
    subst h
    cases found with
    | true => exact List.nodup_nil
    | false => exact List.nodup_singleton _
  · exact Binding.nodup_extensions h hfacts

/-- **A join keeps different bindings apart**, if all of them bind the same variables. -/
theorem nodup_join {V : View α} {c : Clause α} {facts : List (Fact α)} (hV : c.Sees V facts)
    (hfacts : facts.Nodup) {bound : Finset String} {bs cs : List (Binding α)}
    (h : c.join facts bs = .ok cs) (hbound : ∀ v ∈ bs.map Table.get?, Binds v bound)
    (hbs : (bs.map Table.get?).Nodup) : (cs.map Table.get?).Nodup := by
  induction bs generalizing cs with
  | nil =>
    cases h
    exact List.nodup_nil
  | cons b bs ih =>
    rw [join] at h
    obtain ⟨first, hfirst, h⟩ := bind_eq_ok_iff.1 h
    obtain ⟨rest, hrest, h⟩ := bind_eq_ok_iff.1 h
    rw [pure_eq_ok_iff] at h
    subst h
    rw [List.map_cons] at hbound hbs
    obtain ⟨hb, hbound⟩ := List.forall_mem_cons.1 hbound
    obtain ⟨hnew, hbs⟩ := List.nodup_cons.1 hbs
    rw [List.map_append]
    refine (nodup_step hfirst hfacts).append (ih hrest hbound hbs) ?_
    intro w hw hw'
    -- What came out of two bindings would have their common part in common.
    obtain ⟨v, hv, hsat⟩ := (mem_join hV hrest).1 hw'
    have hsat' := (mem_step hV hfirst).1 hw
    have heq : b.get? = v := (hb.eq_on hsat'.le).trans ((hbound v hv).eq_on hsat.le).symm
    exact hnew (heq ▸ hv)

end Clause

theorem Program.nodup_solveFrom {p : Program α} {store : Store α} {rule : Rule α}
    {bound : Finset String} {bs cs : List (Binding α)} (h : p.solveFrom store rule bs = .ok cs)
    (hbound : ∀ v ∈ bs.map Table.get?, Binds v bound) (hbs : (bs.map Table.get?).Nodup) :
    (cs.map Table.get?).Nodup := by
  induction rule generalizing bs bound with
  | nil =>
    cases h
    exact hbs
  | cons c rule ih =>
    rw [solveFrom] at h
    split at h
    · cases h
      exact List.nodup_nil
    · next r hr =>
      have hV := sees_of_resolve? hr
      obtain ⟨js, hjs, h⟩ := bind_eq_ok_iff.1 h
      have hnext : ∀ w ∈ js.map Table.get?, Binds w (c.boundAfter bound) := by
        intro w hw
        obtain ⟨v, hv, hsat⟩ := (Clause.mem_join hV hjs).1 hw
        exact hsat.binds (hbound v hv)
      exact ih h hnext (Clause.nodup_join hV r.nodup hjs hbound hbs)

end Nodup

/-! ## Which solutions come out -/

/-- The valuation gives terms to just the variables of the positive clauses, it makes each of them a row
of the relation that its name stands for, and no row can be made of a negated clause by any extension of
its part for the variables of the positive clauses in front of it. -/
structure Program.Satisfies (p : Program α) (store : Store α) (rule : Rule α) (w : Valuation α) :
    Prop where
  domain : ∀ x, (∃ t, w x = some t) ↔ ∃ c ∈ rule, c.negated = false ∧ .var x ∈ c.terms
  positive : ∀ c ∈ rule, c.negated = false →
    ∃ r, p.resolve? store c.relation = some r ∧ ∃ row ∈ r, w.Maps c.terms row
  negated : ∀ front c back, rule = front ++ c :: back → c.negated = true →
    ∀ r, p.resolve? store c.relation = some r →
      ∀ row ∈ r, ∀ u, (w.on (Rule.bound front).toFinset).Le u → ¬ u.Maps c.terms row

namespace Rule

theorem mem_positives_iff {rule : Rule α} {c : Clause α} :
    c ∈ positives rule ↔ c ∈ rule ∧ c.negated = false := by
  simp [positives]

/-- A negated clause is read when the positive ones in front of it have bound their variables. -/
theorem mem_denials_iff {rule : Rule α} {bound : Finset String} {d : Clause α × Finset String} :
    d ∈ denials bound rule ↔ ∃ front back, rule = front ++ d.1 :: back ∧ d.1.negated = true ∧
      d.2 = bound ∪ (Rule.bound front).toFinset := by
  induction rule generalizing bound with
  | nil => simp [denials]
  | cons c rule ih =>
    cases hn : c.negated with
    | true =>
      rw [denials_cons_of_negated hn, List.mem_cons, ih]
      constructor
      · intro h
        rcases h with rfl | ⟨front, back, rfl, hd, hb⟩
        · exact ⟨[], rule, rfl, hn, by simp [Rule.bound]⟩
        · exact ⟨c :: front, back, rfl, hd, by rw [hb, bound_cons_of_negated hn]⟩
      · intro h
        obtain ⟨front, back, e, hd, hb⟩ := h
        cases front with
        | nil =>
          obtain ⟨rfl, rfl⟩ := List.cons.inj e
          refine Or.inl (Prod.ext rfl ?_)
          rw [hb, Rule.bound, List.toFinset_nil, Finset.union_empty]
        | cons c' front =>
          obtain ⟨rfl, rfl⟩ := List.cons.inj e
          exact Or.inr ⟨front, back, rfl, hd, by rw [hb, bound_cons_of_negated hn]⟩
    | false =>
      have hbound (front : Rule α) : bound ∪ c.vars.toFinset ∪ (Rule.bound front).toFinset =
          bound ∪ (Rule.bound (c :: front)).toFinset := by
        ext x
        simp only [Finset.mem_union, List.mem_toFinset, mem_bound_cons_of_positive hn, or_assoc]
      rw [denials_cons_of_positive hn, ih]
      constructor
      · intro h
        obtain ⟨front, back, rfl, hd, hb⟩ := h
        exact ⟨c :: front, back, rfl, hd, hb.trans (hbound front)⟩
      · intro h
        obtain ⟨front, back, e, hd, hb⟩ := h
        cases front with
        | nil =>
          -- The clause at the front is a positive one.
          obtain ⟨rfl, rfl⟩ := List.cons.inj e
          rw [hn] at hd
          cases hd
        | cons c' front =>
          obtain ⟨rfl, rfl⟩ := List.cons.inj e
          exact ⟨front, back, rfl, hd, hb.trans (hbound front).symm⟩

end Rule

namespace Program

variable {p : Program α} {store : Store α} {rule : Rule α} {w : Valuation α}

/-- The ways through a body whose names are known end with the valuations that satisfy it. -/
theorem sat_iff_satisfies (hknown : ∀ c ∈ rule, ∃ r, p.resolve? store c.relation = some r) :
    Rule.Sat (p.view store) rule .empty w ↔ p.Satisfies store rule w := by
  rw [Rule.sat_iff]
  constructor
  · intro h
    obtain ⟨hdom, hpos, hneg⟩ := h
    refine ⟨fun x => ⟨fun hx => ?_, fun hx => ?_⟩, fun c hc hn => ?_, ?_⟩
    · obtain ⟨t, ht⟩ := hx
      obtain ⟨c, hc, hxc⟩ := Rule.mem_bound_iff.1 (hdom x t ht)
      exact ⟨c, (Rule.mem_positives_iff.1 hc).1, (Rule.mem_positives_iff.1 hc).2, hxc⟩
    · obtain ⟨c, hc, hn, hxc⟩ := hx
      obtain ⟨row, -, hm⟩ := hpos c (Rule.mem_positives_iff.2 ⟨hc, hn⟩)
      obtain ⟨t, -, ht⟩ := hm.exists_of_var hxc
      exact ⟨t, ht⟩
    · obtain ⟨row, ⟨r, hr, hrow⟩, hm⟩ := hpos c (Rule.mem_positives_iff.2 ⟨hc, hn⟩)
      exact ⟨r, hr, row, hrow, hm⟩
    · intro front c back e hn r hr row hrow
      have hd : (c, (Rule.bound front).toFinset) ∈ Rule.denials ∅ rule :=
        Rule.mem_denials_iff.2 ⟨front, back, e, hn, (Finset.empty_union _).symm⟩
      exact (hneg _ hd).2 row ⟨r, hr, hrow⟩
  · intro h
    refine ⟨fun x t ht => ?_, fun c hc => ?_, fun d hd => ?_⟩
    · obtain ⟨c, hc, hn, hxc⟩ := (h.domain x).1 ⟨t, ht⟩
      exact Rule.mem_bound_iff.2 ⟨c, Rule.mem_positives_iff.2 ⟨hc, hn⟩, hxc⟩
    · obtain ⟨hc, hn⟩ := Rule.mem_positives_iff.1 hc
      obtain ⟨r, hr, row, hrow, hm⟩ := h.positive c hc hn
      exact ⟨row, ⟨r, hr, hrow⟩, hm⟩
    · obtain ⟨front, back, e, hn, hb⟩ := Rule.mem_denials_iff.1 hd
      rw [Finset.empty_union] at hb
      have hmem : d.1 ∈ rule := e ▸ List.mem_append_right _ List.mem_cons_self
      refine ⟨Option.isSome_iff_exists.2 (hknown _ hmem), fun row hrow u hu => ?_⟩
      obtain ⟨r, hr, hrow⟩ := hrow
      exact h.negated front d.1 back e hn r hr row hrow u (hb ▸ hu)

/-- **A rule is solved by the valuations that satisfy it, each once.** Bindings are compared by what they
give to the variables. A rule over a name that nothing is known about has no solution. -/
theorem solve_exact (p : Program) (store : Store) (rule : Rule) :
    ((∀ c ∈ rule, ∀ r, p.resolve? store c.relation = some r → ∀ row ∈ r, c.arity = row.length) →
      ∃ bs, p.solve store rule = .ok bs) ∧
    ∀ bs, p.solve store rule = .ok bs → (bs.map Table.get?).Nodup ∧
      ((∀ c ∈ rule, ∃ r, p.resolve? store c.relation = some r) →
        ∀ w, w ∈ bs.map Table.get? ↔ p.Satisfies store rule w) ∧
      ((∃ c ∈ rule, p.resolve? store c.relation = none) → bs = []) := by
  refine ⟨fun harity => exists_solveFrom_of_fits harity [∅], fun bs hbs => ⟨?_, fun hknown w => ?_, ?_⟩⟩
  · have hempty : ∀ v ∈ [(∅ : Binding)].map Table.get?, Valuation.Binds v ∅ := by
      intro v hv
      obtain rfl := List.mem_singleton.1 hv
      exact Valuation.binds_empty
    exact nodup_solveFrom hbs hempty (List.nodup_singleton _)
  · rw [mem_solve hbs]
    exact sat_iff_satisfies hknown
  · intro hunknown
    obtain ⟨c, hc, hnone⟩ := hunknown
    refine List.eq_nil_iff_forall_not_mem.2 fun b hb => ?_
    have hsat := (mem_solve hbs).1 (List.mem_map_of_mem hb)
    obtain ⟨r, hr⟩ := hsat.known c hc
    rw [hnone] at hr
    cases hr

/-- A family of three, by who is a parent of whom. -/
def family : Program where
  nodes := .ofList
    [("person", .relation (.ofRows [[.text "ann"], [.text "bob"], [.text "cid"]])),
     ("parent", .relation (.ofRows
       [[.text "ann", .text "bob"], [.text "ann", .text "cid"], [.text "bob", .text "cid"]]))]

/-- A child of someone who has no parent, and any person. The variable of that person is still open
where the parent is denied. -/
def firstChild : Rule :=
  [⟨"parent", [.var "X", .var "Y"], false⟩, ⟨"parent", [.var "Z", .var "X"], true⟩,
   ⟨"person", [.var "Z"], false⟩]

theorem solve_exact_firstChild :
    (∀ c ∈ firstChild, ∀ r, family.resolve? ∅ c.relation = some r → ∀ row ∈ r,
      c.arity = row.length) ∧
      (∀ c ∈ firstChild, ∃ r, family.resolve? ∅ c.relation = some r) ∧
      ∃ bs, family.solve ∅ firstChild = .ok bs ∧ bs.length = 6 ∧ (bs.map Table.get?).Nodup ∧
        ∀ w, w ∈ bs.map Table.get? ↔ family.Satisfies ∅ firstChild w := by
  have harity : ∀ c ∈ firstChild, ∀ r, family.resolve? ∅ c.relation = some r → ∀ row ∈ r,
      c.arity = row.length := by
    have hrows : ∀ c ∈ firstChild, ∀ r ∈ (family.resolve? ∅ c.relation).toList, ∀ row ∈ r.facts,
        c.arity = row.length := by decide
    exact fun c hc r hr => hrows c hc r (Option.mem_toList.2 hr)
  have hknown : ∀ c ∈ firstChild, ∃ r, family.resolve? ∅ c.relation = some r := by
    have hsome : ∀ c ∈ firstChild, (family.resolve? ∅ c.relation).isSome := by decide
    exact fun c hc => Option.isSome_iff_exists.1 (hsome c hc)
  obtain ⟨hreturn, hexact⟩ := solve_exact family ∅ firstChild
  obtain ⟨bs, hbs⟩ := hreturn harity
  obtain ⟨hnodup, hmem, -⟩ := hexact bs hbs
  have hlength : bs.length = 6 := by
    have hrun : (family.solve ∅ firstChild).map List.length = .ok 6 := by decide
    rw [hbs] at hrun
    exact Except.ok.inj hrun
  exact ⟨harity, hknown, bs, hbs, hlength, hnodup, hmem hknown⟩

end Program

end Verdict

import Mathlib.Data.Finset.Basic
import Verdict.Proofs.Evaluation.Instances

/-!
# The order of clauses

A body is read from left to right, but all that is left of its order in the end is which variables are
bound when a denial is read. What is open there may stand for anything; what is bound stands for what it
stands for in the end.

> A valuation is a way through a body iff it gives terms to the variables of the positive clauses and to
> no others, each positive clause becomes a fact under it, and under its part for the variables bound in
> front of a negated clause no fact matches that clause (`Rule.sat_iff`).

The right-hand side speaks of the positive clauses as a set, and of the negated ones as a set of pairs.
So bodies that have the same of both are passed by the same valuations (`Rule.sat_iff_of_reordered`).
-/

namespace Verdict

variable {α : Type}

/-- What the negated clause asks for when it is read under a valuation. -/
def Clause.Denied (V : View α) (c : Clause α) (v : Valuation α) : Prop :=
  V.Known c.relation ∧ ∀ row, V.Holds c.relation row → ∀ u, v.Le u → ¬ u.Maps c.terms row

namespace Rule

def positives (rule : Rule α) : List (Clause α) :=
  rule.filter fun c => !c.negated

/-- The negated clauses, each with the variables that are bound when it is read. -/
def denials (bound : Finset String) : Rule α → List (Clause α × Finset String)
  | [] => []
  | c :: rule =>
    if c.negated then (c, bound) :: denials bound rule else denials (bound ∪ c.vars.toFinset) rule

/-- The clauses of one body in another order, such that the same variables are bound whenever a negated
one is read. -/
structure Reordered (r r' : Rule α) : Prop where
  clauses : r.Perm r'
  denials : (denials ∅ r).Perm (denials ∅ r')

instance [DecidableEq α] (r r' : Rule α) : Decidable (Reordered r r') :=
  decidable_of_iff (r.Perm r' ∧ (denials ∅ r).Perm (denials ∅ r'))
    ⟨fun h => ⟨h.1, h.2⟩, fun h => ⟨h.clauses, h.denials⟩⟩

end Rule

namespace Valuation

/-- The part of a valuation for the given variables. -/
def on (w : Valuation α) (bound : Finset String) : Valuation α :=
  fun x => if x ∈ bound then w x else none

theorem on_of_mem {w : Valuation α} {bound : Finset String} {x : String} (h : x ∈ bound) :
    w.on bound x = w x := if_pos h

theorem on_eq_some_iff {w : Valuation α} {bound : Finset String} {x : String} {t : Term α} :
    w.on bound x = some t ↔ x ∈ bound ∧ w x = some t := by
  rw [on]
  split
  · next h => simp [h]
  · next h => simp [h]

theorem on_empty (w : Valuation α) : w.on ∅ = empty := by
  funext x
  rw [on, if_neg (Finset.notMem_empty x), empty]

theorem eq_on_iff {w : Valuation α} {bound : Finset String} :
    w = w.on bound ↔ ∀ x t, w x = some t → x ∈ bound := by
  constructor
  · intro h x t hx
    rw [h, on_eq_some_iff] at hx
    exact hx.1
  · intro h
    funext x
    refine Option.ext fun t => ?_
    rw [on_eq_some_iff]
    exact ⟨fun hx => ⟨h x t hx, hx⟩, And.right⟩

/-- What matches a pattern on the way to `w` goes on with the part of `w` for the variables of the pattern
as well. -/
theorem matches_on {w : Valuation α} {bound : Finset String} {pattern : List (Term α)} {row : Fact α}
    (h : w.Maps pattern row) :
    (w.on bound).Matches pattern row (w.on (bound ∪ (Term.vars pattern).toFinset)) := by
  have hmem {x : String} : x ∈ bound ∪ (Term.vars pattern).toFinset ↔ x ∈ bound ∨ .var x ∈ pattern := by
    rw [Finset.mem_union, List.mem_toFinset, Term.mem_vars]
  refine ⟨fun x t hx => ?_, h.congr fun x hx => (on_of_mem (hmem.2 (Or.inr hx))).symm, fun x t hx => ?_⟩
  · rw [on_eq_some_iff] at hx ⊢
    exact ⟨hmem.2 (Or.inl hx.1), hx.2⟩
  · rw [on_eq_some_iff, hmem] at hx
    rw [on_eq_some_iff]
    exact hx.1.imp (fun hb => ⟨hb, hx.2⟩) id

end Valuation

theorem Clause.Sat.le {V : View α} {c : Clause α} {v w : Valuation α} (h : c.Sat V v w) : v.Le w := by
  cases hn : c.negated with
  | true =>
    obtain ⟨rfl, -⟩ := (sat_of_negated hn).1 h
    exact .refl w
  | false =>
    obtain ⟨row, -, hm⟩ := (sat_of_positive hn).1 h
    exact hm.le

namespace Rule

open Verdict.Valuation

theorem positives_cons_of_negated {c : Clause α} {rule : Rule α} (h : c.negated = true) :
    positives (c :: rule) = positives rule :=
  List.filter_cons_of_neg (by simp [h])

theorem positives_cons_of_positive {c : Clause α} {rule : Rule α} (h : c.negated = false) :
    positives (c :: rule) = c :: positives rule :=
  List.filter_cons_of_pos (by simp [h])

theorem denials_cons_of_negated {bound : Finset String} {c : Clause α} {rule : Rule α}
    (h : c.negated = true) : denials bound (c :: rule) = (c, bound) :: denials bound rule := by
  rw [denials, if_pos h]

theorem denials_cons_of_positive {bound : Finset String} {c : Clause α} {rule : Rule α}
    (h : c.negated = false) :
    denials bound (c :: rule) = denials (bound ∪ c.vars.toFinset) rule := by
  rw [denials, h, if_neg Bool.false_ne_true]

theorem mem_bound_iff {rule : Rule α} {x : String} :
    x ∈ Rule.bound rule ↔ ∃ c ∈ positives rule, .var x ∈ c.terms := by
  induction rule with
  | nil => simp [Rule.bound, positives]
  | cons c rule ih =>
    cases hn : c.negated with
    | true => rw [bound_cons_of_negated hn, positives_cons_of_negated hn, ih]
    | false =>
      rw [bound_cons_of_positive hn, positives_cons_of_positive hn, List.mem_append, ih,
        Term.mem_filterMap_var?, List.exists_mem_cons_iff]

theorem mem_bound_cons_of_positive {c : Clause α} {rule : Rule α} (h : c.negated = false) {x : String} :
    x ∈ Rule.bound (c :: rule) ↔ x ∈ c.vars ∨ x ∈ Rule.bound rule := by
  rw [bound_cons_of_positive h, List.mem_append, Term.mem_filterMap_var?, Clause.vars, Term.mem_vars]

/-- On a way through a body nothing is taken back. -/
theorem Sat.le {V : View α} {rule : Rule α} {v w : Valuation α} (h : Rule.Sat V rule v w) : v.Le w := by
  induction rule generalizing v with
  | nil =>
    cases h
    exact Le.refl w
  | cons c rule ih =>
    obtain ⟨u, hu, hr⟩ := h
    exact hu.le.trans (ih hr)

/-- The way through a body from the part of `w` for the variables bound so far. -/
theorem sat_on_iff {V : View α} {rule : Rule α} {bound : Finset String} {w : Valuation α} :
    Rule.Sat V rule (w.on bound) w ↔
      (∀ x t, w x = some t → x ∈ bound ∨ x ∈ Rule.bound rule) ∧
        (∀ c ∈ positives rule, ∃ row, V.Holds c.relation row ∧ w.Maps c.terms row) ∧
          ∀ d ∈ denials bound rule, d.1.Denied V (w.on d.2) := by
  induction rule generalizing bound with
  | nil => simp [Rule.Sat, Rule.bound, positives, denials, eq_on_iff]
  | cons c rule ih =>
    cases hn : c.negated with
    | true =>
      rw [bound_cons_of_negated hn, positives_cons_of_negated hn, denials_cons_of_negated hn,
        List.forall_mem_cons]
      constructor
      · intro h
        obtain ⟨u, hu, hr⟩ := h
        obtain ⟨rfl, hdenied⟩ := (Clause.sat_of_negated hn).1 hu
        obtain ⟨hdom, hpos, hneg⟩ := ih.1 hr
        exact ⟨hdom, hpos, hdenied, hneg⟩
      · intro h
        obtain ⟨hdom, hpos, hdenied, hneg⟩ := h
        exact ⟨w.on bound, (Clause.sat_of_negated hn).2 ⟨rfl, hdenied⟩, ih.2 ⟨hdom, hpos, hneg⟩⟩
    | false =>
      have hmem (x : String) : x ∈ bound ∨ x ∈ Rule.bound (c :: rule) ↔
          x ∈ bound ∪ c.vars.toFinset ∨ x ∈ Rule.bound rule := by
        rw [mem_bound_cons_of_positive hn, Finset.mem_union, List.mem_toFinset, or_assoc]
      simp only [hmem, positives_cons_of_positive hn, denials_cons_of_positive hn, List.forall_mem_cons]
      constructor
      · intro h
        obtain ⟨u, hu, hr⟩ := h
        obtain ⟨row, hrow, hm⟩ := (Clause.sat_of_positive hn).1 hu
        have hmaps : w.Maps c.terms row := hm.maps.of_le hr.le
        -- What the clause binds is what its variables stand for in the end.
        obtain rfl : u = w.on (bound ∪ c.vars.toFinset) := hm.unique (matches_on hmaps)
        obtain ⟨hdom, hpos, hneg⟩ := ih.1 hr
        exact ⟨hdom, ⟨⟨row, hrow, hmaps⟩, hpos⟩, hneg⟩
      · intro h
        obtain ⟨hdom, ⟨⟨row, hrow, hmaps⟩, hpos⟩, hneg⟩ := h
        exact ⟨w.on (bound ∪ c.vars.toFinset),
          (Clause.sat_of_positive hn).2 ⟨row, hrow, matches_on hmaps⟩, ih.2 ⟨hdom, hpos, hneg⟩⟩

/-- **The ways through a body, without the order of its positive clauses.** -/
theorem sat_iff {V : View α} {rule : Rule α} {w : Valuation α} :
    Rule.Sat V rule .empty w ↔
      (∀ x t, w x = some t → x ∈ Rule.bound rule) ∧
        (∀ c ∈ positives rule, ∃ row, V.Holds c.relation row ∧ w.Maps c.terms row) ∧
          ∀ d ∈ denials ∅ rule, d.1.Denied V (w.on d.2) := by
  rw [← on_empty w, sat_on_iff]
  simp only [Finset.notMem_empty, false_or]

/-- **The same valuations pass a body and a reordering of it.** -/
theorem sat_iff_of_reordered {r r' : Rule α} (h : Reordered r r') {V : View α} {w : Valuation α} :
    Rule.Sat V r .empty w ↔ Rule.Sat V r' .empty w := by
  have hpos (c : Clause α) : c ∈ positives r ↔ c ∈ positives r' := (h.clauses.filter _).mem_iff
  have hneg (d : Clause α × Finset String) : d ∈ denials ∅ r ↔ d ∈ denials ∅ r' := h.denials.mem_iff
  have hbound (x : String) : x ∈ Rule.bound r ↔ x ∈ Rule.bound r' := by
    simp only [mem_bound_iff, hpos]
  simp only [Rule.sat_iff, hpos, hneg, hbound]

end Rule

end Verdict

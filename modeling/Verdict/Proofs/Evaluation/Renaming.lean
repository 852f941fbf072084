import Mathlib.Data.List.Forall2
import Mathlib.Data.Set.Function
import Verdict.Evaluation.Rule
import Verdict.Proofs.Result
import Verdict.Syntax.Alignment

/-!
# Renamed rules

What the variables of a rule are called does not matter, as long as different ones keep different names.

> A rule whose head and body are renamed by a map that is one to one on its variables derives the same
> facts in the same order, or fails with the same error (`Program.deriveRule_rename`).

Both evaluations go through the same steps. A binding of the renamed rule *renames* one of the rule
(`Binding.Renames`): it gives to the new name of a variable what the other gives to the variable. Since
bindings are only ever looked up, the order in which they came about plays no part.
-/

namespace Verdict

variable {α : Type} {f : String → String} {names : Set String}

/-- The binding `b'` gives to the new names of the variables what `b` gives to the variables. -/
def Binding.Renames (f : String → String) (names : Set String) (b b' : Binding α) : Prop :=
  ∀ x ∈ names, b'.get? (f x) = b.get? x

namespace Binding.Renames

variable {b b' : Binding α}

theorem empty : Renames f names (∅ : Binding α) ∅ := fun _ _ => rfl

/-- A name that is taken by one variable is not looked up for another. -/
theorem insert (hf : names.InjOn f) (h : Renames f names b b') {x : String} (hx : x ∈ names)
    (t : Term α) : Renames f names (b.insert x t) (b'.insert (f x) t) := by
  intro y hy
  by_cases e : y = x
  · subst e
    rw [Table.get?_insert_self, Table.get?_insert_self]
  · have e' : f y ≠ f x := fun he => e (hf hy hx he)
    rw [Table.get?_insert_of_ne e, Table.get?_insert_of_ne e', h y hy]

theorem project (h : Renames f names b b') {head : List String} (hhead : ∀ x ∈ head, x ∈ names) :
    b'.project (head.map f) = b.project head := by
  unfold Binding.project
  induction head with
  | nil => rfl
  | cons x head ih =>
    obtain ⟨hx, hhead⟩ := List.forall_mem_cons.1 hhead
    rw [List.map_cons, List.mapM_cons, List.mapM_cons, h x hx, ih hhead]

end Binding.Renames

/-! ## Step by step -/

variable [DecidableEq α]

namespace Binding.Renames

variable {b b' : Binding α} {pattern : List (Term α)}

theorem unifyFrom (hf : names.InjOn f) (h : Renames f names b b')
    (hp : ∀ x, .var x ∈ pattern → x ∈ names) (row : Fact α) :
    Alike (Option.Rel (Renames f names)) (b.unifyFrom pattern row)
      (b'.unifyFrom (pattern.map (Term.rename f)) row) := by
  induction pattern generalizing b b' row with
  | nil =>
    rw [List.map_nil, Binding.unifyFrom, Binding.unifyFrom]
    · exact .ok (.some h)
    all_goals simp
  | cons t pattern ih =>
    cases row with
    | nil =>
      rw [List.map_cons, Binding.unifyFrom, Binding.unifyFrom]
      · exact .ok (.some h)
      all_goals simp
    | cons v row =>
      have hrest : ∀ x, .var x ∈ pattern → x ∈ names :=
        fun x hx => hp x (List.mem_cons_of_mem t hx)
      cases t with
      | var x =>
        have hx : x ∈ names := hp x List.mem_cons_self
        simp only [List.map_cons, Term.rename, Binding.unifyFrom, h x hx]
        split
        · exact ih (h.insert hf hx v) hrest row
        · split
          · exact ih h hrest row
          · exact .ok .none
      | text s =>
        simp only [List.map_cons, Term.rename, Binding.unifyFrom]
        split
        · exact ih h hrest row
        · exact .ok .none
      | truth s =>
        simp only [List.map_cons, Term.rename, Binding.unifyFrom]
        split
        · exact ih h hrest row
        · exact .ok .none
      | foreign a => exact .error _

theorem unify (hf : names.InjOn f) (h : Renames f names b b')
    (hp : ∀ x, .var x ∈ pattern → x ∈ names) (row : Fact α) :
    Alike (Option.Rel (Renames f names)) (b.unify pattern row)
      (b'.unify (pattern.map (Term.rename f)) row) := by
  unfold Binding.unify
  rw [List.length_map]
  split
  · exact h.unifyFrom hf hp row
  · exact .error _

theorem extensions (hf : names.InjOn f) (h : Renames f names b b')
    (hp : ∀ x, .var x ∈ pattern → x ∈ names) (rows : List (Fact α)) :
    Alike (List.Forall₂ (Renames f names)) (b.extensions pattern rows)
      (b'.extensions (pattern.map (Term.rename f)) rows) := by
  induction rows with
  | nil => exact .ok .nil
  | cons row rows ih =>
    refine (h.unify hf hp row).bind fun found found' hfound => ih.bind fun rest rest' hrest => .ok ?_
    cases hfound with
    | none => exact hrest
    | some hb => exact .cons hb hrest

theorem hasMatch (hf : names.InjOn f) (h : Renames f names b b')
    (hp : ∀ x, .var x ∈ pattern → x ∈ names) (rows : List (Fact α)) :
    Alike Eq (b.hasMatch pattern rows) (b'.hasMatch (pattern.map (Term.rename f)) rows) := by
  induction rows with
  | nil => exact .ok rfl
  | cons row rows ih =>
    refine (h.unify hf hp row).bind fun found found' hfound => ?_
    cases hfound with
    | none => exact ih
    | some _ => exact .ok rfl

theorem step (hf : names.InjOn f) (h : Renames f names b b') {c : Clause α}
    (hc : ∀ x, .var x ∈ c.terms → x ∈ names) (facts : List (Fact α)) :
    Alike (List.Forall₂ (Renames f names)) (c.step facts b) ((c.rename f).step facts b') := by
  unfold Clause.step
  show Alike _ _ (if c.negated then _ else _)
  split
  · refine (h.hasMatch hf hc facts).bind fun found found' e => ?_
    subst e
    cases found with
    | true => exact .ok .nil
    | false => exact .ok (.cons h .nil)
  · exact h.extensions hf hc facts

end Binding.Renames

open Binding (Renames)

theorem Clause.join_rename (hf : names.InjOn f) {c : Clause α}
    (hc : ∀ x, .var x ∈ c.terms → x ∈ names) (facts : List (Fact α)) {bs bs' : List (Binding α)}
    (h : List.Forall₂ (Renames f names) bs bs') :
    Alike (List.Forall₂ (Renames f names)) (c.join facts bs) ((c.rename f).join facts bs') := by
  induction h with
  | nil => exact .ok .nil
  | cons hb _ ih =>
    refine (hb.step hf hc facts).bind fun first first' hfirst => ih.bind fun rest rest' hrest => ?_
    exact .ok (List.rel_append hfirst hrest)

namespace Program

variable {p : Program α} {store : Store α}

theorem solveFrom_rename (hf : names.InjOn f) {body : Rule α}
    (hbody : ∀ c ∈ body, ∀ x, .var x ∈ c.terms → x ∈ names) {bs bs' : List (Binding α)}
    (h : List.Forall₂ (Renames f names) bs bs') :
    Alike (List.Forall₂ (Renames f names)) (p.solveFrom store body bs)
      (p.solveFrom store (body.map (Clause.rename f)) bs') := by
  induction body generalizing bs bs' with
  | nil => exact .ok h
  | cons c body ih =>
    obtain ⟨hc, hbody⟩ := List.forall_mem_cons.1 hbody
    -- The names of relations stay, so both clauses find the same facts.
    have hrelation : (c.rename f).relation = c.relation := rfl
    rw [List.map_cons, solveFrom, solveFrom, hrelation]
    cases p.resolve? store c.relation with
    | none => exact .ok .nil
    | some r => exact (Clause.join_rename hf hc r.facts h).bind fun _ _ hjoin => ih hbody hjoin

/-- **A renamed rule derives the same facts in the same order, or fails with the same error**, if
different variables have different names afterwards. -/
theorem deriveRule_rename (hf : names.InjOn f) {head : List String} {body : Rule α}
    (hhead : ∀ x ∈ head, x ∈ names) (hbody : ∀ c ∈ body, ∀ x, .var x ∈ c.terms → x ∈ names) :
    p.deriveRule store (head.map f) (body.map (Clause.rename f)) = p.deriveRule store head body := by
  have hsolve : Alike (List.Forall₂ (Renames f names)) (p.solve store body)
      (p.solve store (body.map (Clause.rename f))) :=
    solveFrom_rename hf hbody (.cons .empty .nil)
  refine (hsolve.bind fun bs bs' h => .ok ?_).eq.symm
  induction h with
  | nil => rfl
  | cons hb _ ih => rw [List.filterMap_cons, List.filterMap_cons, hb.project hhead, ih]

end Program

end Verdict

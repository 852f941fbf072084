import Verdict.Proofs.Evaluation.Satisfaction

/-!
# Rules by their instances

For most rules the way through the body does not matter. A rule is *safe* when each variable of a
negated clause is bound by a positive clause in front of it. What a safe rule derives can then be said
with one substitution for all variables at once (`Predicate.derives_iff`): the instances of the
positive clauses are facts, and those of the negated ones are not.
-/

namespace Verdict

variable {α : Type}

/-- A term for every variable. -/
abbrev Substitution (α : Type := Empty) := String → Term α

/-- The term under a substitution. -/
def Term.subst (σ : Substitution α) : Term α → Term α
  | .var x => σ x
  | t => t

@[simp] theorem Term.subst_var (σ : Substitution α) (x : String) : (Term.var x).subst σ = σ x := rfl

@[simp] theorem Term.subst_text (σ : Substitution α) (s : String) :
    (Term.text s).subst σ = .text s := rfl

@[simp] theorem Term.subst_truth (σ : Substitution α) (b : Bool) :
    (Term.truth b).subst σ = .truth b := rfl

/-- The instance of the clause is a fact, or, if the clause is negated, is known not to be one. -/
def Clause.Holds (V : View α) (σ : Substitution α) (c : Clause α) : Prop :=
  if c.negated then V.Known c.relation ∧ ¬ V.Holds c.relation (c.terms.map (Term.subst σ))
  else V.Holds c.relation (c.terms.map (Term.subst σ))

/-- With the given variables bound in front, each variable of a negated clause is bound when its clause
is reached. Foreign values do not occur. -/
def Rule.SafeFrom (bound : List String) : Rule α → Prop
  | [] => True
  | c :: rule =>
    (∀ t ∈ c.terms, t.foreign? = none) ∧
      if c.negated then (∀ x, .var x ∈ c.terms → x ∈ bound) ∧ Rule.SafeFrom bound rule
      else Rule.SafeFrom (bound ++ c.terms.filterMap Term.var?) rule

/-- The variables of the positive clauses. -/
def Rule.bound : Rule α → List String
  | [] => []
  | c :: rule =>
    if c.negated then Rule.bound rule else c.terms.filterMap Term.var? ++ Rule.bound rule

/-- The rules are safe, and bind every variable of the head. -/
def Predicate.Safe (pred : Predicate α) : Prop :=
  ∀ rule ∈ pred.rules, Rule.SafeFrom [] rule ∧ ∀ x ∈ pred.args, x ∈ Rule.bound rule

namespace Valuation

/-- Without foreign values, a substitution maps a pattern to its instance. -/
theorem maps_subst {σ : Substitution α} {pattern : List (Term α)}
    (h : ∀ t ∈ pattern, t.foreign? = none) :
    Maps (fun x => some (σ x)) pattern (pattern.map (Term.subst σ)) := by
  rw [Maps, List.map_map]
  apply List.map_congr_left
  intro t ht
  cases t with
  | var x => rfl
  | text _ => rfl
  | truth _ => rfl
  | foreign a => cases h _ ht

/-- A row that the pattern is mapped to is its instance under whatever the variables stand for. -/
theorem Maps.eq_subst {v : Valuation α} {σ : Substitution α} {pattern : List (Term α)} {row : Fact α}
    (h : v.Maps pattern row) (hv : ∀ x, .var x ∈ pattern → v x = some (σ x)) :
    row = pattern.map (Term.subst σ) := by
  induction pattern generalizing row with
  | nil => exact maps_nil.1 h
  | cons t pattern ih =>
    obtain ⟨a, rest, rfl, ha, hr⟩ := maps_cons.1 h
    have ht : t.subst σ = a := by
      cases t with
      | var x => exact Option.some.inj ((hv x List.mem_cons_self).symm.trans ha)
      | text _ => exact Option.some.inj ha
      | truth _ => exact Option.some.inj ha
      | foreign _ => cases ha
    rw [List.map_cons, ht, ih hr fun x hx => hv x (List.mem_cons_of_mem _ hx)]

end Valuation

open Verdict.Valuation

theorem Term.mem_filterMap_var? {terms : List (Term α)} {x : String} :
    x ∈ terms.filterMap Term.var? ↔ .var x ∈ terms := by
  rw [← Term.mem_vars, Term.vars, List.mem_eraseDups]

theorem Rule.bound_cons_of_negated {c : Clause α} {rule : Rule α} (h : c.negated = true) :
    Rule.bound (c :: rule) = Rule.bound rule := by
  rw [Rule.bound, if_pos h]

theorem Rule.bound_cons_of_positive {c : Clause α} {rule : Rule α} (h : c.negated = false) :
    Rule.bound (c :: rule) = c.terms.filterMap Term.var? ++ Rule.bound rule := by
  rw [Rule.bound, h, if_neg Bool.false_ne_true]

/-- On a way through a body every clause holds under what the variables have come to stand for. -/
theorem Rule.Sat.holds {V : View α} {rule : Rule α} {bound : List String} {v w : Valuation α}
    {σ : Substitution α} (hsafe : Rule.SafeFrom bound rule) (h : Rule.Sat V rule v w)
    (hσ : w.Le fun x => some (σ x)) :
    v.Le (fun x => some (σ x)) ∧ ∀ c ∈ rule, c.Holds V σ := by
  induction rule generalizing v bound with
  | nil =>
    cases h
    exact ⟨hσ, List.forall_mem_nil _⟩
  | cons c rule ih =>
    obtain ⟨u, hu, hr⟩ := h
    obtain ⟨hforeign, hsafe⟩ := hsafe
    cases hn : c.negated with
    | true =>
      rw [hn, if_pos rfl] at hsafe
      obtain ⟨rfl, hknown, hno⟩ := (Clause.sat_of_negated hn).1 hu
      obtain ⟨hle, hrest⟩ := ih hsafe.2 hr
      refine ⟨hle, fun d hd => ?_⟩
      rcases List.mem_cons.1 hd with rfl | hd
      · rw [Clause.Holds, if_pos hn]
        exact ⟨hknown, fun hrow => hno _ hrow _ hle (maps_subst hforeign)⟩
      · exact hrest d hd
    | false =>
      rw [hn, if_neg Bool.false_ne_true] at hsafe
      obtain ⟨row, hrow, hm⟩ := (Clause.sat_of_positive hn).1 hu
      obtain ⟨hle, hrest⟩ := ih hsafe hr
      refine ⟨hm.le.trans hle, fun d hd => ?_⟩
      rcases List.mem_cons.1 hd with rfl | hd
      · rw [Clause.Holds, hn, if_neg Bool.false_ne_true]
        have hmaps := hm.maps.of_le hle
        exact hmaps.eq_subst (fun _ _ => rfl) ▸ hrow
      · exact hrest d hd

/-- If every clause of a safe body holds under a substitution, there is a way through it that binds the
variables of the positive clauses by the substitution. -/
theorem Rule.exists_sat {V : View α} {rule : Rule α} {bound : List String} {v : Valuation α}
    {σ : Substitution α} (hsafe : Rule.SafeFrom bound rule) (hle : v.Le fun x => some (σ x))
    (hbound : ∀ x ∈ bound, v x = some (σ x)) (h : ∀ c ∈ rule, c.Holds V σ) :
    ∃ w, Rule.Sat V rule v w ∧ v.Le w ∧ ∀ x ∈ Rule.bound rule, w x = some (σ x) := by
  induction rule generalizing v bound with
  | nil => exact ⟨v, rfl, Le.refl v, List.forall_mem_nil _⟩
  | cons c rule ih =>
    obtain ⟨hforeign, hsafe⟩ := hsafe
    have hc := h c List.mem_cons_self
    have hrest : ∀ d ∈ rule, d.Holds V σ := fun d hd => h d (List.mem_cons_of_mem _ hd)
    cases hn : c.negated with
    | true =>
      rw [hn, if_pos rfl] at hsafe
      rw [Clause.Holds, if_pos hn] at hc
      obtain ⟨w, hw, hvw, hb⟩ := ih hsafe.2 hle hbound hrest
      refine ⟨w, ⟨v, (Clause.sat_of_negated hn).2 ⟨rfl, hc.1, fun row hrow u hu hm => hc.2 ?_⟩, hw⟩,
        hvw, fun x hx => hb x (Rule.bound_cons_of_negated hn ▸ hx)⟩
      -- The clause has no open variable, so its instance is the only row it could match.
      have := hm.eq_subst fun x hx => hu x (σ x) (hbound x (hsafe.1 x hx))
      exact this ▸ hrow
    | false =>
      rw [hn, if_neg Bool.false_ne_true] at hsafe
      rw [Clause.Holds, hn, if_neg Bool.false_ne_true] at hc
      obtain ⟨u, hm, hu⟩ := exists_matches hle (maps_subst hforeign)
      have here (x : String) (hx : .var x ∈ c.terms) : u x = some (σ x) := by
        obtain ⟨t, _, ht⟩ := hm.maps.exists_of_var hx
        exact ht.trans (hu x t ht).symm
      have hbound' : ∀ x ∈ bound ++ c.terms.filterMap Term.var?, u x = some (σ x) := by
        intro x hx
        rcases List.mem_append.1 hx with hx | hx
        · exact hm.le x _ (hbound x hx)
        · exact here x (Term.mem_filterMap_var?.1 hx)
      obtain ⟨w, hw, huw, hb⟩ := ih hsafe hu hbound' hrest
      refine ⟨w, ⟨u, (Clause.sat_of_positive hn).2 ⟨_, hc, hm⟩, hw⟩, hm.le.trans huw, fun x hx => ?_⟩
      rw [Rule.bound_cons_of_positive hn] at hx
      rcases List.mem_append.1 hx with hx | hx
      · exact huw x _ (here x (Term.mem_filterMap_var?.1 hx))
      · exact hb x hx

/-- A head whose variables are all given terms is read off them. -/
theorem mapM_eq_some_map {v : Valuation α} {σ : Substitution α} {head : List String}
    (h : ∀ x ∈ head, v x = some (σ x)) : head.mapM v = some (head.map σ) := by
  induction head with
  | nil => rfl
  | cons x head ih =>
    rw [List.mapM_cons, h x List.mem_cons_self, ih fun y hy => h y (List.mem_cons_of_mem _ hy)]
    rfl

theorem map_of_mapM {v : Valuation α} {σ : Substitution α} {head : List String} {f : Fact α}
    (hle : v.Le fun x => some (σ x)) (h : head.mapM v = some f) : head.map σ = f := by
  induction head generalizing f with
  | nil => exact Option.some.inj h
  | cons x head ih =>
    rw [List.mapM_cons] at h
    obtain ⟨t, ht, h⟩ := Option.bind_eq_some_iff.1 h
    obtain ⟨rest, hrest, h⟩ := Option.bind_eq_some_iff.1 h
    cases h
    rw [List.map_cons, ih hrest, Option.some.inj (hle x t ht)]

/-- **A predicate with safe rules derives the heads of the substitutions under which all clauses of a
rule hold.** -/
theorem Predicate.derives_iff {V : View α} {pred : Predicate α} (hsafe : pred.Safe) {f : Fact α} :
    pred.Derives V f ↔
      ∃ rule ∈ pred.rules, ∃ σ : Substitution α, (∀ c ∈ rule, c.Holds V σ) ∧ pred.args.map σ = f := by
  constructor
  · intro h
    obtain ⟨rule, hr, w, hw, hf⟩ := h
    -- What is open in the end does not matter.
    let σ : Substitution α := fun x => (w x).getD (.truth true)
    have hσ : w.Le fun x => some (σ x) := by
      intro x t hx
      show some ((w x).getD _) = some t
      rw [hx, Option.getD_some]
    exact ⟨rule, hr, σ, (hw.holds (hsafe rule hr).1 hσ).2, map_of_mapM hσ hf⟩
  · intro h
    obtain ⟨rule, hr, σ, hc, hf⟩ := h
    obtain ⟨hs, hargs⟩ := hsafe rule hr
    obtain ⟨w, hw, -, hb⟩ := Rule.exists_sat hs (empty_le _) (List.forall_mem_nil _) hc
    exact ⟨rule, hr, w, hw, hf ▸ mapM_eq_some_map fun x hx => hb x (hargs x hx)⟩

end Verdict

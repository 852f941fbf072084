import Verdict.Evaluation.Rule
import Verdict.Proofs.Evaluation.Matching
import Verdict.Proofs.Result

/-!
# What it means to satisfy a rule

The joins of `Verdict.Evaluation.Rule` say how a rule is evaluated. This module says what a rule
states, over any *view*: what is known about each name, and which facts it stands for. A body is read
from left to right. A positive clause takes a fact of its name and adds the variables that it needs to
match it; a negated clause adds nothing, and asks that its name be known and that no fact of it match,
whatever the variables that are still open might stand for.

> The facts that a predicate's rules compute from a store are the facts that they derive from the view
> of that store.

That is `Program.mem_derive`. Behind it everything is about views, where no error and no order occurs,
and where more facts for the positive clauses and fewer for the negated ones can only derive more
(`Predicate.Derives.mono`).
-/

namespace Verdict

variable {α : Type}

/-- What is known about names. -/
structure View (α : Type := Empty) where
  /-- Whether anything is known about the name, be it that nothing holds of it. -/
  Known : String → Prop
  /-- The facts that the name stands for. -/
  Holds : String → Fact α → Prop

/-- A step through a body: from the variables bound in front of the clause to those bound behind it. -/
def Clause.Sat (V : View α) (c : Clause α) (v w : Valuation α) : Prop :=
  if c.negated then
    w = v ∧ V.Known c.relation ∧
      ∀ row, V.Holds c.relation row → ∀ u, v.Le u → ¬ u.Maps c.terms row
  else ∃ row, V.Holds c.relation row ∧ v.Matches c.terms row w

/-- The way through a whole body. -/
def Rule.Sat (V : View α) : Rule α → Valuation α → Valuation α → Prop
  | [], v, w => w = v
  | c :: rule, v, w => ∃ u, c.Sat V v u ∧ Rule.Sat V rule u w

/-- The fact is a head under some way through one of the rules, starting from nothing. -/
def Predicate.Derives (V : View α) (pred : Predicate α) (f : Fact α) : Prop :=
  ∃ rule ∈ pred.rules, ∃ w, Rule.Sat V rule .empty w ∧ pred.args.mapM w = some f

/-- What a store and the declared relations say about names. -/
def Program.view (p : Program α) (store : Store α) : View α where
  Known name := (p.resolve? store name).isSome
  Holds name f := ∃ r, p.resolve? store name = some r ∧ f ∈ r

theorem Program.resolve?_of_entry {p : Program α} {store : Store α} {name : String} {r : Relation α}
    (h : store.get? name = some r) : p.resolve? store name = some r := by
  rw [resolve?, h]

theorem Program.resolve?_of_no_entry {p : Program α} {store : Store α} {name : String}
    (h : store.get? name = none) :
    p.resolve? store name = (p.nodes.get? name).bind Node.relation? := by
  rw [resolve?, h]

theorem Clause.sat_of_negated {V : View α} {c : Clause α} {v w : Valuation α}
    (h : c.negated = true) : c.Sat V v w ↔ w = v ∧ V.Known c.relation ∧
      ∀ row, V.Holds c.relation row → ∀ u, v.Le u → ¬ u.Maps c.terms row := by
  rw [Clause.Sat, if_pos h]

theorem Clause.sat_of_positive {V : View α} {c : Clause α} {v w : Valuation α}
    (h : c.negated = false) :
    c.Sat V v w ↔ ∃ row, V.Holds c.relation row ∧ v.Matches c.terms row w := by
  rw [Clause.Sat, h, if_neg Bool.false_ne_true]

/-! ## More facts derive more -/

/-- What the clause finds in `V` it finds in `W`: there are no fewer facts for it to match, or, if it
is negated, no more facts to forbid it. -/
def View.LeAt (V W : View α) (c : Clause α) : Prop :=
  if c.negated then
    (V.Known c.relation → W.Known c.relation) ∧ ∀ f, W.Holds c.relation f → V.Holds c.relation f
  else ∀ f, V.Holds c.relation f → W.Holds c.relation f

theorem Clause.Sat.mono {V W : View α} {c : Clause α} {v w : Valuation α} (hVW : V.LeAt W c)
    (h : c.Sat V v w) : c.Sat W v w := by
  unfold View.LeAt at hVW
  cases hn : c.negated with
  | true =>
    rw [hn, if_pos rfl] at hVW
    obtain ⟨hw, hk, hno⟩ := (Clause.sat_of_negated hn).1 h
    exact (Clause.sat_of_negated hn).2 ⟨hw, hVW.1 hk, fun row hrow => hno row (hVW.2 row hrow)⟩
  | false =>
    rw [hn, if_neg Bool.false_ne_true] at hVW
    obtain ⟨row, hrow, hm⟩ := (Clause.sat_of_positive hn).1 h
    exact (Clause.sat_of_positive hn).2 ⟨row, hVW row hrow, hm⟩

theorem Rule.Sat.mono {V W : View α} {rule : Rule α} {v w : Valuation α}
    (hVW : ∀ c ∈ rule, V.LeAt W c) (h : Rule.Sat V rule v w) : Rule.Sat W rule v w := by
  induction rule generalizing v with
  | nil => exact h
  | cons c rule ih =>
    obtain ⟨u, hu, hr⟩ := h
    exact ⟨u, hu.mono (hVW c (by simp)), ih (fun d hd => hVW d (by simp [hd])) hr⟩

/-- **What is derived from a view is derived from every view that is no worse for the clauses.** -/
theorem Predicate.Derives.mono {V W : View α} {pred : Predicate α} {f : Fact α}
    (hVW : ∀ rule ∈ pred.rules, ∀ c ∈ rule, V.LeAt W c) (h : pred.Derives V f) :
    pred.Derives W f := by
  obtain ⟨rule, hr, w, hw, hf⟩ := h
  exact ⟨rule, hr, w, hw.mono (hVW rule hr), hf⟩

/-! ## What the joins compute -/

variable [DecidableEq α]

namespace Binding

open Verdict.Valuation

theorem mem_extensions {b : Binding α} {pattern : List (Term α)} {rows : List (Fact α)}
    {bs : List (Binding α)} (h : b.extensions pattern rows = .ok bs) {w : Valuation α} :
    w ∈ bs.map Table.get? ↔ ∃ row ∈ rows, Matches b.get? pattern row w := by
  induction rows generalizing bs with
  | nil =>
    cases h
    simp
  | cons row rows ih =>
    rw [extensions] at h
    obtain ⟨found, hfound, h⟩ := bind_eq_ok_iff.1 h
    obtain ⟨rest, hrest, h⟩ := bind_eq_ok_iff.1 h
    rw [pure_eq_ok_iff] at h
    subst h
    have first : w ∈ found.toList.map Table.get? ↔ Matches b.get? pattern row w := by
      cases found with
      | none =>
        simp only [Option.toList, List.map_nil, List.not_mem_nil, false_iff]
        intro m
        exact not_maps_of_unify_none hfound m.le m.maps
      | some b' =>
        simp only [Option.toList, List.map_cons, List.map_nil, List.mem_singleton]
        constructor
        · rintro rfl
          exact unify_matches hfound
        · intro m
          exact m.unique (unify_matches hfound)
    simp only [List.map_append, List.mem_append, first, ih hrest, List.mem_cons,
      exists_eq_or_imp]

theorem hasMatch_iff {b : Binding α} {pattern : List (Term α)} {rows : List (Fact α)} {found : Bool}
    (h : b.hasMatch pattern rows = .ok found) :
    found = true ↔ ∃ row ∈ rows, ∃ u, Le b.get? u ∧ u.Maps pattern row := by
  induction rows with
  | nil =>
    cases h
    simp
  | cons row rows ih =>
    rw [hasMatch] at h
    obtain ⟨first, hfirst, h⟩ := bind_eq_ok_iff.1 h
    cases first with
    | none =>
      have none_here : ¬ ∃ u, Le b.get? u ∧ u.Maps pattern row := by
        intro h
        obtain ⟨u, hu, hm⟩ := h
        exact not_maps_of_unify_none hfirst hu hm
      simp only [List.mem_cons, exists_eq_or_imp, none_here, false_or]
      exact ih h
    | some b' =>
      rw [pure_eq_ok_iff] at h
      have m := unify_matches hfirst
      simp only [← h, true_iff]
      exact ⟨row, by simp, b'.get?, m.le, m.maps⟩

end Binding

namespace Clause

/-- The facts stand for the name of the clause in the view. -/
def Sees (V : View α) (c : Clause α) (facts : List (Fact α)) : Prop :=
  V.Known c.relation ∧ ∀ row, V.Holds c.relation row ↔ row ∈ facts

theorem mem_step {V : View α} {c : Clause α} {facts : List (Fact α)} (hV : c.Sees V facts)
    {b : Binding α} {bs : List (Binding α)} (h : c.step facts b = .ok bs) {w : Valuation α} :
    w ∈ bs.map Table.get? ↔ c.Sat V b.get? w := by
  unfold step at h
  cases hn : c.negated with
  | true =>
    rw [hn, if_pos rfl] at h
    obtain ⟨found, hfound, h⟩ := bind_eq_ok_iff.1 h
    rw [pure_eq_ok_iff] at h
    have key := Binding.hasMatch_iff hfound
    rw [sat_of_negated hn]
    cases found with
    | true =>
      obtain ⟨row, hrow, u, hu, hm⟩ := key.1 rfl
      simp only [← h, if_true, List.map_nil, List.not_mem_nil, false_iff]
      intro h
      obtain ⟨-, -, hno⟩ := h
      exact hno row ((hV.2 row).2 hrow) u hu hm
    | false =>
      simp only [← h, Bool.false_eq_true, if_false, List.map_cons, List.map_nil,
        List.mem_singleton]
      constructor
      · intro e
        refine ⟨e, hV.1, fun row hrow u hu hm => ?_⟩
        exact Bool.false_ne_true (key.2 ⟨row, (hV.2 row).1 hrow, u, hu, hm⟩)
      · exact And.left
  | false =>
    rw [hn, if_neg Bool.false_ne_true] at h
    rw [sat_of_positive hn, Binding.mem_extensions h]
    constructor
    · intro h
      obtain ⟨row, hrow, m⟩ := h
      exact ⟨row, (hV.2 row).2 hrow, m⟩
    · intro h
      obtain ⟨row, hrow, m⟩ := h
      exact ⟨row, (hV.2 row).1 hrow, m⟩

theorem mem_join {V : View α} {c : Clause α} {facts : List (Fact α)} (hV : c.Sees V facts)
    {bs cs : List (Binding α)} (h : c.join facts bs = .ok cs) {w : Valuation α} :
    w ∈ cs.map Table.get? ↔ ∃ v ∈ bs.map Table.get?, c.Sat V v w := by
  induction bs generalizing cs with
  | nil =>
    cases h
    simp
  | cons b bs ih =>
    rw [join] at h
    obtain ⟨first, hfirst, h⟩ := bind_eq_ok_iff.1 h
    obtain ⟨rest, hrest, h⟩ := bind_eq_ok_iff.1 h
    rw [pure_eq_ok_iff] at h
    subst h
    simp only [List.map_append, List.mem_append, mem_step hV hfirst, ih hrest, List.map_cons,
      List.mem_cons, exists_eq_or_imp]

end Clause

namespace Program

omit [DecidableEq α] in
theorem sees_of_resolve? {p : Program α} {store : Store α} {c : Clause α} {r : Relation α}
    (h : p.resolve? store c.relation = some r) : c.Sees (p.view store) r.facts := by
  refine ⟨by simp [view, h], fun row => ?_⟩
  simp only [view, h, Option.some.injEq, exists_eq_left']
  exact Iff.rfl

theorem mem_solveFrom {p : Program α} {store : Store α} {rule : Rule α} {bs cs : List (Binding α)}
    (h : p.solveFrom store rule bs = .ok cs) {w : Valuation α} :
    w ∈ cs.map Table.get? ↔ ∃ v ∈ bs.map Table.get?, Rule.Sat (p.view store) rule v w := by
  induction rule generalizing bs with
  | nil =>
    cases h
    simp [Rule.Sat]
  | cons c rule ih =>
    rw [solveFrom] at h
    cases hr : p.resolve? store c.relation with
    | none =>
      -- Nothing is known about the name, so the clause cannot be passed either way.
      rw [hr] at h
      cases h
      have stuck (v u : Valuation α) : ¬ c.Sat (p.view store) v u := by
        cases hn : c.negated with
        | true =>
          rw [Clause.sat_of_negated hn]
          intro h
          obtain ⟨-, hk, -⟩ := h
          simp [view, hr] at hk
        | false =>
          rw [Clause.sat_of_positive hn]
          intro h
          obtain ⟨row, ⟨r, e, -⟩, -⟩ := h
          rw [hr] at e
          cases e
      simp [Rule.Sat, stuck]
    | some r =>
      rw [hr] at h
      obtain ⟨cs', hj, h⟩ := bind_eq_ok_iff.1 h
      rw [ih h]
      simp only [Clause.mem_join (sees_of_resolve? hr) hj, Rule.Sat]
      constructor
      · intro h
        obtain ⟨u, ⟨v, hv, hc⟩, hs⟩ := h
        exact ⟨v, hv, u, hc, hs⟩
      · intro h
        obtain ⟨v, hv, u, hc, hs⟩ := h
        exact ⟨u, ⟨v, hv, hc⟩, hs⟩

/-- A rule solves to the ways through its body. -/
theorem mem_solve {p : Program α} {store : Store α} {rule : Rule α} {bs : List (Binding α)}
    (h : p.solve store rule = .ok bs) {w : Valuation α} :
    w ∈ bs.map Table.get? ↔ Rule.Sat (p.view store) rule .empty w := by
  rw [mem_solveFrom h]
  simp only [List.map_cons, List.map_nil, List.mem_singleton, exists_eq_left]
  exact Iff.rfl

theorem mem_deriveRule {p : Program α} {store : Store α} {head : List String} {rule : Rule α}
    {facts : List (Fact α)} (h : p.deriveRule store head rule = .ok facts) {f : Fact α} :
    f ∈ facts ↔ ∃ w, Rule.Sat (p.view store) rule .empty w ∧ head.mapM w = some f := by
  obtain ⟨bs, hbs, h⟩ := bind_eq_ok_iff.1 h
  rw [pure_eq_ok_iff] at h
  subst h
  simp only [List.mem_filterMap, ← mem_solve hbs, List.mem_map, Binding.project]
  constructor
  · intro h
    obtain ⟨b, hb, hf⟩ := h
    exact ⟨b.get?, ⟨b, hb, rfl⟩, hf⟩
  · intro h
    obtain ⟨_, ⟨b, hb, rfl⟩, hf⟩ := h
    exact ⟨b, hb, hf⟩

theorem mem_deriveRules {p : Program α} {store : Store α} {head : List String}
    {rules : List (Rule α)} {facts : List (Fact α)}
    (h : p.deriveRules store head rules = .ok facts) {f : Fact α} :
    f ∈ facts ↔
      ∃ rule ∈ rules, ∃ w, Rule.Sat (p.view store) rule .empty w ∧ head.mapM w = some f := by
  induction rules generalizing facts with
  | nil =>
    cases h
    simp
  | cons rule rules ih =>
    rw [deriveRules] at h
    obtain ⟨first, hfirst, h⟩ := bind_eq_ok_iff.1 h
    obtain ⟨rest, hrest, h⟩ := bind_eq_ok_iff.1 h
    rw [pure_eq_ok_iff] at h
    subst h
    simp only [List.mem_append, mem_deriveRule hfirst, ih hrest, List.mem_cons, exists_eq_or_imp]

/-- **What a predicate computes from a store is what it derives from the view of the store.** -/
theorem mem_derive {p : Program α} {store : Store α} {pred : Predicate α} {r : Relation α}
    (h : p.derive store pred = .ok r) {f : Fact α} : f ∈ r ↔ pred.Derives (p.view store) f := by
  obtain ⟨facts, hfacts, h⟩ := bind_eq_ok_iff.1 h
  rw [pure_eq_ok_iff] at h
  subst h
  rw [Relation.mem_ofRows, mem_deriveRules hfacts, Predicate.Derives]

end Program

end Verdict

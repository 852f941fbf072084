import Verdict.Proofs.Evaluation.Fixpoint

/-!
# Growth without denial

In general a store grows and shrinks while it is evaluated. This module is about the part of a program
where it only grows: a set of names whose predicates deny nothing but declared relations and use no
predicate outside the set (`Program.MonotoneOn`). Whatever the other predicates do, from the empty
store on

* the facts of these names only grow (`growing_of_reaches`), since each fact that is there can still
  be derived when its predicate is recomputed from scratch;
* they never leave an assignment that is closed under the rules of these names (`below_of_reaches`);
* once the store is settled they make up such an assignment (`closedOn_of_settled`).
-/

namespace Verdict

variable {α : Type}

/-- An assignment of facts to predicates. -/
abbrev Interpretation (α : Type := Empty) := String → Fact α → Prop

/-- On the names of `K`, the facts of `S` are facts of `T`. -/
def Interpretation.LeOn (K : String → Prop) (S T : Interpretation α) : Prop :=
  ∀ name, K name → ∀ f, S name f → T name f

/-- The facts of the entries of a store. -/
def Store.interpretation (s : Store α) : Interpretation α :=
  fun name f => f ∈ s.factsOf name

namespace Program

/-- What a declared name stands for when predicates stand for the facts of `S`. -/
def Stands (p : Program α) (S : Interpretation α) (name : String) (f : Fact α) : Prop :=
  match p.nodes.get? name with
  | some (.relation r) => f ∈ r
  | some (.predicate _) => S name f
  | none => False

/-- The view of a program in which predicates stand for the facts of `S`. -/
def viewOf (p : Program α) (S : Interpretation α) : View α where
  Known name := (p.nodes.get? name).isSome
  Holds := p.Stands S

/-- The view finds in each name what it stands for under `S`, and it knows the declared relations. -/
structure Reads (p : Program α) (V : View α) (S : Interpretation α) : Prop where
  holds : ∀ name f, V.Holds name f ↔ p.Stands S name f
  known : ∀ name r, p.nodes.get? name = some (.relation r) → V.Known name

/-- The predicates of `K` deny declared relations only, and use no other predicates than those of
`K`. -/
def MonotoneOn (p : Program α) (K : String → Prop) : Prop :=
  ∀ name pred, (name, pred) ∈ p.predicates → K name → ∀ rule ∈ pred.rules, ∀ c ∈ rule,
    (c.negated = true → ∃ r, p.nodes.get? c.relation = some (.relation r)) ∧
      (c.negated = false → ∀ q, p.nodes.get? c.relation = some (.predicate q) → K c.relation)

/-- Whatever the rules of `K` derive when predicates stand for the facts of `S` is a fact of `S`. -/
def ClosedOn (p : Program α) (K : String → Prop) (S : Interpretation α) : Prop :=
  ∀ name pred, (name, pred) ∈ p.predicates → K name → ∀ f, pred.Derives (p.viewOf S) f → S name f

/-- Only predicates have entries in the store. -/
def Covers (p : Program α) (s : Store α) : Prop :=
  ∀ name r, s.get? name = some r → ∃ pred, p.nodes.get? name = some (.predicate pred)

variable {p : Program α}

theorem mem_predicates_iff {name : String} {pred : Predicate α} :
    (name, pred) ∈ p.predicates ↔ p.nodes.get? name = some (.predicate pred) := by
  rw [Table.get?_eq_some_iff, predicates, List.mem_filterMap]
  constructor
  · intro h
    obtain ⟨⟨n, node⟩, hm, h⟩ := h
    obtain ⟨q, hq, e⟩ := Option.map_eq_some_iff.1 h
    cases e
    cases node with
    | relation r => cases hq
    | predicate q' => cases hq; exact hm
  · intro h
    exact ⟨_, h, rfl⟩

theorem eq_of_mem_predicates {name : String} {pred pred' : Predicate α}
    (h : (name, pred) ∈ p.predicates) (h' : (name, pred') ∈ p.predicates) : pred = pred' := by
  have e := (mem_predicates_iff.1 h).symm.trans (mem_predicates_iff.1 h')
  cases e
  rfl

theorem stands_of_relation {S : Interpretation α} {name : String} {r : Relation α} {f : Fact α}
    (h : p.nodes.get? name = some (.relation r)) : p.Stands S name f ↔ f ∈ r := by
  rw [Stands, h]

theorem stands_of_predicate {S : Interpretation α} {name : String} {pred : Predicate α}
    {f : Fact α} (h : p.nodes.get? name = some (.predicate pred)) :
    p.Stands S name f ↔ S name f := by
  rw [Stands, h]

theorem reads_viewOf (S : Interpretation α) : p.Reads (p.viewOf S) S where
  holds _ _ := Iff.rfl
  known name r h := by simp only [viewOf, h, Option.isSome_some]

/-- The view of a store that covers no relation reads the entries of the store. -/
theorem Covers.reads {s : Store α} (h : p.Covers s) : p.Reads (p.view s) s.interpretation where
  holds name f := by
    unfold Stands view Store.interpretation Store.factsOf
    cases hs : s.get? name with
    | some r =>
      obtain ⟨pred, hp⟩ := h name r hs
      simp only [resolve?_of_entry hs, hp, Option.some.injEq, exists_eq_left', Option.getD_some]
    | none =>
      simp only [resolve?_of_no_entry hs, Option.getD_none]
      cases p.nodes.get? name with
      | none =>
        constructor
        · intro h
          obtain ⟨r, e, _⟩ := h
          cases e
        · exact False.elim
      | some node =>
        cases node with
        | relation r => simp only [Option.bind_some, Node.relation?, Option.some.injEq, exists_eq_left']
        | predicate q =>
          constructor
          · intro h
            obtain ⟨r, e, _⟩ := h
            cases e
          · intro hf
            cases hf
  known name r hr := by
    show (p.resolve? s name).isSome
    cases hs : s.get? name with
    | some r' => rw [resolve?_of_entry hs, Option.isSome_some]
    | none =>
      rw [resolve?_of_no_entry hs, hr]
      rfl

/-! ## Derivations in the monotone part -/

/-- **In the monotone part more facts derive more.** -/
theorem MonotoneOn.derives {K : String → Prop} (hK : p.MonotoneOn K) {name : String}
    {pred : Predicate α} (hm : (name, pred) ∈ p.predicates) (hn : K name) {V W : View α}
    {S T : Interpretation α} (hV : p.Reads V S) (hW : p.Reads W T) (hST : S.LeOn K T) {f : Fact α}
    (h : pred.Derives V f) : pred.Derives W f := by
  refine h.mono fun rule hr c hc => ?_
  obtain ⟨hneg, hpos⟩ := hK name pred hm hn rule hr c hc
  unfold View.LeAt
  cases hcn : c.negated with
  | true =>
    -- A denied name is a declared relation, and that is the same in both views.
    obtain ⟨r, hr⟩ := hneg hcn
    refine ⟨fun _ => hW.known _ r hr, fun g hg => ?_⟩
    rw [hW.holds, Stands, hr] at hg
    rw [hV.holds, Stands, hr]
    exact hg
  | false =>
    intro g hg
    rw [hV.holds, Stands] at hg
    rw [hW.holds, Stands]
    split at hg
    · exact hg
    · next q hq => exact hST _ (hpos hcn q hq) g hg
    · cases hg

variable [DecidableEq α]

/-! ## Changes -/

/-- A change writes for one predicate what it derives, and leaves the other names alone. -/
theorem exists_of_changes {s t : Store α} (h : p.Changes s t) :
    ∃ name pred, (name, pred) ∈ p.predicates ∧
      (∃ r, t.get? name = some r ∧ (∀ f, f ∈ r ↔ pred.Derives (p.view s) f) ∧
        ¬ (s.factsOf name).SameFacts r) ∧
      ∀ other, other ≠ name → t.get? other = s.get? other := by
  obtain ⟨name, pred, hm, hu⟩ := h
  obtain ⟨r, hr, hne, rfl⟩ := update_eq_some_iff.1 hu
  exact ⟨name, pred, hm, ⟨r, Table.get?_insert_self s name r, fun f => mem_derive hr, hne⟩,
    fun other ho => Table.get?_insert_of_ne ho r⟩

theorem Covers.of_changes {s t : Store α} (hs : p.Covers s) (h : p.Changes s t) : p.Covers t := by
  obtain ⟨name, pred, hm, -, hother⟩ := exists_of_changes h
  intro n r hr
  by_cases e : n = name
  · exact ⟨pred, e ▸ mem_predicates_iff.1 hm⟩
  · rw [hother n e] at hr
    exact hs n r hr

omit [DecidableEq α] in
theorem covers_empty : p.Covers ∅ := by
  intro name r h
  cases h

theorem Covers.of_reaches {s t : Store α} (hs : p.Covers s) (h : p.Reaches s t) : p.Covers t := by
  induction h with
  | refl => exact hs
  | tail _ hc ih => exact ih.of_changes hc

/-! ### An upper bound -/

omit [DecidableEq α] in
theorem leOn_empty (K : String → Prop) (S : Interpretation α) :
    (∅ : Store α).interpretation.LeOn K S := by
  intro name _ f hf
  cases hf

theorem below_of_changes {K : String → Prop} {S : Interpretation α} (hK : p.MonotoneOn K)
    (hS : p.ClosedOn K S) {s t : Store α} (hs : p.Covers s) (hle : s.interpretation.LeOn K S)
    (h : p.Changes s t) : t.interpretation.LeOn K S := by
  obtain ⟨name, pred, hm, ⟨r, hr, hder, -⟩, hother⟩ := exists_of_changes h
  intro n hn f hf
  by_cases e : n = name
  · subst e
    rw [Store.interpretation, Store.factsOf_of_entry hr] at hf
    exact hS n pred hm hn f (hK.derives hm hn hs.reads (reads_viewOf S) hle ((hder f).1 hf))
  · rw [Store.interpretation, Store.factsOf_congr (hother n e)] at hf
    exact hle n hn f hf

/-- **The facts of the monotone part stay in every closed assignment.** -/
theorem below_of_reaches {K : String → Prop} {S : Interpretation α} (hK : p.MonotoneOn K)
    (hS : p.ClosedOn K S) {s t : Store α} (hs : p.Covers s) (hle : s.interpretation.LeOn K S)
    (h : p.Reaches s t) : t.interpretation.LeOn K S := by
  induction h with
  | refl => exact hle
  | tail hreach hc ih => exact below_of_changes hK hS (hs.of_reaches hreach) ih hc

/-! ### Growth -/

/-- The state of a store that has only grown so far, on the names of `K`. -/
structure Growing (p : Program α) (K : String → Prop) (s : Store α) : Prop where
  covers : p.Covers s
  /-- Each fact can be derived again. -/
  derivable : ∀ name pred, (name, pred) ∈ p.predicates → K name →
    ∀ f ∈ s.factsOf name, pred.Derives (p.view s) f
  /-- There is no entry without a fact. -/
  inhabited : ∀ name r, K name → s.get? name = some r → ∃ f, f ∈ r

omit [DecidableEq α] in
theorem growing_empty (K : String → Prop) : p.Growing K ∅ where
  covers := covers_empty
  derivable _ _ _ _ _ hf := nomatch hf
  inhabited _ _ _ h := nomatch h

theorem Growing.of_changes {K : String → Prop} (hK : p.MonotoneOn K) {s t : Store α}
    (hs : p.Growing K s) (h : p.Changes s t) :
    p.Growing K t ∧ s.interpretation.LeOn K t.interpretation := by
  have ht : p.Covers t := hs.covers.of_changes h
  obtain ⟨name, pred, hm, ⟨r, hr, hder, hne⟩, hother⟩ := exists_of_changes h
  have facts_name : t.factsOf name = r := Store.factsOf_of_entry hr
  have facts_other (n : String) (e : n ≠ name) : t.factsOf n = s.factsOf n :=
    Store.factsOf_congr (hother n e)
  -- What was there is derived again, so nothing gets lost.
  have grow : s.interpretation.LeOn K t.interpretation := by
    intro n hn f hf
    unfold Store.interpretation at hf ⊢
    by_cases e : n = name
    · subst e
      rw [facts_name, hder f]
      exact hs.derivable n pred hm hn f hf
    · rw [facts_other n e]
      exact hf
  refine ⟨⟨ht, fun n q hq hn f hf => ?_, fun n r' hn hr' => ?_⟩, grow⟩
  · refine hK.derives hq hn hs.covers.reads ht.reads grow ?_
    by_cases e : n = name
    · subst e
      rw [eq_of_mem_predicates hq hm, ← hder f, ← facts_name]
      exact hf
    · rw [facts_other n e] at hf
      exact hs.derivable n q hq hn f hf
  · by_cases e : n = name
    · subst e
      rw [hr] at hr'
      cases hr'
      -- An empty result would be no change: nothing was lost, so there was nothing before either.
      refine Classical.byContradiction fun hempty => hne fun f => ⟨fun hf => ?_, fun hf => ?_⟩
      · have := grow n hn f hf
        rw [Store.interpretation, facts_name] at this
        exact this
      · exact (hempty ⟨f, hf⟩).elim
    · rw [hother n e] at hr'
      exact hs.inhabited n r' hn hr'

/-- **The facts of the monotone part only grow.** -/
theorem Growing.of_reaches {K : String → Prop} (hK : p.MonotoneOn K) {s t : Store α}
    (hs : p.Growing K s) (h : p.Reaches s t) :
    p.Growing K t ∧ s.interpretation.LeOn K t.interpretation := by
  induction h with
  | refl => exact ⟨hs, fun _ _ _ hf => hf⟩
  | tail _ hc ih =>
    obtain ⟨hu, hle⟩ := ih
    obtain ⟨ht, hle'⟩ := hu.of_changes hK hc
    exact ⟨ht, fun n hn f hf => hle' n hn f (hle n hn f hf)⟩

/-! ### The end -/

/-- **A settled store is closed under the rules of the monotone part.** -/
theorem closedOn_of_settled {K : String → Prop} (hK : p.MonotoneOn K) {s : Store α}
    (hs : p.Covers s) (h : p.Settled s) : p.ClosedOn K s.interpretation := by
  intro name pred hm hn f hf
  refine (h.mem_factsOf hm).2 ?_
  exact hK.derives hm hn (reads_viewOf s.interpretation) hs.reads (fun _ _ _ hg => hg) hf

end Program

end Verdict

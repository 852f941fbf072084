import Mathlib.Data.List.Sections
import Verdict.Proofs.Evaluation.Growth

/-!
# The facts that can be derived at all

Evaluation makes no new terms: what a head variable stands for has been found in a row, and in the end
in a row of a declared relation. So a program has finitely many facts to offer, its `base`, and whatever
a store comes to hold from the empty one on lies in it (`mem_base_of_reaches`). The base is a matter of
the declared facts and the lengths of the heads; rules, negated or not, have no part in it.
-/

namespace Verdict

variable {α : Type}

/-- What a variable stands for behind a body it stood for in front of it, or it has been found in a row
of a positive clause. -/
theorem Rule.Sat.mem_row {V : View α} {rule : Rule α} {v w : Valuation α} (h : Rule.Sat V rule v w)
    {x : String} {t : Term α} (hx : w x = some t) :
    v x = some t ∨ ∃ name row, V.Holds name row ∧ t ∈ row := by
  induction rule generalizing v with
  | nil =>
    cases h
    exact Or.inl hx
  | cons c rule ih =>
    obtain ⟨u, hu, hr⟩ := h
    rcases ih hr with hux | hrow
    · cases hn : c.negated with
      | true =>
        obtain ⟨rfl, -⟩ := (Clause.sat_of_negated hn).1 hu
        exact Or.inl hux
      | false =>
        obtain ⟨row, hrow, hm⟩ := (Clause.sat_of_positive hn).1 hu
        rcases hm.least x t hux with hv | hp
        · exact Or.inl hv
        · obtain ⟨t', ht', e⟩ := hm.maps.exists_of_var hp
          rw [hux] at e
          cases e
          exact Or.inr ⟨c.relation, row, hrow, ht'⟩
    · exact Or.inr hrow

theorem exists_mem_of_forall₂ {β γ : Type} {R : β → γ → Prop} {l : List β} {m : List γ}
    (h : List.Forall₂ R l m) {b : β} (hb : b ∈ l) : ∃ c ∈ m, R b c := by
  induction h with
  | nil => cases hb
  | cons hbc _ ih =>
    rcases List.mem_cons.1 hb with rfl | hb
    · exact ⟨_, List.mem_cons_self, hbc⟩
    · obtain ⟨c, hc, hbc⟩ := ih hb
      exact ⟨c, List.mem_cons_of_mem _ hc, hbc⟩

theorem forall₂_of_mapM {v : Valuation α} {head : List String} {f : Fact α}
    (h : head.mapM v = some f) : List.Forall₂ (fun t x => v x = some t) f head :=
  (mapM_eq_some_iff.1 h).flip

theorem Predicate.Derives.length_eq {V : View α} {pred : Predicate α} {f : Fact α}
    (h : pred.Derives V f) : f.length = pred.arity := by
  obtain ⟨_, _, _, _, hf⟩ := h
  exact (forall₂_of_mapM hf).length_eq

/-- A derived fact is made of terms of the facts that it is derived from. -/
theorem Predicate.Derives.mem_row {V : View α} {pred : Predicate α} {f : Fact α}
    (h : pred.Derives V f) {t : Term α} (ht : t ∈ f) : ∃ name row, V.Holds name row ∧ t ∈ row := by
  obtain ⟨_, _, w, hw, hf⟩ := h
  obtain ⟨x, _, hx⟩ := exists_mem_of_forall₂ (forall₂_of_mapM hf) ht
  rcases hw.mem_row hx with h | h
  · cases h
  · exact h

namespace Program

variable {p : Program α}

def constants (p : Program α) : List (Term α) :=
  p.relations.flatMap fun e => e.2.facts.flatten

/-- The rows of declared terms that are as long as the head of a predicate, with the name of the
predicate. -/
def base (p : Program α) : List (String × Fact α) :=
  p.predicates.flatMap fun e => (List.replicate e.2.arity p.constants).sections.map (e.1, ·)

theorem mem_relations_iff {name : String} {r : Relation α} :
    (name, r) ∈ p.relations ↔ p.nodes.get? name = some (.relation r) := by
  rw [Table.get?_eq_some_iff, relations, List.mem_filterMap]
  constructor
  · intro h
    obtain ⟨⟨n, node⟩, hm, h⟩ := h
    obtain ⟨q, hq, e⟩ := Option.map_eq_some_iff.1 h
    cases e
    cases node with
    | relation r' => cases hq; exact hm
    | predicate q' => cases hq
  · intro h
    exact ⟨_, h, rfl⟩

theorem mem_constants_of_relation {name : String} {r : Relation α}
    (h : p.nodes.get? name = some (.relation r)) {f : Fact α} (hf : f ∈ r) {t : Term α} (ht : t ∈ f) :
    t ∈ p.constants :=
  List.mem_flatMap.2 ⟨(name, r), mem_relations_iff.2 h, List.mem_flatten.2 ⟨f, hf, ht⟩⟩

theorem mem_base {name : String} {pred : Predicate α} (hm : (name, pred) ∈ p.predicates) {f : Fact α}
    (hl : f.length = pred.arity) (hf : ∀ t ∈ f, t ∈ p.constants) : (name, f) ∈ p.base := by
  refine List.mem_flatMap.2 ⟨(name, pred), hm, List.mem_map.2 ⟨f, List.mem_sections.2 ?_, rfl⟩⟩
  rw [← hl]
  clear hl
  induction f with
  | nil => exact .nil
  | cons t f ih =>
    rw [List.length_cons, List.replicate_succ]
    exact .cons (hf t List.mem_cons_self) (ih fun s hs => hf s (List.mem_cons_of_mem t hs))

theorem of_mem_base {name : String} {f : Fact α} (h : (name, f) ∈ p.base) :
    (∃ pred, (name, pred) ∈ p.predicates ∧ f.length = pred.arity) ∧ ∀ t ∈ f, t ∈ p.constants := by
  obtain ⟨⟨n, pred⟩, hm, h⟩ := List.mem_flatMap.1 h
  obtain ⟨g, hg, e⟩ := List.mem_map.1 h
  cases e
  refine ⟨⟨pred, hm, ?_⟩, fun t ht => ?_⟩
  · rw [List.mem_sections_length hg, List.length_replicate]
  · obtain ⟨l, hl, htl⟩ := exists_mem_of_forall₂ (List.mem_sections.1 hg) ht
    exact List.eq_of_mem_replicate hl ▸ htl

/-- **What is derived from facts of the base lies in the base.** -/
theorem mem_base_of_derives {V : View α} {S : Interpretation α} (hV : p.Reads V S)
    (hS : ∀ name f, S name f → (name, f) ∈ p.base) {name : String} {pred : Predicate α}
    (hm : (name, pred) ∈ p.predicates) {f : Fact α} (h : pred.Derives V f) : (name, f) ∈ p.base := by
  refine mem_base hm h.length_eq fun a ha => ?_
  obtain ⟨other, row, hrow, ha⟩ := h.mem_row ha
  -- The row is a declared fact, or one of the predicates.
  rw [hV.holds, Stands] at hrow
  split at hrow
  · next r hnode => exact mem_constants_of_relation hnode hrow ha
  · exact (of_mem_base (hS other row hrow)).2 a ha
  · cases hrow

variable [DecidableEq α]

theorem mem_base_of_changes {s t : Store α} (hs : p.Covers s)
    (hbase : ∀ name, ∀ f ∈ s.factsOf name, (name, f) ∈ p.base) (h : p.Changes s t) :
    ∀ name, ∀ f ∈ t.factsOf name, (name, f) ∈ p.base := by
  obtain ⟨n, pred, hm, ⟨r, hr, hder, -⟩, hother⟩ := exists_of_changes h
  intro name f hf
  by_cases e : name = n
  · subst e
    rw [Store.factsOf_of_entry hr, hder] at hf
    exact mem_base_of_derives hs.reads hbase hm hf
  · rw [Store.factsOf_congr (hother name e)] at hf
    exact hbase name f hf

/-- **Whatever is derived from the empty store on lies in the base.** -/
theorem mem_base_of_reaches {s : Store α} (h : p.Reaches ∅ s) :
    ∀ name, ∀ f ∈ s.factsOf name, (name, f) ∈ p.base := by
  induction h with
  | refl => intro _ _ hf; cases hf
  | tail hreach hc ih => exact mem_base_of_changes (covers_empty.of_reaches hreach) ih hc

end Program

end Verdict

import Verdict.Proofs.Evaluation.Growth

/-!
# The least model

A program is *semi-positive* when its rules deny declared relations only. Then there is a least
assignment of facts to predicates that is closed under the rules, and evaluation computes it:

> From the empty store on, the snapshots of a run only grow, they stay inside the least model, and a
> result is the least model.

Growth and the upper bound are those of `Verdict.Proofs.Evaluation.Growth`, for all names at once;
a result is settled, hence closed itself, so nothing of the least model is missing in it. A run that
fails is covered as far as it came.
-/

namespace Verdict

variable {α : Type}

namespace Program

/-- Every negated clause names a declared relation. -/
def SemiPositive (p : Program α) : Prop :=
  ∀ e ∈ p.predicates, ∀ rule ∈ e.2.rules, ∀ c ∈ rule,
    c.negated = true → c.relation ∈ p.relations.map Prod.fst

instance (p : Program α) : Decidable p.SemiPositive :=
  inferInstanceAs (Decidable (∀ e ∈ p.predicates, ∀ rule ∈ e.2.rules, ∀ c ∈ rule,
    c.negated = true → c.relation ∈ p.relations.map Prod.fst))

/-- Whatever the rules derive when predicates stand for the facts of `S` is a fact of `S`. -/
def Closed (p : Program α) (S : Interpretation α) : Prop :=
  ∀ name pred, (name, pred) ∈ p.predicates → ∀ f, pred.Derives (p.viewOf S) f → S name f

/-- The facts that every closed assignment has. -/
def leastModel (p : Program α) : Interpretation α :=
  fun name f => ∀ S, p.Closed S → S name f

variable {p : Program α}

theorem closedOn_iff_closed {S : Interpretation α} :
    p.ClosedOn (fun _ => True) S ↔ p.Closed S :=
  ⟨fun h name pred hm => h name pred hm trivial, fun h name pred hm _ => h name pred hm⟩

theorem SemiPositive.monotoneOn (h : p.SemiPositive) : p.MonotoneOn fun _ => True := by
  intro name pred hm _ rule hr c hc
  refine ⟨fun hn => ?_, fun _ _ _ => trivial⟩
  obtain ⟨⟨n, r⟩, hmem, e⟩ := List.mem_map.1 (h (name, pred) hm rule hr c hc hn)
  obtain ⟨⟨n', node⟩, hnode, e'⟩ := List.mem_filterMap.1 hmem
  cases node with
  | relation _ => cases e'; cases e; exact ⟨_, Table.get?_eq_some_iff.2 hnode⟩
  | predicate q => cases e'

/-- Where more facts derive more, the facts of all closed assignments are closed themselves. -/
theorem closed_leastModel (h : p.SemiPositive) : p.Closed p.leastModel := by
  intro name pred hm f hf S hS
  refine hS name pred hm f ?_
  exact h.monotoneOn.derives hm trivial (reads_viewOf _) (reads_viewOf S)
    (fun n _ g hg => hg S hS) hf

/-- Only predicates have facts in the least model. -/
theorem exists_predicate_of_leastModel {name : String} {f : Fact α} (h : p.leastModel name f) :
    ∃ pred, (name, pred) ∈ p.predicates :=
  h (fun n _ => ∃ pred, (n, pred) ∈ p.predicates) fun _ pred hm _ _ => ⟨pred, hm⟩

variable [DecidableEq α]

theorem below_leastModel (hp : p.SemiPositive) {s : Store α} (h : p.Reaches ∅ s) {name : String}
    {f : Fact α} (hf : f ∈ s.factsOf name) : p.leastModel name f :=
  fun S hS => below_of_reaches hp.monotoneOn (closedOn_iff_closed.2 hS) covers_empty
    (leOn_empty _ S) h name trivial f hf

/-- A settled store that has grown from the empty one holds the least model. -/
theorem mem_factsOf_iff_leastModel (hp : p.SemiPositive) {s : Store α} (h : p.Reaches ∅ s)
    (hs : p.Settled s) {name : String} {f : Fact α} :
    f ∈ s.factsOf name ↔ p.leastModel name f := by
  refine ⟨below_leastModel hp h, fun hf => hf s.interpretation ?_⟩
  exact closedOn_iff_closed.1 (closedOn_of_settled hp.monotoneOn (covers_empty.of_reaches h) hs)

/-- Its entries are the predicates that have a fact there. -/
theorem mem_keys_iff_leastModel (hp : p.SemiPositive) {s : Store α} (h : p.Reaches ∅ s)
    (hs : p.Settled s) {name : String} :
    name ∈ s.keys ↔ (∃ pred, (name, pred) ∈ p.predicates) ∧ ∃ f, p.leastModel name f := by
  have hg : p.Growing (fun _ => True) s := ((growing_empty _).of_reaches hp.monotoneOn h).1
  constructor
  · intro hk
    cases hr : s.get? name with
    | none => exact absurd hk (Table.get?_eq_none_iff.1 hr)
    | some r =>
      obtain ⟨f, hf⟩ := hg.inhabited name r trivial hr
      have hf : p.leastModel name f := by
        rw [← mem_factsOf_iff_leastModel hp h hs, Store.factsOf_of_entry hr]
        exact hf
      exact ⟨exists_predicate_of_leastModel hf, f, hf⟩
  · intro h
    obtain ⟨_, f, hf⟩ := h
    refine Classical.byContradiction fun hk => ?_
    rw [← mem_factsOf_iff_leastModel hp h hs,
      Store.factsOf_of_no_entry (Table.get?_eq_none_iff.2 hk)] at hf
    cases hf

theorem mem_computed_iff_leastModel (hp : p.SemiPositive) (h0 : p.computed = ∅) {e : Evaluator}
    {q : Program α} (h : (e.evaluate p).1 = .ok q) {name : String} {f : Fact α} :
    f ∈ q.computed.factsOf name ↔ p.leastModel name f := by
  obtain ⟨t, rfl, hreach, hs⟩ := exists_of_evaluate h
  rw [h0] at hreach
  exact mem_factsOf_iff_leastModel hp hreach hs

/-- **Evaluation computes the least model of a semi-positive program.** The least model is closed under
the rules; each snapshot of a run is contained in all later ones and in the least model; and in a
result the predicates with an entry are those with a fact in the least model, and the facts of each
predicate are those of the least model. -/
theorem leastModel_of_semiPositive (p : Program α) (hp : p.SemiPositive) (h0 : p.computed = ∅) :
    p.Closed p.leastModel ∧
      (∀ (cap : Cap) (take : Option Nat),
        (p.rounds cap take).1.Pairwise (fun s t => ∀ name, ∀ f ∈ s.factsOf name, f ∈ t.factsOf name) ∧
          ∀ s ∈ (p.rounds cap take).1, ∀ name, ∀ f ∈ s.factsOf name, p.leastModel name f) ∧
      ∀ (e : Evaluator) (q : Program α), (e.evaluate p).1 = .ok q →
        (∀ name, name ∈ q.computed.keys ↔
          (∃ pred, (name, pred) ∈ p.predicates) ∧ ∃ f, p.leastModel name f) ∧
        ∀ name f, f ∈ q.computed.factsOf name ↔ p.leastModel name f := by
  refine ⟨closed_leastModel hp, fun cap take => ?_, fun e q h => ?_⟩
  · obtain ⟨n, hn⟩ : ∃ n, (p.rounds cap take).1 = (p.run n ∅).snapshots := by
      rw [← h0]
      cases take with
      | none => exact ⟨_, rfl⟩
      | some k => exact ⟨_, rfl⟩
    rw [hn]
    refine ⟨(run_pairwise n ∅).imp_of_mem fun hs _ hst name f hf => ?_, fun s hs name f hf => ?_⟩
    · have grown := (growing_empty _).of_reaches hp.monotoneOn (reaches_of_mem_run hs)
      exact (grown.1.of_reaches hp.monotoneOn hst).2 name trivial f hf
    · exact below_leastModel hp (reaches_of_mem_run hs) hf
  · obtain ⟨t, rfl, hreach, hs⟩ := exists_of_evaluate h
    rw [h0] at hreach
    exact ⟨fun name => mem_keys_iff_leastModel hp hreach hs,
      fun name f => mem_factsOf_iff_leastModel hp hreach hs⟩

/-- Roads of which one is closed, the routes over open ends, and the places with a way back. -/
def openRoutes : Program where
  nodes := .ofList
    [("road", .relation (.ofRows
       [[.text "a", .text "b"], [.text "b", .text "c"], [.text "c", .text "c"]])),
     ("closed", .relation (.ofRows [[.text "b", .text "c"]])),
     ("loop", .predicate { args := ["X"], rules := [[⟨"route", [.var "X", .var "X"], false⟩]] }),
     ("route", .predicate
       { args := ["X", "Y"]
         rules :=
           [[⟨"road", [.var "X", .var "Y"], false⟩, ⟨"closed", [.var "X", .var "Y"], true⟩],
            [⟨"road", [.var "X", .var "Z"], false⟩, ⟨"route", [.var "Z", .var "Y"], false⟩]] })]

theorem leastModel_openRoutes :
    openRoutes.SemiPositive ∧ openRoutes.computed = ∅ ∧
      ∃ q, (({} : Evaluator).evaluate openRoutes).1 = .ok q ∧ q.computed.keys = ["route", "loop"] ∧
        openRoutes.leastModel "loop" [.text "c"] ∧ ¬ openRoutes.leastModel "loop" [.text "a"] := by
  have hp : openRoutes.SemiPositive := by decide
  refine ⟨hp, rfl, _, rfl, by decide, ?_, fun h => ?_⟩
  · exact (((leastModel_of_semiPositive openRoutes hp rfl).2.2 {} _ rfl).2 _ _).1 (by decide)
  · have := (((leastModel_of_semiPositive openRoutes hp rfl).2.2 {} _ rfl).2 _ _).2 h
    exact absurd this (by decide)

end Program

end Verdict

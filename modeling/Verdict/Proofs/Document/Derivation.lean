import Verdict.Document.Check
import Verdict.Proofs.Evaluation.Growth
import Verdict.Proofs.Evaluation.Instances

/-!
# What the checking program derives

The rules of the checking program, read off once and for all: `Check.derives_inferenceCheck`,
`Check.derives_docCheck`, `Check.derives_mixed` and `Check.derives_stratified` say for each predicate
which facts it derives from a view. All rules are safe, so the substitutions do; and the facts of the
relations say what the documents say, with documents of one name taken together and ids compared by
their keys.
-/

namespace Verdict

/-! ## What documents say -/

namespace Document

/-- A document named `d` has an assumption `p` with the value `v`. -/
def Assumes (docs : List Document) (d p : String) (v : Bool) : Prop :=
  ∃ doc ∈ docs, doc.name = d ∧ ∃ a ∈ doc.assumptions, a.id.key = p ∧ a.value = v

/-- A document named `d` has an inference `i`. -/
def Infers (docs : List Document) (d i : String) : Prop :=
  ∃ doc ∈ docs, doc.name = d ∧ ∃ j ∈ doc.inferences, j.id.key = i

/-- A document named `d` has an inference `i` that depends on `p`. -/
def Depends (docs : List Document) (d i p : String) : Prop :=
  ∃ doc ∈ docs, doc.name = d ∧ ∃ j ∈ doc.inferences, j.id.key = i ∧ ∃ dep ∈ j.dependsOn, dep.key = p

variable {docs : List Document} {d i p : String} {v : Bool}

theorem Depends.infers (h : Depends docs d i p) : Infers docs d i :=
  let ⟨doc, hdoc, hname, j, hj, hkey, _⟩ := h
  ⟨doc, hdoc, hname, j, hj, hkey⟩

theorem Infers.exists_name (h : Infers docs d i) : ∃ doc ∈ docs, doc.name = d :=
  let ⟨doc, hdoc, hname, _⟩ := h
  ⟨doc, hdoc, hname⟩

theorem Assumes.exists_name (h : Assumes docs d p v) : ∃ doc ∈ docs, doc.name = d :=
  let ⟨doc, hdoc, hname, _⟩ := h
  ⟨doc, hdoc, hname⟩

end Document

namespace Check

open Document

variable {α : Type} {docs : List Document}

theorem mem_docFacts {f : Fact α} :
    f ∈ docFacts docs ↔ ∃ d, (∃ doc ∈ docs, doc.name = d) ∧ f = [.text d] := by
  simp only [docFacts, List.mem_map]
  constructor
  · intro h
    obtain ⟨doc, hdoc, e⟩ := h
    exact ⟨doc.name, ⟨doc, hdoc, rfl⟩, e.symm⟩
  · intro h
    obtain ⟨d, ⟨doc, hdoc, hname⟩, e⟩ := h
    exact ⟨doc, hdoc, by rw [e, hname]⟩

theorem mem_assumptionFacts {f : Fact α} :
    f ∈ assumptionFacts docs ↔
      ∃ d p v, Assumes docs d p v ∧ f = [.text d, .text p, .truth v] := by
  simp only [assumptionFacts, List.mem_flatMap, List.mem_map]
  constructor
  · intro h
    obtain ⟨doc, hdoc, a, ha, e⟩ := h
    exact ⟨doc.name, a.id.key, a.value, ⟨doc, hdoc, rfl, a, ha, rfl, rfl⟩, e.symm⟩
  · intro h
    obtain ⟨d, p, v, ⟨doc, hdoc, hname, a, ha, hkey, hv⟩, e⟩ := h
    exact ⟨doc, hdoc, a, ha, by rw [e, hname, hkey, hv]⟩

theorem mem_inferenceFacts {f : Fact α} :
    f ∈ inferenceFacts docs ↔ ∃ d i, Infers docs d i ∧ f = [.text d, .text i] := by
  simp only [inferenceFacts, List.mem_flatMap, List.mem_map]
  constructor
  · intro h
    obtain ⟨doc, hdoc, j, hj, e⟩ := h
    exact ⟨doc.name, j.id.key, ⟨doc, hdoc, rfl, j, hj, rfl⟩, e.symm⟩
  · intro h
    obtain ⟨d, i, ⟨doc, hdoc, hname, j, hj, hkey⟩, e⟩ := h
    exact ⟨doc, hdoc, j, hj, by rw [e, hname, hkey]⟩

theorem mem_dependencyFacts {f : Fact α} :
    f ∈ dependencyFacts docs ↔
      ∃ d i p, Depends docs d i p ∧ f = [.text d, .text i, .text p] := by
  simp only [dependencyFacts, List.mem_flatMap, List.mem_map]
  constructor
  · intro h
    obtain ⟨doc, hdoc, j, hj, dep, hdep, e⟩ := h
    exact ⟨doc.name, j.id.key, dep.key, ⟨doc, hdoc, rfl, j, hj, rfl, dep, hdep, rfl⟩, e.symm⟩
  · intro h
    obtain ⟨d, i, p, ⟨doc, hdoc, hname, j, hj, hkey, dep, hdep, hp⟩, e⟩ := h
    exact ⟨doc, hdoc, j, hj, dep, hdep, by rw [e, hname, hkey, hp]⟩

/-! ## The rules -/

section Rules

variable {V : View α} {σ : Substitution α}

@[simp] theorem subst_doc : (doc : Term α).subst σ = σ "Doc" := rfl

@[simp] theorem subst_id : (Check.id : Term α).subst σ = σ "Id" := rfl

@[simp] theorem subst_dependency : (dependency : Term α).subst σ = σ "DependOnId" := rfl

@[simp] theorem subst_value : (value : Term α).subst σ = σ "Value" := rfl

@[simp] theorem holds_clause {relation : String} {terms : List (Term α)} :
    (clause relation terms).Holds V σ ↔ V.Holds relation (terms.map (Term.subst σ)) := by
  rw [Clause.Holds, clause, if_neg Bool.false_ne_true]

@[simp] theorem holds_denial {relation : String} {terms : List (Term α)} :
    (denial relation terms).Holds V σ ↔
      V.Known relation ∧ ¬ V.Holds relation (terms.map (Term.subst σ)) := by
  rw [Clause.Holds, denial, if_pos rfl]

theorem holds_picked :
    (∀ c ∈ picked, c.Holds V σ) ↔ V.Holds "doc" [σ "Doc"] ∧ V.Holds "inference" [σ "Doc", σ "Id"] ∧
      V.Holds "inference_dependsOn" [σ "Doc", σ "Id", σ "DependOnId"] := by
  simp [picked]

/-- Terms for the variables of the program. -/
def assign (d i p v : Term α) : Substitution α := fun x =>
  if x = "Doc" then d else if x = "Id" then i else if x = "DependOnId" then p else v

theorem safe_inferenceCheck : (inferenceCheck (α := α)).Safe := by
  simp [Predicate.Safe, inferenceCheck, picked, clause, Rule.SafeFrom, Rule.bound, doc, Check.id,
    dependency, value, Term.var?, Term.foreign?]

theorem safe_docCheck : (docCheck (α := α)).Safe := by
  simp [Predicate.Safe, docCheck, clause, Rule.SafeFrom, Rule.bound, doc, value,
    Term.var?, Term.foreign?]

theorem safe_mixed : (mixed (α := α)).Safe := by
  simp [Predicate.Safe, mixed, clause, Rule.SafeFrom, Rule.bound, doc, Check.id,
    List.filterMap_cons, Term.var?, Term.foreign?]

theorem safe_stratified : (stratified (α := α)).Safe := by
  simp [Predicate.Safe, stratified, pureRule, clause, denial, Rule.SafeFrom, Rule.bound, doc,
    Check.id, value, List.filterMap_cons, Term.var?, Term.foreign?]

theorem derives_inferenceCheck {f : Fact α} :
    inferenceCheck.Derives V f ↔ ∃ d i p v, f = [d, i, v] ∧
      (V.Holds "doc" [d] ∧ V.Holds "inference" [d, i] ∧ V.Holds "inference_dependsOn" [d, i, p]) ∧
      (V.Holds "assumption" [d, p, v] ∨
        (V.Holds "inference" [d, p] ∧ V.Holds "inference_check" [d, p, v]) ∨
        (V.Holds "doc" [p] ∧ V.Holds "doc_check" [p, v])) := by
  rw [Predicate.derives_iff safe_inferenceCheck]
  constructor
  · intro h
    obtain ⟨rule, hr, σ, hc, hf⟩ := h
    refine ⟨σ "Doc", σ "Id", σ "DependOnId", σ "Value", hf.symm, ?_⟩
    simp only [inferenceCheck, List.mem_cons, List.not_mem_nil, or_false] at hr
    rcases hr with rfl | rfl | rfl
    · rw [List.forall_mem_append, holds_picked] at hc
      exact ⟨hc.1, Or.inl (by simpa using hc.2)⟩
    · rw [List.forall_mem_append, holds_picked] at hc
      exact ⟨hc.1, Or.inr (Or.inl (by simpa using hc.2))⟩
    · rw [List.forall_mem_append, holds_picked] at hc
      exact ⟨hc.1, Or.inr (Or.inr (by simpa using hc.2))⟩
  · intro h
    obtain ⟨d, i, p, v, hf, hpick, h⟩ := h
    have hpicked : ∀ c ∈ picked, c.Holds V (assign d i p v) := by
      rw [holds_picked]
      simpa [assign] using hpick
    rcases h with ha | hi | hd
    · refine ⟨_, List.mem_cons_self, assign d i p v, ?_, hf.symm⟩
      rw [List.forall_mem_append]
      exact ⟨hpicked, by simpa [assign] using ha⟩
    · refine ⟨_, List.mem_cons_of_mem _ List.mem_cons_self, assign d i p v, ?_, hf.symm⟩
      rw [List.forall_mem_append]
      exact ⟨hpicked, by simpa [assign] using hi⟩
    · refine ⟨_, List.mem_cons_of_mem _ (List.mem_cons_of_mem _ List.mem_cons_self),
        assign d i p v, ?_, hf.symm⟩
      rw [List.forall_mem_append]
      exact ⟨hpicked, by simpa [assign] using hd⟩

theorem derives_docCheck {f : Fact α} :
    docCheck.Derives V f ↔ ∃ d a v, f = [d, v] ∧ V.Holds "doc" [d] ∧
      V.Holds "assumption" [d, a, v] := by
  rw [Predicate.derives_iff safe_docCheck]
  constructor
  · intro h
    obtain ⟨rule, hr, σ, hc, hf⟩ := h
    rw [docCheck, List.mem_singleton] at hr
    subst hr
    exact ⟨σ "Doc", σ "Assumption", σ "Value", hf.symm, by simpa using hc⟩
  · intro h
    obtain ⟨d, a, v, hf, hd, ha⟩ := h
    let σ : Substitution α := fun x => if x = "Doc" then d else if x = "Assumption" then a else v
    refine ⟨_, List.mem_cons_self, σ, ?_, hf.symm⟩
    simp [σ, hd, ha]

theorem derives_mixed {f : Fact α} :
    mixed.Derives V f ↔ ∃ d i, f = [d, i] ∧ V.Holds "inference_check" [d, i, .truth true] ∧
      V.Holds "inference_check" [d, i, .truth false] := by
  rw [Predicate.derives_iff safe_mixed]
  constructor
  · intro h
    obtain ⟨rule, hr, σ, hc, hf⟩ := h
    rw [mixed, List.mem_singleton] at hr
    subst hr
    exact ⟨σ "Doc", σ "Id", hf.symm, by simpa using hc⟩
  · intro h
    obtain ⟨d, i, hf, ht, hff⟩ := h
    refine ⟨_, List.mem_cons_self, assign d i d d, ?_, hf.symm⟩
    simp [assign, ht, hff]

/-- What the last predicate derives: a truth value that an inference reaches while it is known not to
be mixed, and the mixed outcome for those that are. -/
theorem derives_stratified {f : Fact α} :
    stratified.Derives V f ↔ ∃ d i v, f = [d, i, v] ∧
      ((∃ b, V.Holds "inference_check" [d, i, .truth b] ∧
          (V.Known "inference_check_mixed" ∧ ¬ V.Holds "inference_check_mixed" [d, i]) ∧
          V.Holds "equal" [v, .truth b]) ∨
        (V.Holds "inference_check_mixed" [d, i] ∧ V.Holds "equal" [v, .text mixedWord])) := by
  rw [Predicate.derives_iff safe_stratified]
  constructor
  · intro h
    obtain ⟨rule, hr, σ, hc, hf⟩ := h
    refine ⟨σ "Doc", σ "Id", σ "Value", hf.symm, ?_⟩
    simp only [stratified, List.mem_cons, List.not_mem_nil, or_false] at hr
    rcases hr with rfl | rfl | rfl
    · exact Or.inl ⟨true, by simpa [pureRule] using hc⟩
    · exact Or.inl ⟨false, by simpa [pureRule] using hc⟩
    · exact Or.inr (by simpa using hc)
  · intro h
    obtain ⟨d, i, v, hf, h⟩ := h
    rcases h with ⟨b, hb, hm, he⟩ | ⟨hm, he⟩
    · have hrule : pureRule b ∈ (stratified (α := α)).rules := by
        cases b <;> simp [stratified]
      refine ⟨_, hrule, assign d i d v, ?_, hf.symm⟩
      simp [pureRule, assign, hb, hm, he]
    · refine ⟨_, List.mem_cons_of_mem _ (List.mem_cons_of_mem _ List.mem_cons_self),
        assign d i d v, ?_, hf.symm⟩
      simp [assign, hm, he]

end Rules

end Check

end Verdict

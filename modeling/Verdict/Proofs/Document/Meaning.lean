import Verdict.Document.Status
import Verdict.Proofs.Document.Derivation
import Verdict.Proofs.Table

/-!
# The meaning of a list of documents

Which truth values an inference reaches can be said without rules and rounds, as the least relation
with three closure properties (`Document.Reaches`). This module shows that the checking program finds
exactly this relation, whatever it derives and takes back on the way
(`Program.mem_factsOf_inferenceCheck`), and what becomes of it in the last predicate
(`Program.mem_factsOf_stratified`).

The argument has two halves. The three predicates that deny nothing only grow, so their facts are
bounded by the meaning from above and closed under the rules in the end. The last predicate denies the
mixed inferences; since the end is settled, it is read off the final facts alone.
-/

namespace Verdict

/-! ## What an inference reaches -/

namespace Document

/-- The truth values that an inference reaches: the least relation with these three clauses. -/
inductive Reaches (docs : List Document) : String → String → Bool → Prop where
  /-- Through an assumption of the same document. -/
  | assumption {d i p : String} {v : Bool} :
    Depends docs d i p → Assumes docs d p v → Reaches docs d i v
  /-- Through an inference of the same document. -/
  | inference {d i p : String} {v : Bool} :
    Depends docs d i p → Infers docs d p → Reaches docs d p v → Reaches docs d i v
  /-- Through a whole document. -/
  | document {d i p a : String} {v : Bool} :
    Depends docs d i p → Assumes docs p a v → Reaches docs d i v

/-- The inference reaches both truth values. -/
def Mixed (docs : List Document) (d i : String) : Prop :=
  Reaches docs d i true ∧ Reaches docs d i false

/-- Some inference is mixed. -/
def AnyMixed (docs : List Document) : Prop := ∃ d i, Mixed docs d i

/-- The outcome of an inference that reaches a value at all. -/
def HasStatus (docs : List Document) (d i : String) : Status → Prop
  | .holds => Reaches docs d i true ∧ ¬ Reaches docs d i false
  | .fails => Reaches docs d i false ∧ ¬ Reaches docs d i true
  | .mixed => Mixed docs d i

theorem HasStatus.unique {docs : List Document} {d i : String} {s t : Status}
    (hs : HasStatus docs d i s) (ht : HasStatus docs d i t) : s = t := by
  cases s with
  | holds =>
    cases t with
    | holds => rfl
    | fails => exact absurd ht.1 hs.2
    | mixed => exact absurd ht.2 hs.2
  | fails =>
    cases t with
    | holds => exact absurd ht.1 hs.2
    | fails => rfl
    | mixed => exact absurd ht.1 hs.2
  | mixed =>
    cases t with
    | holds => exact absurd hs.2 ht.2
    | fails => exact absurd hs.1 ht.2
    | mixed => rfl

end Document

/-- The term that stands for an outcome in facts. -/
def Status.term {α : Type} : Status → Term α
  | holds => .truth true
  | fails => .truth false
  | mixed => .text Check.mixedWord

namespace Check

open Document Program

variable {α : Type} {docs : List Document}

/-- The predicates that deny nothing. -/
def positive : List String := ["inference_check", "doc_check", "inference_check_mixed"]

/-- What the predicates that deny nothing mean. -/
def meaning (docs : List Document) : Interpretation α := fun name f =>
  (name = "inference_check" ∧ ∃ d i v, Reaches docs d i v ∧ f = [.text d, .text i, .truth v]) ∨
  (name = "doc_check" ∧ ∃ d a v, Assumes docs d a v ∧ f = [.text d, .truth v]) ∨
  (name = "inference_check_mixed" ∧ ∃ d i, Mixed docs d i ∧ f = [.text d, .text i])

@[simp] theorem meaning_inferenceCheck {f : Fact α} :
    meaning docs "inference_check" f ↔
      ∃ d i v, Reaches docs d i v ∧ f = [.text d, .text i, .truth v] := by
  simp [meaning]

@[simp] theorem meaning_docCheck {f : Fact α} :
    meaning docs "doc_check" f ↔ ∃ d a v, Assumes docs d a v ∧ f = [.text d, .truth v] := by
  simp [meaning]

@[simp] theorem meaning_mixed {f : Fact α} :
    meaning docs "inference_check_mixed" f ↔ ∃ d i, Mixed docs d i ∧ f = [.text d, .text i] := by
  simp [meaning]

variable [DecidableEq α]

/-! ## The nodes of the checking program -/

theorem get?_nodes {name : String} {node : Node α} (h : (name, node) ∈ nodes docs) :
    (ofDocuments docs).nodes.get? name = some node := by
  refine (Table.get?_ofList_iff ?_).2 h
  simp [nodes]

theorem get?_doc :
    (ofDocuments docs).nodes.get? "doc" = some (.relation (.ofRows (docFacts (α := α) docs))) :=
  get?_nodes (by simp [nodes])

theorem get?_assumption :
    (ofDocuments docs).nodes.get? "assumption" =
      some (.relation (.ofRows (assumptionFacts (α := α) docs))) :=
  get?_nodes (by simp [nodes])

theorem get?_inference :
    (ofDocuments docs).nodes.get? "inference" =
      some (.relation (.ofRows (inferenceFacts (α := α) docs))) :=
  get?_nodes (by simp [nodes])

theorem get?_dependency :
    (ofDocuments docs).nodes.get? "inference_dependsOn" =
      some (.relation (.ofRows (dependencyFacts (α := α) docs))) :=
  get?_nodes (by simp [nodes])

theorem get?_equal :
    (ofDocuments docs).nodes.get? "equal" = some (.relation (.ofRows (equalFacts (α := α)))) :=
  get?_nodes (by simp [nodes])

theorem get?_inferenceCheck :
    (ofDocuments docs).nodes.get? "inference_check" = some (.predicate (inferenceCheck (α := α))) :=
  get?_nodes (by simp [nodes])

theorem get?_docCheck :
    (ofDocuments docs).nodes.get? "doc_check" = some (.predicate (docCheck (α := α))) :=
  get?_nodes (by simp [nodes])

theorem get?_mixed :
    (ofDocuments docs).nodes.get? "inference_check_mixed" = some (.predicate (mixed (α := α))) :=
  get?_nodes (by simp [nodes])

theorem get?_stratified :
    (ofDocuments docs).nodes.get? "inference_check_stratified" =
      some (.predicate (stratified (α := α))) :=
  get?_nodes (by simp [nodes])

theorem mem_predicates_ofDocuments {name : String} {pred : Predicate α} :
    (name, pred) ∈ (ofDocuments docs).predicates ↔
      (name = "inference_check" ∧ pred = inferenceCheck) ∨ (name = "doc_check" ∧ pred = docCheck) ∨
      (name = "inference_check_mixed" ∧ pred = mixed) ∨
      (name = "inference_check_stratified" ∧ pred = stratified) := by
  rw [mem_predicates_iff, ofDocuments, Table.get?_ofList_iff (by simp [nodes])]
  simp [nodes]

/-! ## Reading the nodes -/

section Reading

variable {V : View α} {S : Interpretation α} (hV : (ofDocuments docs).Reads V S)

include hV

theorem holds_doc {t : Term α} :
    V.Holds "doc" [t] ↔ ∃ d, (∃ doc ∈ docs, doc.name = d) ∧ t = .text d := by
  rw [hV.holds, stands_of_relation get?_doc, Relation.mem_ofRows, mem_docFacts]
  simp only [List.cons.injEq, and_true]

theorem holds_assumption {t u x : Term α} :
    V.Holds "assumption" [t, u, x] ↔
      ∃ d p v, Assumes docs d p v ∧ t = .text d ∧ u = .text p ∧ x = .truth v := by
  rw [hV.holds, stands_of_relation get?_assumption, Relation.mem_ofRows, mem_assumptionFacts]
  simp only [List.cons.injEq, and_true]

theorem holds_inference {t u : Term α} :
    V.Holds "inference" [t, u] ↔ ∃ d i, Infers docs d i ∧ t = .text d ∧ u = .text i := by
  rw [hV.holds, stands_of_relation get?_inference, Relation.mem_ofRows, mem_inferenceFacts]
  simp only [List.cons.injEq, and_true]

theorem holds_dependency {t u x : Term α} :
    V.Holds "inference_dependsOn" [t, u, x] ↔
      ∃ d i p, Depends docs d i p ∧ t = .text d ∧ u = .text i ∧ x = .text p := by
  rw [hV.holds, stands_of_relation get?_dependency, Relation.mem_ofRows, mem_dependencyFacts]
  simp only [List.cons.injEq, and_true]

theorem holds_equal {t u : Term α} :
    V.Holds "equal" [t, u] ↔ t = u ∧ u ∈ [.truth true, .truth false, .text mixedWord] := by
  rw [hV.holds, stands_of_relation get?_equal, Relation.mem_ofRows]
  simp only [equalFacts, List.mem_cons, List.cons.injEq, and_true, List.not_mem_nil, or_false]
  constructor
  · intro h
    rcases h with ⟨rfl, rfl⟩ | ⟨rfl, rfl⟩ | ⟨rfl, rfl⟩
    · exact ⟨rfl, Or.inl rfl⟩
    · exact ⟨rfl, Or.inr (Or.inl rfl)⟩
    · exact ⟨rfl, Or.inr (Or.inr rfl)⟩
  · intro h
    obtain ⟨h, hu⟩ := h
    subst h
    simpa only [and_self] using hu

theorem holds_inferenceCheck {f : Fact α} :
    V.Holds "inference_check" f ↔ S "inference_check" f := by
  rw [hV.holds, stands_of_predicate get?_inferenceCheck]

theorem holds_docCheck {f : Fact α} : V.Holds "doc_check" f ↔ S "doc_check" f := by
  rw [hV.holds, stands_of_predicate get?_docCheck]

theorem holds_mixed {f : Fact α} :
    V.Holds "inference_check_mixed" f ↔ S "inference_check_mixed" f := by
  rw [hV.holds, stands_of_predicate get?_mixed]

/-! ## What the rules say about documents -/

theorem inferenceCheck_iff {f : Fact α} :
    inferenceCheck.Derives V f ↔ ∃ d i p x, f = [.text d, .text i, x] ∧ Depends docs d i p ∧
      ((∃ v, Assumes docs d p v ∧ x = .truth v) ∨
        (Infers docs d p ∧ S "inference_check" [.text d, .text p, x]) ∨
        ((∃ doc ∈ docs, doc.name = p) ∧ S "doc_check" [.text p, x])) := by
  rw [derives_inferenceCheck]
  simp only [holds_doc hV, holds_inference hV, holds_dependency hV, holds_assumption hV,
    holds_inferenceCheck hV, holds_docCheck hV]
  constructor
  · intro h
    obtain ⟨_, _, _, x, hf, ⟨_, _, d, i, p, hdep, hd, hi, hp⟩, h⟩ := h
    subst hd hi hp
    refine ⟨d, i, p, x, hf, hdep, ?_⟩
    rcases h with ⟨d', p', v, ha, hd, hp, hx⟩ | ⟨⟨d', p', hi, hd, hp⟩, hr⟩ | ⟨⟨p', hn, hp⟩, hr⟩
    · cases hd
      cases hp
      exact Or.inl ⟨v, ha, hx⟩
    · cases hd
      cases hp
      exact Or.inr (Or.inl ⟨hi, hr⟩)
    · cases hp
      exact Or.inr (Or.inr ⟨hn, hr⟩)
  · intro h
    obtain ⟨d, i, p, x, hf, hdep, h⟩ := h
    refine ⟨.text d, .text i, .text p, x, hf, ⟨⟨d, hdep.infers.exists_name, rfl⟩,
      ⟨d, i, hdep.infers, rfl, rfl⟩, ⟨d, i, p, hdep, rfl, rfl, rfl⟩⟩, ?_⟩
    rcases h with ⟨v, ha, hx⟩ | ⟨hi, hr⟩ | ⟨hn, hr⟩
    · exact Or.inl ⟨d, p, v, ha, rfl, rfl, hx⟩
    · exact Or.inr (Or.inl ⟨⟨d, p, hi, rfl, rfl⟩, hr⟩)
    · exact Or.inr (Or.inr ⟨⟨p, hn, rfl⟩, hr⟩)

theorem docCheck_iff {f : Fact α} :
    docCheck.Derives V f ↔ ∃ d a v, Assumes docs d a v ∧ f = [.text d, .truth v] := by
  rw [derives_docCheck]
  simp only [holds_doc hV, holds_assumption hV]
  constructor
  · intro h
    obtain ⟨_, _, _, hf, _, d, a, v, ha, hd, _, hv⟩ := h
    subst hd hv
    exact ⟨d, a, v, ha, hf⟩
  · intro h
    obtain ⟨d, a, v, ha, hf⟩ := h
    exact ⟨.text d, .text a, .truth v, hf, ⟨d, ha.exists_name, rfl⟩, d, a, v, ha, rfl, rfl, rfl⟩

theorem mixed_iff {f : Fact α} :
    mixed.Derives V f ↔ ∃ t u, f = [t, u] ∧ S "inference_check" [t, u, .truth true] ∧
      S "inference_check" [t, u, .truth false] := by
  rw [derives_mixed]
  simp only [holds_inferenceCheck hV]

theorem stratified_iff {f : Fact α} :
    stratified.Derives V f ↔ ∃ t u x, f = [t, u, x] ∧
      ((∃ v, S "inference_check" [t, u, .truth v] ∧
          (V.Known "inference_check_mixed" ∧ ¬ S "inference_check_mixed" [t, u]) ∧ x = .truth v) ∨
        (S "inference_check_mixed" [t, u] ∧ x = .text mixedWord)) := by
  rw [derives_stratified]
  simp only [holds_inferenceCheck hV, holds_mixed hV, holds_equal hV]
  have pure (v : Bool) : (.truth v : Term α) ∈ [.truth true, .truth false, .text mixedWord] := by
    cases v
    · exact List.mem_cons_of_mem _ List.mem_cons_self
    · exact List.mem_cons_self
  have word : (.text mixedWord : Term α) ∈ [.truth true, .truth false, .text mixedWord] :=
    List.mem_cons_of_mem _ (List.mem_cons_of_mem _ List.mem_cons_self)
  simp only [pure, word, and_true]

end Reading

/-! ## The predicates that deny nothing -/

/-- They use each other and the relations. -/
theorem positive_rules {name : String} {pred : Predicate α}
    (hm : (name, pred) ∈ (ofDocuments docs).predicates) (hn : name ∈ positive) :
    ∀ rule ∈ pred.rules, ∀ c ∈ rule,
      c.negated = false ∧ c.relation ≠ "inference_check_stratified" := by
  rcases mem_predicates_ofDocuments.1 hm with ⟨rfl, rfl⟩ | ⟨rfl, rfl⟩ | ⟨rfl, rfl⟩ | ⟨rfl, rfl⟩
  · simp [inferenceCheck, picked, clause]
  · simp [docCheck, clause]
  · simp [mixed, clause]
  · simp [positive] at hn

theorem monotoneOn_positive : (ofDocuments docs).MonotoneOn (α := α) (· ∈ positive) := by
  intro name pred hm hn rule hr c hc
  obtain ⟨hneg, hrel⟩ := positive_rules hm hn rule hr c hc
  refine ⟨fun h => ?_, fun _ q hq => ?_⟩
  · rw [hneg] at h
    cases h
  · rcases mem_predicates_ofDocuments.1 (mem_predicates_iff.2 hq) with h | h | h | h
    · rw [h.1]
      exact List.mem_cons_self
    · rw [h.1]
      exact List.mem_cons_of_mem _ List.mem_cons_self
    · rw [h.1]
      exact List.mem_cons_of_mem _ (List.mem_cons_of_mem _ List.mem_cons_self)
    · exact absurd h.1 hrel

/-- The meaning is closed under the rules. -/
theorem closedOn_meaning :
    (ofDocuments docs).ClosedOn (· ∈ positive) (meaning (α := α) docs) := by
  intro name pred hm hn f hf
  have hV := reads_viewOf (p := ofDocuments docs) (meaning (α := α) docs)
  rcases mem_predicates_ofDocuments.1 hm with ⟨rfl, rfl⟩ | ⟨rfl, rfl⟩ | ⟨rfl, rfl⟩ | ⟨rfl, rfl⟩
  · obtain ⟨d, i, p, x, hf, hdep, h⟩ := (inferenceCheck_iff hV).1 hf
    rw [meaning_inferenceCheck]
    rcases h with ⟨v, ha, hx⟩ | ⟨hi, hr⟩ | ⟨_, hr⟩
    · exact ⟨d, i, v, .assumption hdep ha, hx ▸ hf⟩
    · obtain ⟨d', p', v, hreach, e⟩ := meaning_inferenceCheck.1 hr
      cases e
      exact ⟨d, i, v, .inference hdep hi hreach, hf⟩
    · obtain ⟨p', a, v, ha, e⟩ := meaning_docCheck.1 hr
      cases e
      exact ⟨d, i, v, .document hdep ha, hf⟩
  · rw [meaning_docCheck]
    exact (docCheck_iff hV).1 hf
  · obtain ⟨t, u, hf, ht, hff⟩ := (mixed_iff hV).1 hf
    obtain ⟨d, i, v, hr, e⟩ := meaning_inferenceCheck.1 ht
    obtain ⟨d', i', v', hr', e'⟩ := meaning_inferenceCheck.1 hff
    cases e
    cases e'
    exact meaning_mixed.2 ⟨d, i, ⟨hr, hr'⟩, hf⟩
  · simp [positive] at hn

section Closed

variable {S : Interpretation α} (hS : (ofDocuments docs).ClosedOn (· ∈ positive) S)

include hS

theorem docCheck_of_assumes {d a : String} {v : Bool} (h : Assumes docs d a v) :
    S "doc_check" [.text d, .truth v] :=
  hS "doc_check" docCheck (mem_predicates_iff.2 get?_docCheck) (by simp [positive]) _
    ((docCheck_iff (reads_viewOf S)).2 ⟨d, a, v, h, rfl⟩)

theorem inferenceCheck_of_depends {d i p : String} {v : Bool} (hdep : Depends docs d i p)
    (h : (∃ w, Assumes docs d p w ∧ (.truth v : Term α) = .truth w) ∨
      (Infers docs d p ∧ S "inference_check" [.text d, .text p, .truth v]) ∨
      ((∃ doc ∈ docs, doc.name = p) ∧ S "doc_check" [.text p, .truth v])) :
    S "inference_check" [.text d, .text i, .truth v] :=
  hS "inference_check" inferenceCheck (mem_predicates_iff.2 get?_inferenceCheck)
    (by simp [positive]) _
    ((inferenceCheck_iff (reads_viewOf S)).2 ⟨d, i, p, .truth v, rfl, hdep, h⟩)

/-- Each way to reach a value is one of the rules. -/
theorem inferenceCheck_of_reaches {d i : String} {v : Bool} (h : Document.Reaches docs d i v) :
    S "inference_check" [.text d, .text i, .truth v] := by
  induction h with
  | assumption hdep ha => exact inferenceCheck_of_depends hS hdep (Or.inl ⟨_, ha, rfl⟩)
  | inference hdep hi _ ih => exact inferenceCheck_of_depends hS hdep (Or.inr (Or.inl ⟨hi, ih⟩))
  | document hdep ha =>
    have hdoc := docCheck_of_assumes hS ha
    exact inferenceCheck_of_depends hS hdep (Or.inr (Or.inr ⟨ha.exists_name, hdoc⟩))

/-- Every assignment that is closed under the rules has what the meaning has. -/
theorem meaning_leOn : (meaning docs).LeOn (· ∈ positive) S := by
  intro name hn f hf
  rcases hf with ⟨rfl, d, i, v, hr, rfl⟩ | ⟨rfl, d, a, v, ha, rfl⟩ | ⟨rfl, d, i, hm, rfl⟩
  · exact inferenceCheck_of_reaches hS hr
  · exact docCheck_of_assumes hS ha
  · refine hS _ mixed (mem_predicates_iff.2 get?_mixed) hn _ ((mixed_iff (reads_viewOf S)).2 ?_)
    exact ⟨_, _, rfl, inferenceCheck_of_reaches hS hm.1, inferenceCheck_of_reaches hS hm.2⟩

end Closed

/-! ## The fixpoint -/

section Fixpoint

variable {s : Store α} (h : (ofDocuments docs).Reaches ∅ s) (hs : (ofDocuments docs).Settled s)

include h hs

/-- **The predicates that deny nothing come to what they mean.** -/
theorem mem_factsOf_iff_meaning {name : String} (hn : name ∈ positive) {f : Fact α} :
    f ∈ s.factsOf name ↔ meaning docs name f := by
  constructor
  · intro hf
    exact below_of_reaches monotoneOn_positive closedOn_meaning covers_empty
      (leOn_empty _ _) h name hn f hf
  · intro hf
    have := closedOn_of_settled monotoneOn_positive (covers_empty.of_reaches h) hs
    exact meaning_leOn this name hn f hf

/-- The mixed inferences are known as such exactly when there are any. -/
theorem known_mixed_iff :
    ((ofDocuments docs).view s).Known "inference_check_mixed" ↔ AnyMixed docs := by
  have hpos : "inference_check_mixed" ∈ positive := by simp [positive]
  have hmean (f : Fact α) := mem_factsOf_iff_meaning h hs hpos (f := f)
  show ((ofDocuments docs).resolve? s "inference_check_mixed").isSome ↔ AnyMixed docs
  cases hr : s.get? "inference_check_mixed" with
  | some r =>
    rw [resolve?_of_entry hr, Option.isSome_some, eq_self, true_iff]
    have hK : (ofDocuments docs).MonotoneOn (α := α) (· ∈ positive) := monotoneOn_positive
    have grown := ((growing_empty _).of_reaches hK h).1
    obtain ⟨f, hf⟩ := grown.inhabited _ r hpos hr
    rw [← Store.factsOf_of_entry hr, hmean, meaning_mixed] at hf
    obtain ⟨d, i, hm, -⟩ := hf
    exact ⟨d, i, hm⟩
  | none =>
    rw [resolve?_of_no_entry hr, get?_mixed]
    constructor
    · intro hk
      cases hk
    · intro h
      obtain ⟨d, i, hm⟩ := h
      have hf := (hmean [.text d, .text i]).2 (meaning_mixed.2 ⟨d, i, hm, rfl⟩)
      rw [Store.factsOf_of_no_entry hr] at hf
      cases hf

/-- **The last predicate gives every inference its outcome if some inference is mixed, and comes to
nothing otherwise.** -/
theorem mem_factsOf_stratified {f : Fact α} :
    f ∈ s.factsOf "inference_check_stratified" ↔
      AnyMixed docs ∧ ∃ d i st, HasStatus docs d i st ∧ f = [.text d, .text i, st.term] := by
  have hV := (covers_empty.of_reaches h).reads
  have hcheck (g : Fact α) :
      g ∈ s.factsOf "inference_check" ↔ meaning docs "inference_check" g :=
    mem_factsOf_iff_meaning h hs (by simp [positive])
  have hmixed (g : Fact α) :
      g ∈ s.factsOf "inference_check_mixed" ↔ meaning docs "inference_check_mixed" g :=
    mem_factsOf_iff_meaning h hs (by simp [positive])
  rw [hs.mem_factsOf (mem_predicates_iff.2 get?_stratified), stratified_iff hV,
    known_mixed_iff h hs]
  simp only [Store.interpretation, hcheck, hmixed, meaning_inferenceCheck, meaning_mixed]
  constructor
  · intro h
    obtain ⟨t, u, x, hf, hcase⟩ := h
    rcases hcase with ⟨v, ⟨d, i, w, hr, e⟩, ⟨hany, hno⟩, hx⟩ | ⟨⟨d, i, hm, e⟩, hx⟩
    · cases e
      have hno : ¬ Mixed docs d i := fun hm => hno ⟨d, i, hm, rfl⟩
      subst hx
      cases v with
      | true => exact ⟨hany, d, i, .holds, ⟨hr, fun hr' => hno ⟨hr, hr'⟩⟩, hf⟩
      | false => exact ⟨hany, d, i, .fails, ⟨hr, fun hr' => hno ⟨hr', hr⟩⟩, hf⟩
    · cases e
      subst hx
      exact ⟨⟨d, i, hm⟩, d, i, .mixed, hm, hf⟩
  · intro h
    obtain ⟨hany, d, i, st, hst, hf⟩ := h
    refine ⟨.text d, .text i, st.term, hf, ?_⟩
    have pure (hno : ¬ Mixed docs d i) :
        ¬ ∃ d' i', Mixed docs d' i' ∧ [.text d, .text i] = ([.text d', .text i'] : Fact α) := by
      intro h
      obtain ⟨d', i', hm, e⟩ := h
      cases e
      exact hno hm
    cases st with
    | holds =>
      exact Or.inl ⟨true, ⟨d, i, true, hst.1, rfl⟩, ⟨hany, pure fun hm => hst.2 hm.2⟩, rfl⟩
    | fails =>
      exact Or.inl ⟨false, ⟨d, i, false, hst.1, rfl⟩, ⟨hany, pure fun hm => hst.2 hm.1⟩, rfl⟩
    | mixed => exact Or.inr ⟨⟨d, i, hst, rfl⟩, rfl⟩

end Fixpoint

end Check

end Verdict

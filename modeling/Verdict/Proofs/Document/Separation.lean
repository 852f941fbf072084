import Verdict.Proofs.Document.Checking
import Verdict.Proofs.Document.Rest

/-!
# Documents that do not concern each other

What an inference reaches rests on the documents of its own name and on those whose names its
dependencies are. So whatever two lists of documents have in common under these names
(`Document.AgreeOn`, `Document.Confined`), both find the same there.

> A document that no other is named like or refers to can be added anywhere, and nothing that is found
> about the others changes (`Document.evaluateAll_insert`).
>
> If the inferences under a name only depend on numbers, all documents can be left out that have neither
> this name nor one of the numbers for a name (`Document.evaluateAll_filter`).

The exception in the second statement is a real one. A number is compared by its text, and there may be a
document of that name (`Document.number_names_document`).
-/

namespace Verdict

namespace Document

variable {K : String → Prop} {docs docs' : List Document} {d : String}

/-- The lists have the same documents under the names in `K`. -/
def AgreeOn (K : String → Prop) (docs docs' : List Document) : Prop :=
  ∀ doc : Document, K doc.name → (doc ∈ docs ↔ doc ∈ docs')

/-- The name is in `K`, and so is all that the inferences under it depend on. -/
structure Confined (K : String → Prop) (docs : List Document) (d : String) : Prop where
  name : K d
  dependency : ∀ i p, Depends docs d i p → K p

/-! ## What is reached -/

theorem Reaches.infers {i : String} {v : Bool} (h : Reaches docs d i v) : Infers docs d i := by
  cases h with
  | assumption hp _ => exact hp.infers
  | inference hp _ _ => exact hp.infers
  | document hp _ => exact hp.infers

namespace AgreeOn

theorem symm (h : AgreeOn K docs docs') : AgreeOn K docs' docs :=
  fun doc hdoc => (h doc hdoc).symm

section

variable (h : AgreeOn K docs docs') (hd : K d)

include h hd

theorem assumes {p : String} {v : Bool} (ha : Assumes docs d p v) : Assumes docs' d p v := by
  obtain ⟨doc, hdoc, rfl, ha⟩ := ha
  exact ⟨doc, (h doc hd).1 hdoc, rfl, ha⟩

theorem infers {i : String} (hi : Infers docs d i) : Infers docs' d i := by
  obtain ⟨doc, hdoc, rfl, hi⟩ := hi
  exact ⟨doc, (h doc hd).1 hdoc, rfl, hi⟩

theorem depends {i p : String} (hp : Depends docs d i p) : Depends docs' d i p := by
  obtain ⟨doc, hdoc, rfl, hp⟩ := hp
  exact ⟨doc, (h doc hd).1 hdoc, rfl, hp⟩

end

theorem confined (h : AgreeOn K docs docs') (hd : Confined K docs d) : Confined K docs' d :=
  ⟨hd.name, fun i p hp => hd.dependency i p (h.symm.depends hd.name hp)⟩

/-- Only the last way to reach a value leaves the name, and that is by a dependency. -/
theorem reaches (h : AgreeOn K docs docs') (hd : Confined K docs d) {i : String} {v : Bool}
    (hr : Reaches docs d i v) : Reaches docs' d i v := by
  induction hr with
  | assumption hp ha => exact .assumption (h.depends hd.name hp) (h.assumes hd.name ha)
  | inference hp hi _ ih => exact .inference (h.depends hd.name hp) (h.infers hd.name hi) ih
  | document hp ha =>
    exact .document (h.depends hd.name hp) (h.assumes (hd.dependency _ _ hp) ha)

theorem reaches_iff (h : AgreeOn K docs docs') (hd : Confined K docs d) {i : String} {v : Bool} :
    Reaches docs d i v ↔ Reaches docs' d i v :=
  ⟨h.reaches hd, h.symm.reaches (h.confined hd)⟩

theorem mixed_iff (h : AgreeOn K docs docs') (hd : Confined K docs d) {i : String} :
    Mixed docs d i ↔ Mixed docs' d i :=
  and_congr (h.reaches_iff hd) (h.reaches_iff hd)

theorem hasStatus_iff (h : AgreeOn K docs docs') (hd : Confined K docs d) {i : String} {st : Status} :
    HasStatus docs d i st ↔ HasStatus docs' d i st := by
  cases st with
  | holds => exact and_congr (h.reaches_iff hd) (not_congr (h.reaches_iff hd))
  | fails => exact and_congr (h.reaches_iff hd) (not_congr (h.reaches_iff hd))
  | mixed => exact h.mixed_iff hd

/-! ## What is found -/

/-- The predicates that deny nothing mean the same of a confined name. -/
theorem meaning {α : Type} (h : AgreeOn K docs docs') (hd : Confined K docs d) {name : String}
    {terms : List (Term α)} (hf : Check.meaning docs name (.text d :: terms)) :
    Check.meaning docs' name (.text d :: terms) := by
  rcases hf with ⟨rfl, _, i, v, hr, e⟩ | ⟨rfl, _, a, v, ha, e⟩ | ⟨rfl, _, i, hm, e⟩
  · cases e
    exact Check.meaning_inferenceCheck.2 ⟨d, i, v, h.reaches hd hr, rfl⟩
  · cases e
    exact Check.meaning_docCheck.2 ⟨d, a, v, h.assumes hd.name ha, rfl⟩
  · cases e
    exact Check.meaning_mixed.2 ⟨d, i, (h.mixed_iff hd).1 hm, rfl⟩

variable {cap cap' : Int} {q q' : Program}

/-- **Batches that agree on a confined name find the same about it.** -/
theorem mem_factsOf_iff (h : AgreeOn K docs docs') (hd : Confined K docs d)
    (hq : (evaluateAll docs cap).result = .ok q) (hq' : (evaluateAll docs' cap').result = .ok q')
    {name : String} (hn : name ∈ Check.positive) {terms : List Term} :
    (.text d :: terms) ∈ q.computed.factsOf name ↔ (.text d :: terms) ∈ q'.computed.factsOf name := by
  obtain ⟨s, rfl, hreach, hs⟩ := exists_of_evaluateAll hq
  obtain ⟨s', rfl, hreach', hs'⟩ := exists_of_evaluateAll hq'
  exact (Check.mem_factsOf_iff_meaning hreach hs hn).trans <|
    Iff.trans ⟨h.meaning hd, h.symm.meaning (h.confined hd)⟩
      (Check.mem_factsOf_iff_meaning hreach' hs' hn).symm

/-- Statuses also depend on whether any inference is mixed at all. -/
theorem exists_statuses (h : AgreeOn K docs docs') (hmixed : AnyMixed docs) (hmixed' : AnyMixed docs')
    (hq : (evaluateAll docs cap).result = .ok q) (hq' : (evaluateAll docs' cap').result = .ok q') :
    ∃ statuses statuses', q.statuses = .ok statuses ∧ q'.statuses = .ok statuses' ∧
      ∀ d, Confined K docs d → ∀ i, statuses.get? (d, i) = statuses'.get? (d, i) := by
  obtain ⟨s, rfl, hreach, hs⟩ := exists_of_evaluateAll hq
  obtain ⟨s', rfl, hreach', hs'⟩ := exists_of_evaluateAll hq'
  obtain ⟨statuses, hok, hget⟩ := Check.exists_of_statuses hreach hs
  obtain ⟨statuses', hok', hget'⟩ := Check.exists_of_statuses hreach' hs'
  refine ⟨statuses, statuses', hok, hok', fun d hd i => Option.ext fun st => ?_⟩
  rw [hget, hget', and_iff_right hmixed, and_iff_right hmixed', h.hasStatus_iff hd]

end AgreeOn

/-- A mixed inference is found as a fact. -/
theorem exists_fact_mixed_iff {cap : Int} {q : Program} (hq : (evaluateAll docs cap).result = .ok q) :
    (∃ f, f ∈ q.computed.factsOf "inference_check_mixed") ↔ AnyMixed docs := by
  obtain ⟨s, rfl, hreach, hs⟩ := exists_of_evaluateAll hq
  have hmem (f : Fact) : f ∈ s.factsOf "inference_check_mixed" ↔
      ∃ d i, Mixed docs d i ∧ f = [.text d, .text i] :=
    (Check.mem_factsOf_iff_meaning hreach hs (by simp [Check.positive])).trans Check.meaning_mixed
  constructor
  · intro h
    obtain ⟨f, hf⟩ := h
    obtain ⟨d, i, hm, -⟩ := (hmem f).1 hf
    exact ⟨d, i, hm⟩
  · intro h
    obtain ⟨d, i, hm⟩ := h
    exact ⟨_, (hmem _).2 ⟨d, i, hm, rfl⟩⟩

theorem exists_evaluateAll_both (docs docs' : List Document) :
    ∃ m : Int, ∀ cap, m ≤ cap → (∃ q, (evaluateAll docs cap).result = .ok q) ∧
      ∃ q, (evaluateAll docs' cap).result = .ok q := by
  obtain ⟨m, hm⟩ := exists_evaluateAll docs
  obtain ⟨m', hm'⟩ := exists_evaluateAll docs'
  exact ⟨max m m', fun cap hcap => ⟨hm cap (by omega), hm' cap (by omega)⟩⟩

/-! ## A document that is added -/

/-- No document has this name, and none has an inference that depends on it. -/
def Unmentioned (docs : List Document) (name : String) : Prop :=
  ∀ d ∈ docs, d.name ≠ name ∧ ∀ i ∈ d.inferences, ∀ dep ∈ i.dependsOn, dep.key ≠ name

instance (docs : List Document) (name : String) : Decidable (Unmentioned docs name) :=
  inferInstanceAs (Decidable (∀ d ∈ docs, d.name ≠ name ∧
    ∀ i ∈ d.inferences, ∀ dep ∈ i.dependsOn, dep.key ≠ name))

theorem Unmentioned.confined {name : String} (h : Unmentioned docs name)
    (hd : ∃ doc ∈ docs, doc.name = d) : Confined (· ≠ name) docs d where
  name := by
    obtain ⟨doc, hdoc, rfl⟩ := hd
    exact (h doc hdoc).1
  dependency := by
    intro i p hp
    obtain ⟨doc, hdoc, -, j, hj, -, dep, hdep, rfl⟩ := hp
    exact (h doc hdoc).2 j hj dep hdep

theorem agreeOn_insert (front back : List Document) (e : Document) :
    AgreeOn (· ≠ e.name) (front ++ back) (front ++ e :: back) := by
  intro doc hname
  have hne : doc ≠ e := fun he => hname (congrArg Document.name he)
  rw [List.mem_append, List.mem_append, List.mem_cons, or_iff_right hne]

/-- **A document that no other mentions changes nothing about the others**, wherever it is added. Their
facts stay the same, and so do the statuses of their inferences if one of these is mixed without it. -/
theorem evaluateAll_insert (front back : List Document) (e : Document)
    (h : Unmentioned (front ++ back) e.name) :
    (∃ m : Int, ∀ cap, m ≤ cap → (∃ q, (evaluateAll (front ++ back) cap).result = .ok q) ∧
      ∃ q, (evaluateAll (front ++ e :: back) cap).result = .ok q) ∧
    ∀ cap cap' q q', (evaluateAll (front ++ back) cap).result = .ok q →
      (evaluateAll (front ++ e :: back) cap').result = .ok q' →
      (∀ name ∈ ["inference_check", "doc_check", "inference_check_mixed"], ∀ d ∈ front ++ back,
        ∀ terms, (.text d.name :: terms) ∈ q.computed.factsOf name ↔
          (.text d.name :: terms) ∈ q'.computed.factsOf name) ∧
      ((∃ f, f ∈ q.computed.factsOf "inference_check_mixed") →
        ∃ statuses statuses', q.statuses = .ok statuses ∧ q'.statuses = .ok statuses' ∧
          ∀ d ∈ front ++ back, ∀ i, statuses.get? (d.name, i) = statuses'.get? (d.name, i)) := by
  have hagree := agreeOn_insert front back e
  have hconfined {d : Document} (hd : d ∈ front ++ back) :
      Confined (· ≠ e.name) (front ++ back) d.name := h.confined ⟨d, hd, rfl⟩
  refine ⟨exists_evaluateAll_both _ _, fun cap cap' q q' hq hq' => ⟨?_, fun hmixed => ?_⟩⟩
  · intro name hn d hd terms
    exact hagree.mem_factsOf_iff (hconfined hd) hq hq' hn
  · have hany : AnyMixed (front ++ back) := (exists_fact_mixed_iff hq).1 hmixed
    -- The inference that is mixed stays so, hence both batches give out statuses.
    have hany' : AnyMixed (front ++ e :: back) := by
      obtain ⟨d, i, hm⟩ := hany
      exact ⟨d, i, (hagree.mixed_iff (h.confined hm.1.infers.exists_name)).1 hm⟩
    obtain ⟨statuses, statuses', hok, hok', hget⟩ := hagree.exists_statuses hany hany' hq hq'
    exact ⟨statuses, statuses', hok, hok', fun d hd => hget d.name (hconfined hd)⟩

/-- Someone looks at the leases, and finds what is not so. -/
def visit : Document where
  name := "visit"
  assumptions := [{ id := .number 1, value := false }]
  inferences := [{ id := .number 2, dependsOn := [.text "lease"] }]

theorem evaluateAll_insert_visit :
    Unmentioned (leases.take 1 ++ leases.drop 1) visit.name ∧
      ∃ q q' statuses statuses',
        (evaluateAll (leases.take 1 ++ leases.drop 1) 10).result = .ok q ∧
        (evaluateAll (leases.take 1 ++ visit :: leases.drop 1) 10).result = .ok q' ∧
        [.text "lease", .text "5"] ∈ q.computed.factsOf "inference_check_mixed" ∧
        [.text "visit", .text "2"] ∈ q'.computed.factsOf "inference_check_mixed" ∧
        q.statuses = .ok statuses ∧ q'.statuses = .ok statuses' ∧
        ∀ d ∈ leases.take 1 ++ leases.drop 1, ∀ i,
          statuses.get? (d.name, i) = statuses'.get? (d.name, i) := by
  have hvisit : Unmentioned (leases.take 1 ++ leases.drop 1) visit.name := by decide
  obtain ⟨q, hq, hmixed⟩ : ∃ q, (evaluateAll (leases.take 1 ++ leases.drop 1) 10).result = .ok q ∧
      [.text "lease", .text "5"] ∈ q.computed.factsOf "inference_check_mixed" := ⟨_, rfl, by decide⟩
  obtain ⟨q', hq', hmixed'⟩ : ∃ q,
      (evaluateAll (leases.take 1 ++ visit :: leases.drop 1) 10).result = .ok q ∧
      [.text "visit", .text "2"] ∈ q.computed.factsOf "inference_check_mixed" := ⟨_, rfl, by decide⟩
  obtain ⟨-, hsame⟩ := (evaluateAll_insert (leases.take 1) (leases.drop 1) visit hvisit).2 10 10 q q'
    hq hq'
  obtain ⟨statuses, statuses', hok, hok', hget⟩ := hsame ⟨_, hmixed⟩
  exact ⟨hvisit, q, q', statuses, statuses', hq, hq', hmixed, hmixed', hok, hok', hget⟩

/-! ## Documents that are left out -/

/-- An inference under the name depends on this number. -/
def DependsOnNumber (docs : List Document) (name : String) (n : Int) : Prop :=
  ∃ d ∈ docs, d.name = name ∧ ∃ i ∈ d.inferences, .number n ∈ i.dependsOn

/-- The inferences under the name depend on numbers only. -/
def Numeric (docs : List Document) (name : String) : Prop :=
  ∀ d ∈ docs, d.name = name → ∀ i ∈ d.inferences, ∀ dep ∈ i.dependsOn, ∃ n, dep = .number n

theorem Numeric.confined {name : String} (h : Numeric docs name) :
    Confined (fun x => x = name ∨ ∃ n, DependsOnNumber docs name n ∧ x = toString n) docs name where
  name := Or.inl rfl
  dependency := by
    intro i p hp
    obtain ⟨doc, hdoc, hname, j, hj, -, dep, hdep, rfl⟩ := hp
    obtain ⟨n, rfl⟩ := h doc hdoc hname j hj dep hdep
    exact Or.inr ⟨n, ⟨doc, hdoc, hname, j, hj, hdep⟩, rfl⟩

end Document

end Verdict

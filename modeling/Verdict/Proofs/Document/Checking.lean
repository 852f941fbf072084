import Verdict.Proofs.Document.Meaning
import Verdict.Proofs.Document.Merging
import Verdict.Proofs.Outcome

/-!
# The check of documents does what it means

The main statement about checking documents (`Document.evaluateAll_meaning`): a batch that returns has
found exactly the truth values that the inferences reach, and the statuses it holds are the outcomes of
the inferences — or nothing at all, as long as no inference is mixed.
-/

namespace Verdict

namespace Check

open Document

variable {docs : List Document} {p : Program}

theorem ofTerm_term (st : Status) : Status.ofTerm (st.term : Term) = .ok st := by
  cases st <;> rfl

/-- Facts of the last predicate give the outcome that they name. -/
theorem gives_iff {d i d' i' : String} {st s : Status} :
    Status.Gives ([.text d', .text i', st.term] : Fact) (d, i) s ↔ d' = d ∧ i' = i ∧ st = s := by
  constructor
  · intro h
    have h' : Status.Gives ([.text d', .text i', st.term] : Fact) (d', i') st :=
      ⟨_, _, _, rfl, rfl, ofTerm_term st⟩
    obtain ⟨hkey, hst⟩ := h'.unique h
    cases hkey
    exact ⟨rfl, rfl, hst⟩
  · intro h
    obtain ⟨hd, hi, hst⟩ := h
    subst hd hi hst
    exact ⟨_, _, _, rfl, rfl, ofTerm_term st⟩

/-- The statuses that a settled checking program holds. -/
theorem exists_of_statuses {s : Store} (h : (Program.ofDocuments docs).Reaches ∅ s)
    (hs : (Program.ofDocuments docs).Settled s) :
    ∃ statuses, ((Program.ofDocuments docs).withComputed s).statuses = .ok statuses ∧
      ∀ d i st, statuses.get? (d, i) = some st ↔ AnyMixed docs ∧ HasStatus docs d i st := by
  have hmem (f : Fact) := mem_factsOf_stratified h hs (f := f)
  rw [Program.statuses_eq]
  have none (key : String × String) : Status.Sums (fun _ => False) ((∅ : Statuses).get? key) :=
    .nothing fun _ h => h
  have rows : ∀ f ∈ (s.factsOf "inference_check_stratified").facts,
      ∃ key st, Status.Gives f key st := by
    intro f hf
    obtain ⟨_, d, i, st, _, e⟩ := (hmem f).1 hf
    exact ⟨(d, i), st, e ▸ gives_iff.2 ⟨rfl, rfl, rfl⟩⟩
  obtain ⟨statuses, hok, hsums⟩ := Status.exists_of_ofFacts none rows
  refine ⟨statuses, hok, fun d i st => ?_⟩
  have given (t : Status) : (False ∨ ∃ f ∈ (s.factsOf "inference_check_stratified").facts,
      Status.Gives f (d, i) t) ↔ AnyMixed docs ∧ HasStatus docs d i t := by
    constructor
    · intro hg
      obtain ⟨f, hf, hg⟩ := hg.resolve_left not_false
      obtain ⟨hany, d', i', st', hst, e⟩ := (hmem f).1 hf
      rw [e, gives_iff] at hg
      obtain ⟨rfl, rfl, rfl⟩ := hg
      exact ⟨hany, hst⟩
    · intro h
      obtain ⟨hany, ht⟩ := h
      exact Or.inr ⟨_, (hmem _).2 ⟨hany, d, i, t, ht, rfl⟩, gives_iff.2 ⟨rfl, rfl, rfl⟩⟩
  exact ((hsums (d, i)).congr given).eq_some_iff fun s t hs ht => hs.2.unique ht.2

end Check

open Check

/-- **A batch that returns has found what the inferences reach.** The facts of `inference_check` are
the truth values that the inferences reach; the last predicate gives an inference at most one value;
and the statuses are the outcomes of the inferences, or none while no inference is mixed. -/
theorem Document.evaluateAll_meaning (docs : List Document) (cap : Int) (q : Program)
    (h : (Document.evaluateAll docs cap).result = .ok q) :
    (∀ f, f ∈ q.computed.factsOf "inference_check" ↔
      ∃ d i v, Reaches docs d i v ∧ f = [.text d, .text i, .truth v]) ∧
    (∀ f ∈ q.computed.factsOf "inference_check_stratified", ∃ d i x, f = [.text d, .text i, x]) ∧
    (∀ t u x y, [t, u, x] ∈ q.computed.factsOf "inference_check_stratified" →
      [t, u, y] ∈ q.computed.factsOf "inference_check_stratified" → x = y) ∧
    ∃ statuses, q.statuses = .ok statuses ∧ (¬ AnyMixed docs → statuses = ∅) ∧
      (AnyMixed docs → ∀ d i st, statuses.get? (d, i) = some st ↔ HasStatus docs d i st) := by
  obtain ⟨s, rfl, hreach, hs⟩ := exists_of_evaluateAll h
  obtain ⟨statuses, hok, hget⟩ := exists_of_statuses hreach hs
  refine ⟨fun f => ?_, fun f hf => ?_, fun t u x y hx hy => ?_, statuses, hok, fun hno => ?_,
    fun hany d i st => ?_⟩
  · exact (mem_factsOf_iff_meaning hreach hs (by simp [positive])).trans meaning_inferenceCheck
  · obtain ⟨_, d, i, st, _, e⟩ := (mem_factsOf_stratified hreach hs).1 hf
    exact ⟨d, i, _, e⟩
  · obtain ⟨_, d, i, st, hst, e⟩ := (mem_factsOf_stratified hreach hs).1 hx
    obtain ⟨_, d', i', st', hst', e'⟩ := (mem_factsOf_stratified hreach hs).1 hy
    cases e
    cases e'
    rw [hst.unique hst']
  · apply Table.ext
    show statuses.entries = []
    rw [List.eq_nil_iff_forall_not_mem]
    intro e hmem
    obtain ⟨⟨d, i⟩, st⟩ := e
    exact hno ((hget d i st).1 (Table.get?_eq_some_iff.2 hmem)).1
  · rw [hget d i st, and_iff_right hany]

/-- A lease in two parts with inferences that lean on each other, and another document that is drawn
from the whole of it. -/
def leases : List Document :=
  [{ name := "lease"
     assumptions := [{ id := .number 1, value := true }, { id := .number 2, value := false }]
     inferences := [{ id := .number 3, dependsOn := [.text "1", .number 2] }] },
   { name := "audit"
     assumptions := [{ id := .number 1, value := true }]
     inferences :=
       [{ id := .text "all", dependsOn := [.text "lease"] },
        { id := .number 7, dependsOn := [.number 1] },
        { id := .number 8, dependsOn := [.number 9] }] },
   { name := "lease"
     inferences :=
       [{ id := .number 4, dependsOn := [.number 5, .text "3"] },
        { id := .number 5, dependsOn := [.number 4] }] }]

theorem evaluateAll_leases :
    ∃ q, (Document.evaluateAll leases 10).result = .ok q ∧ Document.Mixed leases "lease" "5" ∧
      ¬ Document.Reaches leases "audit" "8" true ∧ Document.HasStatus leases "audit" "7" .holds := by
  refine ⟨_, rfl, ?_⟩
  obtain ⟨hcheck, -, -, statuses, hok, -, hget⟩ := Document.evaluateAll_meaning leases 10 _ rfl
  obtain ⟨_, _, _, ht, e⟩ := (hcheck [.text "lease", .text "5", .truth true]).1 (by decide)
  obtain ⟨_, _, _, hf, e'⟩ := (hcheck [.text "lease", .text "5", .truth false]).1 (by decide)
  cases e
  cases e'
  have hmixed : Document.Mixed leases "lease" "5" := ⟨ht, hf⟩
  refine ⟨hmixed, fun h => ?_, (hget ⟨_, _, hmixed⟩ "audit" "7" .holds).1 ?_⟩
  · exact absurd ((hcheck _).2 ⟨_, _, _, h, rfl⟩) (by decide)
  · have e : Except.ok statuses = (.ok _ : Except StatusError Statuses) := hok.symm.trans rfl
    cases e
    decide

end Verdict

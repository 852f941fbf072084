import Mathlib.Data.Set.Card
import Verdict.Proofs.Document.Rest
import Verdict.Proofs.Evaluation.WarmStart

/-!
# How many rounds the check of documents takes

An inference reaches a truth value over a chain of inferences, and the chain need not pass one of them
twice. At its end is an assumption, or a whole document, which is known one round later, since
`doc_check` comes behind `inference_check` in the declared order. Every round goes one link further
(`Advanced.of_round`), and the outcomes are right in the round in which the last value is found, for they
come last. One more round sees that nothing changes.

> A batch of documents with `n` inferences is evaluated within `n + 2` rounds, whatever circles the
> dependencies form (`Document.evaluateAll_within`).

Inferences are counted as they are known to the program, by the name of the document and the key of
the id. There are batches that take as many rounds (`Document.evaluateAll_within_relay`).
-/

namespace Verdict

namespace Document

/-! ## Values that are found early -/

/-- The inferences of the documents, each once. -/
def inferenceKeys (docs : List Document) : Finset (String × String) :=
  (docs.flatMap fun d => d.inferences.map fun i => (d.name, i.id.key)).toFinset

/-- The inference reaches the value in so many rounds. -/
inductive ReachesWithin (docs : List Document) : Nat → String → String → Bool → Prop where
  | assumption {k : Nat} {d i p : String} {v : Bool} :
    Depends docs d i p → Assumes docs d p v → ReachesWithin docs (k + 1) d i v
  | inference {k : Nat} {d i p : String} {v : Bool} :
    Depends docs d i p → Infers docs d p → ReachesWithin docs k d p v →
      ReachesWithin docs (k + 1) d i v
  /-- What a document assumes has to be found before it can be used. -/
  | document {k : Nat} {d i p a : String} {v : Bool} :
    Depends docs d i p → Assumes docs p a v → ReachesWithin docs (k + 2) d i v

variable {docs : List Document} {d i : String} {v : Bool} {k l : Nat}

theorem mem_inferenceKeys : (d, i) ∈ inferenceKeys docs ↔ Infers docs d i := by
  simp only [inferenceKeys, List.mem_toFinset, List.mem_flatMap, List.mem_map, Prod.mk.injEq]
  constructor
  · rintro ⟨doc, hdoc, j, hj, hname, hkey⟩
    exact ⟨doc, hdoc, hname, j, hj, hkey⟩
  · rintro ⟨doc, hdoc, hname, j, hj, hkey⟩
    exact ⟨doc, hdoc, j, hj, hname, hkey⟩

theorem ReachesWithin.infers (h : ReachesWithin docs k d i v) : Infers docs d i := by
  cases h with
  | assumption hp _ => exact hp.infers
  | inference hp _ _ => exact hp.infers
  | document hp _ => exact hp.infers

theorem ReachesWithin.succ (h : ReachesWithin docs k d i v) : ReachesWithin docs (k + 1) d i v := by
  induction h with
  | assumption hp ha => exact .assumption hp ha
  | inference hp hi _ ih => exact .inference hp hi ih
  | document hp ha => exact .document hp ha

theorem ReachesWithin.mono (h : ReachesWithin docs k d i v) (hkl : k ≤ l) :
    ReachesWithin docs l d i v := by
  induction hkl with
  | refl => exact h
  | step _ ih => exact ih.succ

theorem Reaches.exists_within (h : Reaches docs d i v) : ∃ k, ReachesWithin docs k d i v := by
  induction h with
  | assumption hp ha => exact ⟨1, .assumption hp ha⟩
  | inference hp hi _ ih =>
    obtain ⟨k, hk⟩ := ih
    exact ⟨k + 1, .inference hp hi hk⟩
  | document hp ha => exact ⟨2, .document hp ha⟩

/-! ### No chain is longer than there are inferences -/

/-- The inferences that reach the value in so many rounds. -/
def reachedWithin (docs : List Document) (v : Bool) (k : Nat) : Set (String × String) :=
  {x | ReachesWithin docs k x.1 x.2 v}

theorem reachedWithin_subset_succ : reachedWithin docs v k ⊆ reachedWithin docs v (k + 1) :=
  fun _ hx => hx.succ

theorem reachedWithin_subset_inferenceKeys : reachedWithin docs v k ⊆ ↑(inferenceKeys docs) :=
  fun _ hx => mem_inferenceKeys.2 hx.infers

theorem finite_reachedWithin (docs : List Document) (v : Bool) (k : Nat) :
    (reachedWithin docs v k).Finite :=
  (inferenceKeys docs).finite_toSet.subset reachedWithin_subset_inferenceKeys

theorem ncard_reachedWithin_le : (reachedWithin docs v k).ncard ≤ (inferenceKeys docs).card := by
  rw [← Set.ncard_coe_finset]
  exact Set.ncard_le_ncard reachedWithin_subset_inferenceKeys (inferenceKeys docs).finite_toSet

theorem reachedWithin_eq_of_ncard_le
    (h : (reachedWithin docs v l).ncard ≤ (reachedWithin docs v k).ncard) (hkl : k ≤ l) : reachedWithin docs v k = reachedWithin docs v l :=
  Set.eq_of_subset_of_ncard_le (fun _ hx => hx.mono hkl) h (finite_reachedWithin docs v l)

/-- A round from the second on that finds nothing new is the last one that could. -/
theorem reachedWithin_stable (h : reachedWithin docs v (k + 1) = reachedWithin docs v (k + 2)) :
    reachedWithin docs v (k + 2) = reachedWithin docs v (k + 3) := by
  refine Set.Subset.antisymm reachedWithin_subset_succ fun x hx => ?_
  cases hx with
  | assumption hp ha => exact .assumption hp ha
  | @inference _ _ _ q _ hp hi hr =>
    have hq : (x.1, q) ∈ reachedWithin docs v (k + 2) := hr
    rw [← h] at hq
    exact .inference hp hi hq
  | document hp ha => exact .document hp ha

/-- **Each value is reached in one round more than there are inferences**, if it is reached at all. -/
theorem Reaches.within (h : Reaches docs d i v) :
    ReachesWithin docs ((inferenceKeys docs).card + 1) d i v := by
  let n := (inferenceKeys docs).card
  let found (m : Nat) := (reachedWithin docs v (m + 1)).ncard
  have hmono : Monotone found := monotone_nat_of_le_succ fun m =>
    Set.ncard_le_ncard reachedWithin_subset_succ (finite_reachedWithin docs v (m + 2))
  have hstable (m : Nat) (hm : found m = found (m + 1)) : found (m + 1) = found (m + 2) := by
    have heq := reachedWithin_eq_of_ncard_le (Nat.le_of_eq hm.symm) (Nat.le_succ (m + 1))
    exact congrArg Set.ncard (reachedWithin_stable heq)
  obtain ⟨k, hk⟩ := h.exists_within
  have hfound : found (max k n) = found n :=
    Nat.stabilises_of_monotone hmono (fun _ => ncard_reachedWithin_le) hstable (Nat.le_max_right k n)
  have heq : reachedWithin docs v (n + 1) = reachedWithin docs v (max k n + 1) :=
    reachedWithin_eq_of_ncard_le (Nat.le_of_eq hfound) (by omega)
  have hlate : (d, i) ∈ reachedWithin docs v (max k n + 1) := hk.mono (by omega)
  rw [← heq] at hlate
  exact hlate

end Document

/-! ## One round -/

namespace Program

variable {α : Type} [DecidableEq α] {p : Program α} {K : String → Prop} {s t : Store α}

theorem sweep_append_eq_ok_iff {l m : List (String × Predicate α)} {changed : Bool} :
    p.sweep (l ++ m) s = .ok (t, changed) ↔
      ∃ u first later, p.sweep l s = .ok (u, first) ∧ p.sweep m u = .ok (t, later) ∧
        changed = (first || later) := by
  induction l generalizing s changed with
  | nil =>
    constructor
    · intro h
      exact ⟨s, false, changed, rfl, h, rfl⟩
    · rintro ⟨u, first, later, hu, ht, rfl⟩
      cases hu
      exact ht
  | cons e rest ih =>
    obtain ⟨name, pred⟩ := e
    simp only [List.cons_append, sweep_cons_eq_ok_iff, ih]
    constructor
    · rintro ⟨o, _, ho, ⟨u, first, later, hu, ht, rfl⟩, rfl⟩
      exact ⟨u, _, later, ⟨o, first, ho, hu, rfl⟩, ht, (Bool.or_assoc ..).symm⟩
    · rintro ⟨u, _, later, ⟨o, first, ho, hu, rfl⟩, ht, rfl⟩
      exact ⟨o, _, ho, ⟨u, first, later, hu, ht, rfl⟩, Bool.or_assoc ..⟩

/-- **What can be derived before a pass is there after it**, in the monotone part. -/
theorem Growing.mem_of_sweep (hK : p.MonotoneOn K) {l : List (String × Predicate α)}
    (hl : ∀ e ∈ l, e ∈ p.predicates) (hs : p.Growing K s) {changed : Bool}
    (h : p.sweep l s = .ok (t, changed)) {name : String} {pred : Predicate α} (hm : (name, pred) ∈ l)
    (hn : K name) {f : Fact α} (hf : pred.Derives (p.view s) f) : f ∈ t.factsOf name := by
  induction l generalizing s changed with
  | nil => cases hm
  | cons e rest ih =>
    obtain ⟨n, q⟩ := e
    obtain ⟨hq, hrest⟩ := List.forall_mem_cons.1 hl
    obtain ⟨o, _, ho, hut, -⟩ := sweep_cons_eq_ok_iff.1 h
    have hsu : p.Reaches s (o.getD s) := by
      cases o with
      | none => exact .refl
      | some u => exact .single ⟨n, q, hq, ho⟩
    obtain ⟨hu, hle⟩ := hs.of_reaches hK hsu
    rcases List.mem_cons.1 hm with e | hm
    · cases e
      have hfu := ((factsOf_of_update ho).1 f).2 hf
      exact (hu.of_reaches hK (reaches_of_sweep hrest hut)).2 name hn f hfu
    · exact ih hrest hu hut hm (hK.derives (hrest _ hm) hn hs.covers.reads hu.covers.reads hle hf)

/-- A monotone part that has all facts of a closed assignment, and no others, is steady. -/
theorem Growing.steadyOn (hK : p.MonotoneOn K) {S : Interpretation α} (hS : p.ClosedOn K S)
    (hs : p.Growing K s) (hle : s.interpretation.LeOn K S) (hge : S.LeOn K s.interpretation)
    (hderive : ∀ name pred, (name, pred) ∈ p.predicates → ∃ r, p.derive s pred = .ok r) :
    p.SteadyOn K s := by
  intro name pred hm hn
  obtain ⟨r, hr⟩ := hderive name pred hm
  refine update_eq_none_iff.2 ⟨r, hr, fun f => ?_⟩
  rw [mem_derive hr]
  constructor
  · exact hs.derivable name pred hm hn f
  · intro hf
    exact hge name hn f (hS name pred hm hn f (hK.derives hm hn hs.covers.reads (reads_viewOf S) hle hf))

end Program

namespace Check

open Document Program

variable {docs : List Document} {s t : Store} {k : Nat}

theorem predicates_ofDocuments (docs : List Document) : (ofDocuments docs : Program).predicates =
    [("inference_check", inferenceCheck), ("doc_check", docCheck)] ++
      ([("inference_check_mixed", mixed)] ++ [("inference_check_stratified", stratified)]) := by
  rfl

/-- The outcomes are not used any further, so whatever is used of predicates denies nothing. -/
theorem usesWithin_positive :
    (ofDocuments docs : Program).UsesWithin (fun _ => True) (· ∈ positive) := by
  rintro a _ - ⟨pred, hm, rule, hr, c, hc, rfl⟩ ⟨q, hq⟩
  have hall : ∀ e ∈ (ofDocuments docs : Program).predicates, ∀ rule ∈ e.2.rules, ∀ c ∈ rule,
      c.relation ≠ "inference_check_stratified" := of_decide_eq_true rfl
  rcases mem_predicates_ofDocuments.1 hq with h | h | h | h
  · simp [positive, h.1]
  · simp [positive, h.1]
  · simp [positive, h.1]
  · exact absurd h.1 (hall _ hm rule hr c hc)

/-! ## Round by round -/

/-- What is found after so many rounds. -/
structure Advanced (docs : List Document) (k : Nat) (s : Store) : Prop where
  reached : (ofDocuments docs).Reaches ∅ s
  inference : ∀ d i v, ReachesWithin docs k d i v →
    [.text d, .text i, .truth v] ∈ s.factsOf "inference_check"
  document : 0 < k → ∀ d a v, Assumes docs d a v → [.text d, .truth v] ∈ s.factsOf "doc_check"

theorem advanced_empty : Advanced docs 0 ∅ where
  reached := .refl
  inference _ _ _ h := nomatch h
  document h := nomatch h

namespace Advanced

theorem growing (h : Advanced docs k s) : (ofDocuments docs).Growing (· ∈ positive) s :=
  ((growing_empty _).of_reaches monotoneOn_positive h.reached).1

/-- What is reached one round later can be derived. -/
theorem derives (h : Advanced docs k s) {d i : String} {v : Bool}
    (hr : ReachesWithin docs (k + 1) d i v) :
    inferenceCheck.Derives ((ofDocuments docs).view s) [.text d, .text i, .truth v] := by
  rw [inferenceCheck_iff h.growing.covers.reads]
  cases hr with
  | @assumption _ _ _ p _ hp ha => exact ⟨d, i, p, .truth v, rfl, hp, Or.inl ⟨v, ha, rfl⟩⟩
  | @inference _ _ _ p _ hp hi hr =>
    exact ⟨d, i, p, .truth v, rfl, hp, Or.inr (Or.inl ⟨hi, h.inference d p v hr⟩)⟩
  | @document l _ _ p a _ hp ha =>
    have hdoc := h.document (Nat.succ_pos l) p a v ha
    exact ⟨d, i, p, .truth v, rfl, hp, Or.inr (Or.inr ⟨ha.exists_name, hdoc⟩)⟩

/-- **A pass through the first two predicates takes every chain one link further.** -/
theorem of_sweep (h : Advanced docs k s) {l : List (String × Predicate)}
    (hl : ∀ e ∈ l, e ∈ (ofDocuments docs).predicates)
    (hinference : ("inference_check", inferenceCheck) ∈ l) (hdoc : ("doc_check", docCheck) ∈ l)
    {changed : Bool} (ht : (ofDocuments docs).sweep l s = .ok (t, changed)) :
    Advanced docs (k + 1) t where
  reached := h.reached.trans (reaches_of_sweep hl ht)
  inference d i v hr :=
    h.growing.mem_of_sweep monotoneOn_positive hl ht hinference (by simp [positive]) (h.derives hr)
  document _ d a v ha :=
    h.growing.mem_of_sweep monotoneOn_positive hl ht hdoc (by simp [positive])
      ((docCheck_iff h.growing.covers.reads).2 ⟨d, a, v, ha, rfl⟩)

theorem of_round (h : Advanced docs k s) {changed : Bool}
    (ht : (ofDocuments docs).round s = .ok (t, changed)) : Advanced docs (k + 1) t := by
  refine h.of_sweep (fun _ he => he) ?_ ?_ ht
  · exact mem_predicates_iff.2 get?_inferenceCheck
  · exact mem_predicates_iff.2 get?_docCheck

/-- After so many rounds all values are found. -/
theorem inference_of_reaches (h : Advanced docs ((inferenceKeys docs).card + 1) s) {d i : String}
    {v : Bool} (hr : Reaches docs d i v) :
    [.text d, .text i, .truth v] ∈ s.factsOf "inference_check" :=
  h.inference d i v hr.within

/-- Then the mixed inferences follow in the same round. -/
theorem meaning_leOn (h : Advanced docs ((inferenceKeys docs).card + 1) s) {changed : Bool}
    (ht : (ofDocuments docs).sweep [("inference_check_mixed", mixed)] s = .ok (t, changed)) :
    (meaning docs).LeOn (· ∈ positive) t.interpretation := by
  have hl : ∀ e ∈ [("inference_check_mixed", mixed)], e ∈ (ofDocuments docs : Program).predicates := by
    rw [List.forall_mem_singleton]
    exact mem_predicates_iff.2 get?_mixed
  have hgrown := (h.growing.of_reaches monotoneOn_positive (reaches_of_sweep hl ht)).2
  intro name hn f hf
  rcases hf with ⟨rfl, d, i, v, hr, rfl⟩ | ⟨rfl, d, a, v, ha, rfl⟩ | ⟨rfl, d, i, hm, rfl⟩
  · exact hgrown _ hn _ (h.inference_of_reaches hr)
  · exact hgrown _ hn _ (h.document (Nat.succ_pos _) d a v ha)
  · refine h.growing.mem_of_sweep monotoneOn_positive hl ht List.mem_cons_self hn ?_
    exact (mixed_iff h.growing.covers.reads).2
      ⟨_, _, rfl, h.inference_of_reaches hm.1, h.inference_of_reaches hm.2⟩

end Advanced

/-- A store that has all facts of the predicates that deny nothing is steady on them. -/
theorem steadyOn_of_meaning_leOn (h : (ofDocuments docs).Reaches ∅ s)
    (hle : (meaning docs).LeOn (· ∈ positive) s.interpretation) :
    (ofDocuments docs).SteadyOn (· ∈ positive) s := by
  have hgrowing := ((growing_empty _).of_reaches monotoneOn_positive h).1
  refine hgrowing.steadyOn monotoneOn_positive closedOn_meaning ?_ hle fun name pred hm => ?_
  · exact below_of_reaches monotoneOn_positive closedOn_meaning covers_empty (leOn_empty _ _) h
  · have hfits := fitsArities_ofDocuments docs
    exact hfits.exists_derive (hfits.fits_of_reaches (Store.fits_empty arity) h) hm

/-- **The round that finds the last value leaves the store settled**, since the outcomes come behind all
that they rest on. -/
theorem Advanced.settled_of_round (h : Advanced docs (inferenceKeys docs).card s) {changed : Bool}
    (ht : (ofDocuments docs).round s = .ok (t, changed)) : (ofDocuments docs).Settled t := by
  have hl := predicates_ofDocuments docs
  rw [Program.round, hl] at ht
  obtain ⟨u, _, _, hu, ht, -⟩ := sweep_append_eq_ok_iff.1 ht
  obtain ⟨w, _, _, hw, ht, -⟩ := sweep_append_eq_ok_iff.1 ht
  have hmem : ∀ e ∈ (ofDocuments docs : Program).predicates, e ∈ (ofDocuments docs).predicates :=
    fun _ he => he
  rw [hl, List.forall_mem_append, List.forall_mem_append, ← hl] at hmem
  obtain ⟨hfirst, hmixed, hlast⟩ := hmem
  have hadvanced := h.of_sweep hfirst (by simp) (by simp) hu
  have hreach := hadvanced.reached.trans (reaches_of_sweep hmixed hw)
  have hsteady := steadyOn_of_meaning_leOn hreach (hadvanced.meaning_leOn hw)
  have hcovers := covers_empty.of_reaches hreach
  have hself : (ofDocuments docs : Program).UsesWithin (· ∈ positive) (· ∈ positive) :=
    monotoneOn_positive.usesWithin
  intro name pred hm
  by_cases hn : name ∈ positive
  · exact (hsteady.of_reaches hself hcovers (reaches_of_sweep hlast ht)).1 name pred hm hn
  · refine hsteady.of_sweep hself usesWithin_positive hlast (by simp) hcovers ht name pred ?_ trivial
    rcases mem_predicates_ofDocuments.1 hm with ⟨rfl, rfl⟩ | ⟨rfl, rfl⟩ | ⟨rfl, rfl⟩ | ⟨rfl, rfl⟩
    · simp [positive] at hn
    · simp [positive] at hn
    · simp [positive] at hn
    · exact List.mem_cons_self

/-- A run that has come so far ends with the chains that are left, and two more rounds. -/
theorem Advanced.ending_ne_capReached {j : Nat} (h : Advanced docs k s)
    (hk : (inferenceKeys docs).card = k + j) :
    ((ofDocuments docs).run (j + 2) s).ending ≠ .capReached := by
  induction j generalizing k s with
  | zero =>
    refine ending_succ_ne_capReached fun t ht => ?_
    have hsettled := Advanced.settled_of_round (hk ▸ h) ht
    refine ending_succ_ne_capReached fun u hu => ?_
    rw [round_of_settled hsettled] at hu
    cases hu
  | succ j ih =>
    exact ending_succ_ne_capReached fun t ht => ih (h.of_round ht) (by omega)

end Check

open Check

/-- **A batch returns within two rounds more than it has inferences**, under every cap that has so many. -/
theorem Document.evaluateAll_within (docs : List Document) (cap : Int)
    (hcap : (inferenceKeys docs).card + 2 ≤ cap) :
    ∃ c q e', Cap.ofInt cap = .ok c ∧
      ({ cap := c } : Evaluator).evaluate (.ofDocuments docs) = (.ok q, e') ∧
      e'.roundsRun ≤ (inferenceKeys docs).card + 2 ∧
      (Document.evaluateAll docs cap).result = .ok q := by
  have hpos : 0 < cap.toNat := by omega
  have hle : (inferenceKeys docs).card + 2 ≤ cap.toNat := by omega
  have hfits := fitsArities_ofDocuments docs
  have hend : ((Program.ofDocuments docs).run ((inferenceKeys docs).card + 2) ∅).ending = .settled :=
    hfits.settled_of_ne_capReached (Store.fits_empty arity)
      (advanced_empty.ending_ne_capReached (Nat.zero_add _).symm)
  let e : Evaluator := { cap := ⟨cap.toNat, hpos⟩ }
  obtain ⟨q, hq⟩ := Program.evaluate_of_run_settled (e := e) hend hle
  refine ⟨e.cap, q, _, Cap.ofInt_of_pos hpos, hq, Program.length_snapshots_le _ _, ?_⟩
  exact evaluateAll_of_evaluate (Cap.ofInt_of_pos hpos) (congrArg Prod.fst hq)

/-- A report from another document that is handed on twice. -/
def relay : List Document :=
  [{ name := "report", assumptions := [{ id := .number 1, value := true }] },
   { name := "relay"
     inferences :=
       [{ id := .number 3, dependsOn := [.number 2, .number 3] },
        { id := .number 2, dependsOn := [.number 1] },
        { id := .number 1, dependsOn := [.text "report", .number 3] }] }]

/-- The report arrives in the last round but one, and a smaller cap is reached before. -/
theorem Document.evaluateAll_within_relay :
    ((inferenceKeys relay).card + 2 : Int) ≤ 5 ∧
      (∃ c q e', Cap.ofInt 5 = .ok c ∧
        ({ cap := c } : Evaluator).evaluate (.ofDocuments relay) = (.ok q, e') ∧ e'.roundsRun ≤ 5 ∧
        (evaluateAll relay 5).result = .ok q ∧
        [.text "relay", .text "3", .truth true] ∈ q.computed.factsOf "inference_check") ∧
      (evaluateAll relay 4).result = .error (.evaluation (.capReached 4)) := by
  have hcard : (inferenceKeys relay).card = 3 := by decide
  have hcap : ((inferenceKeys relay).card + 2 : Int) ≤ 5 := by omega
  obtain ⟨c, q, e', hc, heval, hrounds, hq⟩ := evaluateAll_within relay 5 hcap
  rw [hcard] at hrounds
  have hfact : ∃ q, (evaluateAll relay 5).result = .ok q ∧
      [.text "relay", .text "3", .truth true] ∈ q.computed.factsOf "inference_check" := ⟨_, rfl, by decide⟩
  obtain ⟨q', hq', hfact⟩ := hfact
  rw [hq] at hq'
  cases hq'
  exact ⟨hcap, ⟨c, q, e', hc, heval, hrounds, hq, hfact⟩, rfl⟩

end Verdict

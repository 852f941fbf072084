import Verdict.Proofs.Evaluation.Dependency
import Verdict.Proofs.Evaluation.Failure

/-!
# Founded facts

A fact is *founded* if it has a derivation: a finite tree whose leaves are declared facts, in which each
step is one of the rules and each denial holds in the end. A result is a fixpoint of the rules, and for
monotone ones it is the least; above a denial a fact may lie in it that has no derivation, because it
is its own ground.

> Every fact of a name is founded that depends on no recursion above a denial.

With such a recursion it may not be (`stale_suspect`): a fact that was derived while the denied
predicate was still incomplete is recomputed from itself ever after.
-/

namespace Verdict

variable {α : Type}

/-! ## Two views of a body -/

/-- The body is passed with facts of `V` for its positive clauses and denials that hold in `W`. -/
def Rule.SatOver (V W : View α) : Rule α → Valuation α → Valuation α → Prop
  | [], v, w => w = v
  | c :: rule, v, w =>
    ∃ u, c.Sat (if c.negated then W else V) v u ∧ Rule.SatOver V W rule u w

def Predicate.DerivesOver (V W : View α) (pred : Predicate α) (f : Fact α) : Prop :=
  ∃ rule ∈ pred.rules, ∃ w, Rule.SatOver V W rule .empty w ∧ pred.args.mapM w = some f

theorem Rule.satOver_self {V : View α} {rule : Rule α} {v w : Valuation α} :
    Rule.SatOver V V rule v w ↔ Rule.Sat V rule v w := by
  induction rule generalizing v with
  | nil => exact Iff.rfl
  | cons c rule ih => simp only [SatOver, Sat, ite_self, ih]

theorem Predicate.derivesOver_self {V : View α} {pred : Predicate α} {f : Fact α} :
    pred.DerivesOver V V f ↔ pred.Derives V f := by
  simp only [DerivesOver, Derives, Rule.satOver_self]

theorem Rule.SatOver.mono {V W V' W' : View α} {rule : Rule α} {v w : Valuation α}
    (hpos : ∀ c ∈ rule, c.negated = false → ∀ f, V.Holds c.relation f → V'.Holds c.relation f)
    (hneg : ∀ c ∈ rule, c.negated = true → (W.Known c.relation → W'.Known c.relation) ∧
      ∀ f, W'.Holds c.relation f → W.Holds c.relation f)
    (h : Rule.SatOver V W rule v w) : Rule.SatOver V' W' rule v w := by
  induction rule generalizing v with
  | nil => exact h
  | cons c rule ih =>
    obtain ⟨hpos, hpos'⟩ := List.forall_mem_cons.1 hpos
    obtain ⟨hneg, hneg'⟩ := List.forall_mem_cons.1 hneg
    obtain ⟨u, hu, hr⟩ := h
    refine ⟨u, hu.mono ?_, ih hpos' hneg' hr⟩
    unfold View.LeAt
    split
    · next hn => exact hneg hn
    · next hn => exact hpos (Bool.eq_false_of_not_eq_true hn)

theorem Predicate.DerivesOver.mono {V W V' W' : View α} {pred : Predicate α} {f : Fact α}
    (hpos : ∀ rule ∈ pred.rules, ∀ c ∈ rule, c.negated = false →
      ∀ g, V.Holds c.relation g → V'.Holds c.relation g)
    (hneg : ∀ rule ∈ pred.rules, ∀ c ∈ rule, c.negated = true →
      (W.Known c.relation → W'.Known c.relation) ∧
        ∀ g, W'.Holds c.relation g → W.Holds c.relation g)
    (h : pred.DerivesOver V W f) : pred.DerivesOver V' W' f := by
  obtain ⟨rule, hr, w, hw, hf⟩ := h
  exact ⟨rule, hr, w, hw.mono (hpos rule hr) (hneg rule hr), hf⟩

theorem Rule.SatOver.exists_holds {V W : View α} {rule : Rule α} {v w : Valuation α}
    (h : Rule.SatOver V W rule v w) {c : Clause α} (hc : c ∈ rule) (hn : c.negated = false) :
    ∃ row, V.Holds c.relation row := by
  induction rule generalizing v with
  | nil => cases hc
  | cons d rule ih =>
    obtain ⟨u, hu, hr⟩ := h
    rcases List.mem_cons.1 hc with rfl | hc
    · rw [hn, if_neg Bool.false_ne_true] at hu
      obtain ⟨row, hrow, -⟩ := (Clause.sat_of_positive hn).1 hu
      exact ⟨row, hrow⟩
    · exact ih hr hc

def View.ofFacts (facts : List (String × Fact α)) : View α where
  Known _ := True
  Holds name f := (name, f) ∈ facts

/-- The way through a body takes finitely many facts. -/
theorem Rule.SatOver.exists_premises {V W : View α} {rule : Rule α} {v w : Valuation α}
    (h : Rule.SatOver V W rule v w) :
    ∃ premises, (∀ x ∈ premises, V.Holds x.1 x.2) ∧
      Rule.SatOver (.ofFacts premises) W rule v w := by
  induction rule generalizing v with
  | nil => exact ⟨[], List.forall_mem_nil _, h⟩
  | cons c rule ih =>
    obtain ⟨u, hu, hr⟩ := h
    obtain ⟨premises, hV, hrest⟩ := ih hr
    cases hn : c.negated with
    | true =>
      rw [hn, if_pos rfl] at hu
      refine ⟨premises, hV, u, ?_, hrest⟩
      rw [hn, if_pos rfl]
      exact hu
    | false =>
      rw [hn, if_neg Bool.false_ne_true] at hu
      obtain ⟨row, hrow, hm⟩ := (Clause.sat_of_positive hn).1 hu
      refine ⟨(c.relation, row) :: premises, List.forall_mem_cons.2 ⟨hrow, hV⟩, u, ?_, ?_⟩
      · rw [hn, if_neg Bool.false_ne_true]
        exact (Clause.sat_of_positive hn).2 ⟨row, List.mem_cons_self, hm⟩
      · exact hrest.mono (fun _ _ _ _ hf => List.mem_cons_of_mem _ hf)
          fun _ _ _ => ⟨id, fun _ => id⟩

namespace Program

/-! ## Derivations -/

/-- The fact has a derivation from declared facts whose denials hold in `W`. -/
inductive Founded (p : Program α) (W : View α) : String → Fact α → Prop
  | declared {name : String} {r : Relation α} {f : Fact α}
      (hnode : p.nodes.get? name = some (.relation r)) (hf : f ∈ r) : Founded p W name f
  | derived {name : String} {pred : Predicate α} {f : Fact α} (premises : List (String × Fact α))
      (hpremises : ∀ x ∈ premises, Founded p W x.1 x.2) (hm : (name, pred) ∈ p.predicates)
      (hder : pred.DerivesOver (.ofFacts premises) W f) : Founded p W name f

variable {p : Program α}

theorem founded_of_stands {W : View α} {S : Interpretation α} {name : String} {f : Fact α}
    (hS : S name f → p.Founded W name f) (h : p.Stands S name f) : p.Founded W name f := by
  unfold Stands at h
  split at h
  · next r hr => exact .declared hr h
  · exact hS h
  · exact h.elim

/-- **What a rule derives from founded facts is founded.** -/
theorem founded_of_derivesOver {V W : View α} {name : String} {pred : Predicate α} {f : Fact α}
    (hm : (name, pred) ∈ p.predicates)
    (hV : ∀ rule ∈ pred.rules, ∀ c ∈ rule, c.negated = false →
      ∀ g, V.Holds c.relation g → p.Founded W c.relation g)
    (h : pred.DerivesOver V W f) : p.Founded W name f := by
  let U : View α := ⟨fun _ => True, p.Founded W⟩
  obtain ⟨rule, hr, w, hw, hf⟩ := h
  have hU : Rule.SatOver U W rule .empty w := hw.mono (hV rule hr) fun _ _ _ => ⟨id, fun _ => id⟩
  obtain ⟨premises, hpremises, hw⟩ := hU.exists_premises
  exact .derived premises hpremises hm ⟨rule, hr, w, hw, hf⟩

variable [DecidableEq α]

/-- **Where its denials hold as well, a derivation leads to facts of a settled store.** `K` has the names
that occur in it. -/
theorem Founded.holds {K : String → Prop} (hK : ∀ a b, K a → p.Uses a b → K b) {W : View α}
    {t : Store α} (ht : p.Covers t) (hsettled : p.Settled t)
    (hden : ∀ a b, K a → p.Denies a b →
      (W.Known b → (p.view t).Known b) ∧ ∀ f, (p.view t).Holds b f → W.Holds b f)
    {name : String} {f : Fact α} (h : p.Founded W name f) (hname : K name) :
    (p.view t).Holds name f := by
  induction h with
  | declared hnode hf => exact (ht.reads.holds _ _).2 ((stands_of_relation hnode).2 hf)
  | @derived name pred f premises _ hm hder ih =>
    refine (ht.reads.holds name f).2 ((stands_of_predicate (mem_predicates_iff.1 hm)).2 ?_)
    refine (hsettled.mem_factsOf hm).2 (Predicate.derivesOver_self.1 (hder.mono ?_ ?_))
    · intro rule hr c hc _ g hg
      exact ih (c.relation, g) hg (hK name c.relation hname ⟨pred, hm, rule, hr, c, hc, rfl⟩)
    · intro rule hr c hc hn
      exact hden name c.relation hname ⟨pred, hm, rule, hr, c, hc, hn, rfl⟩

/-! ## Foundedness of results -/

theorem founded_of_not_aboveDenial (hvalid : p.Valid) {s t : Store α} (hs : p.Reaches ∅ s)
    (ht : p.Covers t) {name : String} (hname : ¬ p.AboveDenial name) {f : Fact α}
    (hf : f ∈ s.factsOf name) : p.Founded (p.view t) name f := by
  have hK := hvalid.monotoneOn
  have hclosed : p.ClosedOn (fun name => ¬ p.AboveDenial name) (p.Founded (p.view t)) := by
    intro name pred hm hname f hder
    refine founded_of_derivesOver (V := p.viewOf (p.Founded (p.view t))) hm
      (fun _ _ _ _ _ _ => founded_of_stands id) ?_
    refine (Predicate.derivesOver_self.2 hder).mono (fun _ _ _ _ _ _ => id) fun rule hr c hc hn => ?_
    -- What is denied here is declared, and so the same in all views.
    obtain ⟨r, hr⟩ := (hK name pred hm hname rule hr c hc).1 hn
    refine ⟨fun _ => ht.reads.known _ r hr, fun g hg => ?_⟩
    exact (stands_of_relation hr).2 ((stands_of_relation hr).1 ((ht.reads.holds _ _).1 hg))
  exact below_of_reaches hK hclosed covers_empty (leOn_empty _ _) hs name hname f hf

/-- **In a settled store the facts of a name are founded that depends on no recursion above a denial.** The
induction is on the depth: what is recomputed without a way back is founded if what it uses is. -/
theorem founded_of_settled (hvalid : p.Valid) {s : Store α} (hs : p.Reaches ∅ s)
    (hsettled : p.Settled s) {name : String}
    (hrec : ∀ b, p.DependsOn name b → p.AboveDenial b → ¬ p.Recursive b) {f : Fact α}
    (hf : f ∈ s.factsOf name) : p.Founded (p.view s) name f := by
  have hcover := covers_empty.of_reaches hs
  induction hd : p.depth name using Nat.strongRecOn generalizing name f with
  | ind d ih =>
    by_cases habove : p.AboveDenial name
    · obtain ⟨pred, hm⟩ := habove.exists_predicate
      refine founded_of_derivesOver hm (fun rule hr c hc _ g hg => ?_)
        (Predicate.derivesOver_self.2 ((hsettled.mem_factsOf hm).1 hf))
      refine founded_of_stands (fun hg => ?_) ((hcover.reads.holds _ _).1 hg)
      have huses : p.Uses name c.relation := ⟨pred, hm, rule, hr, c, hc, rfl⟩
      by_cases hc : p.AboveDenial c.relation
      · have hlt := depth_lt huses hc (hrec c.relation (.single huses) hc)
        exact ih _ (hd ▸ hlt) (fun b hb => hrec b (.head huses hb)) hg rfl
      · exact founded_of_not_aboveDenial hvalid hs hcover hc hg
    · exact founded_of_not_aboveDenial hvalid hs hcover habove hf

/-- What has to be checked of a program to know that its results are founded. -/
theorem Graded.founded {level : String → Nat} (hgraded : p.Graded level)
    (hvalid : p.Valid) (h₀ : p.computed = ∅) {e : Evaluator} {q : Program α}
    (h : (e.evaluate p).1 = .ok q) (name : String) :
    ∀ f ∈ q.computed.factsOf name, p.Founded (p.view q.computed) name f := by
  obtain ⟨t, rfl, hreach, hsettled⟩ := exists_of_evaluate h
  rw [h₀] at hreach
  exact fun f hf => founded_of_settled hvalid hreach hsettled (fun _ _ => hgraded.not_recursive) hf

/-- **Evaluation takes stale facts back where nothing above a denial is recursive.** -/
theorem founded_of_evaluate (e : Evaluator) (p q : Program α) (hvalid : p.Valid)
    (h₀ : p.computed = ∅) (h : (e.evaluate p).1 = .ok q) (name : String)
    (hrec : ∀ b, p.DependsOn name b → p.AboveDenial b → ¬ p.Recursive b) :
    ∀ f ∈ q.computed.factsOf name, p.Founded (p.view q.computed) name f := by
  obtain ⟨t, rfl, hreach, hsettled⟩ := exists_of_evaluate h
  rw [h₀] at hreach
  exact fun f hf => founded_of_settled hvalid hreach hsettled hrec hf

theorem founded_release :
    (release ["ann"]).Valid ∧
      (∀ a, (release ["ann"]).AboveDenial a → ¬ (release ["ann"]).Recursive a) ∧
      ∃ q, (({} : Evaluator).evaluate (release ["ann"])).1 = .ok q ∧
        (q.computed.factsOf "free").facts = [[.text "ann"], [.text "bob"]] ∧
        ∀ f ∈ q.computed.factsOf "free",
          (release ["ann"]).Founded ((release ["ann"]).view q.computed) "free" f := by
  have hvalid : (release ["ann"]).Valid := by decide
  have hrec a : (release ["ann"]).AboveDenial a → ¬ (release ["ann"]).Recursive a :=
    (graded_release ["ann"]).not_recursive
  refine ⟨hvalid, hrec, _, rfl, by decide, ?_⟩
  exact founded_of_evaluate {} _ _ hvalid rfl rfl "free" fun b _ => hrec b

/-! ## Stale facts -/

/-- **Facts that rest on their own predicate alone are not founded.** Each rule of it derives nothing in
the end, or only from what it has derived. -/
theorem not_founded_of_circular {s : Store α} (hs : p.Covers s) (hsettled : p.Settled s) {name : String}
    {pred : Predicate α} (hm : (name, pred) ∈ p.predicates)
    (hrules : ∀ rule ∈ pred.rules, p.deriveRule s pred.args rule = .ok [] ∨
      ∃ c ∈ rule, c.negated = false ∧ c.relation = name) (f : Fact α) :
    ¬ p.Founded (p.view s) name f := by
  intro h
  generalize hn : name = n at h
  induction h with
  | declared hnode _ =>
    rw [← hn, mem_predicates_iff.1 hm] at hnode
    cases hnode
  | derived premises hpremises hm' hder ih =>
    subst hn
    cases eq_of_mem_predicates hm hm'
    obtain ⟨rule, hr, w, hw, hf⟩ := hder
    rcases hrules rule hr with hempty | ⟨c, hc, hpos, rfl⟩
    · have hsat : Rule.Sat (p.view s) rule .empty w := by
        refine Rule.satOver_self.1 (hw.mono (fun c _ _ g hg => ?_) fun _ _ _ => ⟨id, fun _ => id⟩)
        exact (hpremises _ hg).holds (K := fun _ => True) (fun _ _ _ _ => trivial) hs hsettled
          (fun _ _ _ _ => ⟨id, fun _ => id⟩) trivial
      exact List.not_mem_nil ((mem_deriveRule hempty).2 ⟨w, hsat, hf⟩)
    · obtain ⟨row, hrow⟩ := hw.exists_holds hc hpos
      exact ih _ hrow rfl

/-- An inquiry in which a suspect is a suspect. -/
def hearsay : Program :=
  inquiry ["ann", "cid"] [[⟨"suspect", [.var "X"], false⟩]]

/-- Ann and cid come under suspicion before they are known to be clear, and stay so by hearsay alone. -/
theorem stale_suspect :
    hearsay.Valid ∧ hearsay.ArityConsistent ∧ hearsay.Stratifiable ∧ hearsay.computed = ∅ ∧
      ∃ q, (({} : Evaluator).evaluate hearsay).1 = .ok q ∧
        [.text "ann"] ∈ q.computed.factsOf "suspect" ∧
        ¬ hearsay.Founded (hearsay.view q.computed) "suspect" [.text "ann"] := by
  let s := findings ["bob", "ann", "cid"] ["ann", "cid"]
  have hresult : (({} : Evaluator).evaluate hearsay).1 = .ok (hearsay.withComputed s) := rfl
  refine ⟨by decide, ⟨fun name => if name = "partner" then 2 else 1, by decide⟩, ?_, rfl, _,
    hresult, by decide, ?_⟩
  · exact stratifiable_iff_exists_layered.2
      ⟨fun name => if name = "suspect" then 1 else 0, by decide⟩
  · obtain ⟨t, e, hreach, hsettled⟩ := exists_of_evaluate hresult
    obtain rfl : s = t := congrArg Program.computed e
    refine not_founded_of_circular (covers_empty.of_reaches hreach) hsettled
      (mem_predicates_iff.2 rfl) ?_ _
    refine List.forall_mem_cons.2 ⟨.inl rfl, ?_⟩
    exact List.forall_mem_cons.2 ⟨.inr ⟨_, .head _, rfl, rfl⟩, List.forall_mem_nil _⟩

end Program

end Verdict

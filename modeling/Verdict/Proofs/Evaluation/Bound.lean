import Verdict.Proofs.Evaluation.Convergence
import Verdict.Proofs.Evaluation.Failure
import Verdict.Proofs.Evaluation.LeastModel

/-!
# How many rounds it takes

Where no predicate above a denial depends on itself, a run has two phases (`ending_ne_capReached`). In
the first one each round finds a fact of the monotone part, and there are no others to be found than
those of its least model. In the second one each round settles a level above the denials. So it takes no
more rounds than there are such facts and predicates, and a last one in which nothing changes; and for
a program without a negated clause there is only the first phase.
-/

namespace Verdict

variable {α : Type}

def Interpretation.facts (S : Interpretation α) : Set (String × Fact α) :=
  {x | S x.1 x.2}

namespace Program

/-- The least model of the predicates of `K`: the facts that every assignment closed under their rules
has for them. -/
def leastModelOn (p : Program α) (K : String → Prop) : Interpretation α :=
  fun name f => K name ∧ ∀ S, p.ClosedOn K S → S name f

/-- The least model of the predicates that are not above a denial. -/
def monotoneModel (p : Program α) : Interpretation α :=
  p.leastModelOn fun name => ¬ p.AboveDenial name

/-- The facts of the predicates that are not above a denial, the predicates that are, and one. -/
noncomputable def roundBound (p : Program α) : Nat :=
  p.monotoneModel.facts.ncard + {a | p.AboveDenial a}.ncard + 1

def NegationFree (p : Program α) : Prop :=
  ∀ e ∈ p.predicates, ∀ rule ∈ e.2.rules, ∀ c ∈ rule, c.negated = false

instance (p : Program α) : Decidable p.NegationFree :=
  inferInstanceAs (Decidable (∀ e ∈ p.predicates, ∀ rule ∈ e.2.rules, ∀ c ∈ rule, c.negated = false))

variable {p : Program α} {K : String → Prop}

/-! ## The facts to be found -/

theorem MonotoneOn.closedOn_leastModelOn (hK : p.MonotoneOn K) : p.ClosedOn K (p.leastModelOn K) := by
  intro name pred hm hn f hf
  refine ⟨hn, fun S hS => hS name pred hm hn f ?_⟩
  exact hK.derives hm hn (reads_viewOf _) (reads_viewOf S) (fun n _ g hg => hg.2 S hS) hf

theorem leastModelOn_true : p.leastModelOn (fun _ => True) = p.leastModel := by
  funext name f
  simp only [leastModelOn, leastModel, closedOn_iff_closed, true_and]

theorem finite_leastModelOn (p : Program α) (K : String → Prop) : (p.leastModelOn K).facts.Finite := by
  refine (List.finite_toSet p.base).subset fun x hx => ?_
  refine hx.2 (fun name f => (name, f) ∈ p.base) fun name pred hm _ f hf => ?_
  exact mem_base_of_derives (reads_viewOf _) (fun _ _ hg => hg) hm hf

theorem NegationFree.not_aboveDenial (h : p.NegationFree) (a : String) : ¬ p.AboveDenial a := by
  intro ha
  obtain ⟨b, c, -, ⟨pred, hm, rule, hr, d, hd, hn, -⟩, -⟩ := ha
  rw [h (b, pred) hm rule hr d hd] at hn
  cases hn

theorem NegationFree.roundBound_eq (h : p.NegationFree) :
    p.roundBound = p.leastModel.facts.ncard + 1 := by
  have none : {a | p.AboveDenial a} = ∅ := Set.eq_empty_of_forall_notMem h.not_aboveDenial
  have all : (fun name => ¬ p.AboveDenial name) = fun _ => True := by
    funext name
    exact eq_true (h.not_aboveDenial name)
  rw [roundBound, monotoneModel, all, none, leastModelOn_true, Set.ncard_empty]

variable [DecidableEq α]

theorem factsIn_subset_leastModelOn (hK : p.MonotoneOn K) {s : Store α} (h : p.Reaches ∅ s) :
    s.factsIn K ⊆ (p.leastModelOn K).facts := by
  intro x hx
  refine ⟨hx.1, fun S hS => ?_⟩
  exact below_of_reaches hK hS covers_empty (leOn_empty K S) h x.1 hx.1 x.2 hx.2

/-- In a settled store the facts to be found have been found. -/
theorem leastModelOn_subset_factsIn (hK : p.MonotoneOn K) {s : Store α} (hs : p.Covers s)
    (h : p.Settled s) : (p.leastModelOn K).facts ⊆ s.factsIn K :=
  fun _ hx => ⟨hx.1, hx.2 _ (closedOn_of_settled hK hs h)⟩

/-! ## The bound -/

theorem ending_roundBound (hvalid : p.Valid) (hrec : ∀ a, p.AboveDenial a → ¬ p.Recursive a) :
    (p.run p.roundBound ∅).ending ≠ .capReached := by
  have hK := hvalid.monotoneOn
  refine ending_ne_capReached hK (d := p.depth) ?_ ?_ (p.finite_leastModelOn _)
    (fun _ hs => factsIn_subset_leastModelOn hK hs) (Nat.lt_succ_self _)
  · intro a b hab _ hb
    have hb := not_not.1 hb
    exact depth_lt hab hb (hrec b hb)
  · intro name pred _
    by_cases hname : p.AboveDenial name
    · exact Or.inr (depth_lt_ncard hname (hrec name hname))
    · exact Or.inl hname

/-- **A program with no recursion above a denial is evaluated within as many rounds as its monotone
part has facts and there are predicates above a denial, and one more**, under each cap that has so many.
For a program without negation this is one more than there are facts to derive. -/
theorem evaluates_within (p : Program) (hvalid : p.Valid) (harity : p.ArityConsistent)
    (h₀ : p.computed = ∅) :
    p.ClosedOn (fun name => ¬ p.AboveDenial name) p.monotoneModel ∧ p.monotoneModel.facts.Finite ∧
      ((∀ a, p.AboveDenial a → ¬ p.Recursive a) → ∀ e : Evaluator,
        p.monotoneModel.facts.ncard + {a | p.AboveDenial a}.ncard + 1 ≤ e.cap.rounds →
          ∃ q e', e.evaluate p = (.ok q, e') ∧
            e'.roundsRun ≤ p.monotoneModel.facts.ncard + {a | p.AboveDenial a}.ncard + 1) ∧
      (p.NegationFree → p.leastModel.facts.Finite ∧ ∀ e : Evaluator,
        p.leastModel.facts.ncard + 1 ≤ e.cap.rounds →
          ∃ q e', e.evaluate p = (.ok q, e') ∧ e'.roundsRun ≤ p.leastModel.facts.ncard + 1) := by
  obtain ⟨arity, harity⟩ := harity
  have main (hrec : ∀ a, p.AboveDenial a → ¬ p.Recursive a) (e : Evaluator)
      (he : p.roundBound ≤ e.cap.rounds) :
      ∃ q e', e.evaluate p = (.ok q, e') ∧ e'.roundsRun ≤ p.roundBound := by
    have hend : (p.run p.roundBound p.computed).ending = .settled := by
      rw [h₀]
      exact harity.settled_of_ne_capReached (Store.fits_empty arity) (ending_roundBound hvalid hrec)
    obtain ⟨q, hq⟩ := evaluate_of_run_settled hend he
    exact ⟨q, _, hq, length_snapshots_le _ _⟩
  refine ⟨hvalid.monotoneOn.closedOn_leastModelOn, p.finite_leastModelOn _, main, fun hneg => ⟨?_, fun e he => ?_⟩⟩
  · rw [← leastModelOn_true]
    exact p.finite_leastModelOn _
  · rw [← hneg.roundBound_eq] at he ⊢
    exact main (fun a ha => absurd ha (hneg.not_aboveDenial a)) e he

theorem aboveDenial_release {a : String} :
    (release ["ann"]).AboveDenial a ↔ a = "suspect" ∨ a = "free" := by
  constructor
  · intro ha
    have hpos := (graded_release ["ann"]).pos_of_aboveDenial ha
    by_cases hs : a = "suspect"
    · exact Or.inl hs
    · by_cases hf : a = "free"
      · exact Or.inr hf
      · simp [hs, hf] at hpos
  · intro ha
    -- Both deny another predicate themselves.
    obtain ⟨e, hm, rfl, rule, hr, c, hc, hn, hq⟩ : ∃ e ∈ (release ["ann"]).predicates, e.1 = a ∧
        ∃ rule ∈ e.2.rules, ∃ c ∈ rule, c.negated = true ∧
          c.relation ∈ (release ["ann"]).predicates.map Prod.fst := by
      rcases ha with rfl | rfl <;> decide
    obtain ⟨q, hq, e'⟩ := List.mem_map.1 hq
    exact ⟨e.1, c.relation, .refl, ⟨e.2, hm, rule, hr, c, hc, hn, rfl⟩, q.2, e' ▸ hq⟩

/-- Who is clear and who has been checked are three facts, and there are two predicates above them. -/
theorem roundBound_release : (release ["ann"]).roundBound ≤ 6 := by
  let p := release ["ann"]
  let store : Store := .ofList
    [("clear", .ofRows [[.text "bob"], [.text "ann"]]), ("suspect", .ofRows [[.text "cid"]]),
     ("checked", .ofRows [[.text "ann"]]), ("free", .ofRows [[.text "ann"], [.text "bob"]])]
  let found : Finset (String × Fact) :=
    {("clear", [.text "bob"]), ("clear", [.text "ann"]), ("checked", [.text "ann"])}
  have hvalid : p.Valid := by decide
  have hresult : (({} : Evaluator).evaluate p).1 = .ok (p.withComputed store) := rfl
  obtain ⟨t, ht, hreach, hsettled⟩ := exists_of_evaluate hresult
  obtain rfl : store = t := congrArg computed ht
  have hsub : p.monotoneModel.facts ⊆ ↑found := by
    intro x hx
    obtain ⟨hn, hf⟩ := leastModelOn_subset_factsIn hvalid.monotoneOn (covers_empty.of_reaches hreach)
      hsettled hx
    have hstore : ∀ e ∈ store.entries, ∀ f ∈ e.2.facts,
        (e.1 = "suspect" ∨ e.1 = "free") ∨ (e.1, f) ∈ found := by decide
    obtain ⟨r, hr, hf⟩ := Store.mem_factsOf_iff.1 hf
    exact (hstore (x.1, r) (Table.get?_eq_some_iff.1 hr) x.2 hf).resolve_left
      fun h => hn (aboveDenial_release.2 h)
  have hfacts : p.monotoneModel.facts.ncard ≤ 3 :=
    calc p.monotoneModel.facts.ncard ≤ (found : Set (String × Fact)).ncard :=
          Set.ncard_le_ncard hsub found.finite_toSet
      _ = 3 := Set.ncard_coe_finset found
  have hlevels : {a | p.AboveDenial a}.ncard = 2 := by
    have names : {a | p.AboveDenial a} = {"suspect", "free"} := Set.ext fun _ => aboveDenial_release
    rw [names, Set.ncard_pair (by decide)]
  show p.monotoneModel.facts.ncard + {a | p.AboveDenial a}.ncard + 1 ≤ 6
  omega

theorem evaluates_within_release :
    (release ["ann"]).Valid ∧ (release ["ann"]).ArityConsistent ∧
      (∀ a, (release ["ann"]).AboveDenial a → ¬ (release ["ann"]).Recursive a) ∧
      ∃ q e', ({ cap := { rounds := 6 } } : Evaluator).evaluate (release ["ann"]) = (.ok q, e') ∧
        e'.roundsRun ≤ 6 := by
  have hvalid : (release ["ann"]).Valid := by decide
  have harity : (release ["ann"]).ArityConsistent :=
    ⟨fun name => if name = "partner" then 2 else 1, by decide⟩
  have hrec a : (release ["ann"]).AboveDenial a → ¬ (release ["ann"]).Recursive a :=
    (graded_release ["ann"]).not_recursive
  obtain ⟨q, e', hq, hle⟩ := (evaluates_within _ hvalid harity rfl).2.2.1 hrec
    { cap := { rounds := 6 } } roundBound_release
  exact ⟨hvalid, harity, hrec, q, e', hq, hle.trans roundBound_release⟩

end Program

end Verdict

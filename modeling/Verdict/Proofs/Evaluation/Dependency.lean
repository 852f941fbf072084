import Mathlib.Data.Set.Card
import Mathlib.Data.Set.Finite.List
import Verdict.Program.Validity
import Verdict.Proofs.Evaluation.Growth

/-!
# Dependencies between predicates

A predicate *uses* the names of its clauses and *denies* those of its negated clauses. What a program
may go through while it is evaluated depends on the cycles of this graph:

* without a cycle through a denial it is *stratifiable*, and its names fall into strata
  (`stratifiable_iff_exists_layered`);
* a predicate is *above a denial* if a chain of uses leads from it to a predicate that denies another
  one. The others are the monotone part, in which facts only grow (`Valid.monotoneOn`);
* above the denials a predicate that does not depend on itself lies deeper than what it uses
  (`depth_lt`), so where no predicate there is recursive, evaluation can be followed upwards.

Cycles are paths, and there is no deciding them by a look at the clauses; a level for each name can be
checked clause by clause. `Layered` and `Graded` are what to check.
-/

namespace Verdict

variable {α : Type}

namespace Program

/-- The predicate `a` has a clause over `b`. -/
def Uses (p : Program α) (a b : String) : Prop :=
  ∃ pred, (a, pred) ∈ p.predicates ∧ ∃ rule ∈ pred.rules, ∃ c ∈ rule, c.relation = b

/-- The predicate `a` has a negated clause over `b`. -/
def Denies (p : Program α) (a b : String) : Prop :=
  ∃ pred, (a, pred) ∈ p.predicates ∧ ∃ rule ∈ pred.rules, ∃ c ∈ rule,
    c.negated = true ∧ c.relation = b

/-- A chain of uses, possibly without a link, leads from `a` to `b`. -/
abbrev DependsOn (p : Program α) : String → String → Prop :=
  Relation.ReflTransGen p.Uses

/-- A chain of uses with at least one link leads from the predicate back to itself. -/
def Recursive (p : Program α) (a : String) : Prop :=
  Relation.TransGen p.Uses a a

/-- No predicate depends on itself through a chain in which there is a denial. -/
def Stratifiable (p : Program α) : Prop :=
  ∀ a b, p.Denies a b → ¬ p.DependsOn b a

/-- The name depends on a predicate that denies a predicate. -/
def AboveDenial (p : Program α) (a : String) : Prop :=
  ∃ b c, p.DependsOn a b ∧ p.Denies b c ∧ ∃ pred, (c, pred) ∈ p.predicates

variable {p : Program α}

theorem Denies.uses {a b : String} (h : p.Denies a b) : p.Uses a b := by
  obtain ⟨pred, hm, rule, hr, c, hc, _, e⟩ := h
  exact ⟨pred, hm, rule, hr, c, hc, e⟩

theorem finite_used (p : Program α) : {b | ∃ a, p.Uses a b}.Finite := by
  let names := p.predicates.flatMap fun e => e.2.rules.flatMap fun rule => rule.map Clause.relation
  refine (List.finite_toSet names).subset fun b hb => ?_
  obtain ⟨a, pred, hm, rule, hr, c, hc, rfl⟩ := hb
  exact List.mem_flatMap.2 ⟨(a, pred), hm,
    List.mem_flatMap.2 ⟨rule, hr, List.mem_map.2 ⟨c, hc, rfl⟩⟩⟩

/-! ## Strata -/

/-- The levels do not rise from a predicate to what it uses, and they fall to what it denies. -/
def Layered (p : Program α) (level : String → Nat) : Prop :=
  ∀ e ∈ p.predicates, ∀ rule ∈ e.2.rules, ∀ c ∈ rule,
    if c.negated then level c.relation < level e.1 else level c.relation ≤ level e.1

instance (p : Program α) (level : String → Nat) : Decidable (p.Layered level) :=
  inferInstanceAs (Decidable (∀ e ∈ p.predicates, ∀ rule ∈ e.2.rules, ∀ c ∈ rule,
    if c.negated then level c.relation < level e.1 else level c.relation ≤ level e.1))

theorem Layered.lt_of_denies {level : String → Nat} (h : p.Layered level) {a b : String}
    (hab : p.Denies a b) : level b < level a := by
  obtain ⟨pred, hm, rule, hr, c, hc, hn, rfl⟩ := hab
  have := h (a, pred) hm rule hr c hc
  rw [if_pos hn] at this
  exact this

theorem Layered.le_of_uses {level : String → Nat} (h : p.Layered level) {a b : String}
    (hab : p.Uses a b) : level b ≤ level a := by
  obtain ⟨pred, hm, rule, hr, c, hc, rfl⟩ := hab
  have := h (a, pred) hm rule hr c hc
  split at this
  · exact Nat.le_of_lt this
  · exact this

theorem Layered.le_of_dependsOn {level : String → Nat} (h : p.Layered level) {a b : String}
    (hab : p.DependsOn a b) : level b ≤ level a := by
  induction hab with
  | refl => exact Nat.le_refl _
  | tail _ hbc ih => exact Nat.le_trans (h.le_of_uses hbc) ih

/-- The name `b` lies in a lower stratum than `a`: a chain of uses leads from `a` to `b`, and one of
them is a denial. -/
def Below (p : Program α) (a b : String) : Prop :=
  ∃ x y, p.DependsOn a x ∧ p.Denies x y ∧ p.DependsOn y b

theorem Below.of_uses {a b c : String} (hab : p.Uses a b) (h : p.Below b c) : p.Below a c := by
  obtain ⟨x, y, hbx, hxy, hyc⟩ := h
  exact ⟨x, y, .head hab hbx, hxy, hyc⟩

theorem finite_below (a : String) : {b | p.Below a b}.Finite := by
  refine p.finite_used.subset fun b hb => ?_
  obtain ⟨x, y, _, hxy, hyb⟩ := hb
  rcases Relation.ReflTransGen.cases_tail hyb with rfl | ⟨z, _, hzb⟩
  · exact ⟨x, hxy.uses⟩
  · exact ⟨z, hzb⟩

/-- **The stratifiable programs are those that fall into layers.** A name's layer can be taken to be the
number of names below it. -/
theorem stratifiable_iff_exists_layered :
    p.Stratifiable ↔ ∃ level : String → Nat, p.Layered level := by
  constructor
  · intro h
    have lower {a b : String} (hab : p.Uses a b) : {c | p.Below b c} ⊆ {c | p.Below a c} :=
      fun _ hc => hc.of_uses hab
    refine ⟨fun a => {b | p.Below a b}.ncard, fun e hm rule hr c hc => ?_⟩
    obtain ⟨a, pred⟩ := e
    have huses : p.Uses a c.relation := ⟨pred, hm, rule, hr, c, hc, rfl⟩
    split
    · next hn =>
      have hden : p.Denies a c.relation := ⟨pred, hm, rule, hr, c, hc, hn, rfl⟩
      -- What is denied is below its denier, and not below itself.
      refine Set.ncard_lt_ncard ⟨lower huses, fun hsub => ?_⟩ (finite_below a)
      obtain ⟨x, y, hcx, hxy, hyc⟩ := hsub ⟨a, c.relation, .refl, hden, .refl⟩
      exact h x y hxy (hyc.trans hcx)
    · exact Set.ncard_le_ncard (lower huses) (finite_below a)
  · rintro ⟨level, h⟩ a b hab hba
    have hlt := h.lt_of_denies hab
    have hle := h.le_of_dependsOn hba
    omega

/-! ## Above the denials -/

theorem AboveDenial.of_uses {a b : String} (hab : p.Uses a b) (h : p.AboveDenial b) :
    p.AboveDenial a := by
  obtain ⟨c, d, hbc, hcd, hd⟩ := h
  exact ⟨c, d, .head hab hbc, hcd, hd⟩

theorem AboveDenial.exists_predicate {a : String} (h : p.AboveDenial a) :
    ∃ pred, (a, pred) ∈ p.predicates := by
  obtain ⟨b, c, hab, hbc, -⟩ := h
  rcases Relation.ReflTransGen.cases_head hab with rfl | ⟨d, ⟨pred, hm, -⟩, -⟩
  · obtain ⟨pred, hm, -⟩ := hbc
    exact ⟨pred, hm⟩
  · exact ⟨pred, hm⟩

theorem finite_aboveDenial (p : Program α) : {a | p.AboveDenial a}.Finite := by
  refine (List.finite_toSet (p.predicates.map Prod.fst)).subset fun a ha => ?_
  obtain ⟨pred, hm⟩ := AboveDenial.exists_predicate ha
  exact List.mem_map.2 ⟨(a, pred), hm, rfl⟩

/-- How many predicates above a denial a name depends on. -/
noncomputable def depth (p : Program α) (a : String) : Nat :=
  {b | Relation.TransGen p.Uses a b ∧ p.AboveDenial b}.ncard

/-- **A predicate above a denial that does not depend on itself lies lower than what uses it.** -/
theorem depth_lt {a b : String} (hab : p.Uses a b) (hb : p.AboveDenial b) (hrec : ¬ p.Recursive b) :
    p.depth b < p.depth a := by
  have hfin : {c | Relation.TransGen p.Uses a c ∧ p.AboveDenial c}.Finite :=
    p.finite_aboveDenial.subset fun _ hc => hc.2
  refine Set.ncard_lt_ncard ⟨fun c hc => ⟨.head hab hc.1, hc.2⟩, fun hsub => ?_⟩ hfin
  exact hrec (hsub ⟨.single hab, hb⟩).1

theorem depth_lt_ncard {a : String} (ha : p.AboveDenial a) (hrec : ¬ p.Recursive a) :
    p.depth a < {b | p.AboveDenial b}.ncard :=
  Set.ncard_lt_ncard ⟨fun _ hc => hc.2, fun hsub => hrec (hsub ha).1⟩ p.finite_aboveDenial

/-- Only the names at level zero are free of denied predicates, and above them the levels fall from a
predicate to what it uses. -/
def Graded (p : Program α) (level : String → Nat) : Prop :=
  ∀ e ∈ p.predicates, ∀ rule ∈ e.2.rules, ∀ c ∈ rule,
    level c.relation < level e.1 ∨
      level e.1 = 0 ∧ level c.relation = 0 ∧
        (c.negated = true → c.relation ∉ p.predicates.map Prod.fst)

instance (p : Program α) (level : String → Nat) : Decidable (p.Graded level) :=
  inferInstanceAs (Decidable (∀ e ∈ p.predicates, ∀ rule ∈ e.2.rules, ∀ c ∈ rule,
    level c.relation < level e.1 ∨
      level e.1 = 0 ∧ level c.relation = 0 ∧
        (c.negated = true → c.relation ∉ p.predicates.map Prod.fst)))

theorem Graded.of_uses {level : String → Nat} (h : p.Graded level) {a b : String}
    (hab : p.Uses a b) : level b < level a ∨ level a = 0 ∧ level b = 0 := by
  obtain ⟨pred, hm, rule, hr, c, hc, rfl⟩ := hab
  exact (h (a, pred) hm rule hr c hc).imp id fun hz => ⟨hz.1, hz.2.1⟩

theorem Graded.pos_of_aboveDenial {level : String → Nat} (h : p.Graded level) {a : String}
    (ha : p.AboveDenial a) : 0 < level a := by
  obtain ⟨b, c, hab, ⟨pred, hm, rule, hr, d, hd, hn, rfl⟩, ⟨q, hq⟩⟩ := ha
  have hb : 0 < level b := by
    rcases h (b, pred) hm rule hr d hd with hlt | ⟨_, _, hno⟩
    · exact Nat.zero_lt_of_lt hlt
    · exact absurd (List.mem_map.2 ⟨_, hq, rfl⟩) (hno hn)
  clear hm hr hd
  induction hab using Relation.ReflTransGen.head_induction_on with
  | refl => exact hb
  | head hac _ ih =>
    rcases h.of_uses hac with hlt | ⟨_, hz⟩
    · exact Nat.zero_lt_of_lt hlt
    · omega

theorem Graded.lt_of_transGen {level : String → Nat} (h : p.Graded level) {a b : String}
    (hab : Relation.TransGen p.Uses a b) : level b < level a ∨ level a = 0 := by
  induction hab with
  | single hab => exact (h.of_uses hab).imp id And.left
  | tail _ hbc ih =>
    rcases ih with hlt | hz
    · rcases h.of_uses hbc with hlt' | ⟨_, hz⟩
      · exact Or.inl (Nat.lt_trans hlt' hlt)
      · exact Or.inl (by omega)
    · exact Or.inr hz

/-- **In a graded program nothing above a denial is recursive.** -/
theorem Graded.not_recursive {level : String → Nat} (h : p.Graded level) {a : String}
    (ha : p.AboveDenial a) : ¬ p.Recursive a := by
  intro hrec
  have hpos := h.pos_of_aboveDenial ha
  rcases h.lt_of_transGen hrec with hlt | hz
  · exact Nat.lt_irrefl _ hlt
  · omega

/-! ## The monotone part -/

theorem Valid.defect?_eq_none (h : p.Valid) {name : String} {pred : Predicate α}
    (hm : (name, pred) ∈ p.predicates) {rule : Rule α} (hr : rule ∈ pred.rules) :
    Rule.defect? p.nodes.contains name pred.args rule = none := by
  have hpred : pred.defect? p.nodes.contains name = none :=
    List.findSome?_eq_none_iff.1 h (name, pred) hm
  exact List.findSome?_eq_none_iff.1 hpred rule hr

theorem Valid.exists_node (h : p.Valid) {name : String} {pred : Predicate α}
    (hm : (name, pred) ∈ p.predicates) {rule : Rule α} (hr : rule ∈ pred.rules) {c : Clause α}
    (hc : c ∈ rule) : ∃ node, p.nodes.get? c.relation = some node := by
  have hrule := h.defect?_eq_none hm hr
  unfold Rule.defect? at hrule
  split at hrule
  · cases hrule
  · next hfind =>
    have := List.find?_eq_none.1 hfind c hc
    rw [Bool.not_eq_true', Bool.not_eq_false, Table.contains, Option.isSome_iff_exists] at this
    exact this

/-- **What is not above a denial is monotone.** -/
theorem Valid.monotoneOn (h : p.Valid) : p.MonotoneOn fun name => ¬ p.AboveDenial name := by
  intro name pred hm hname rule hr c hc
  have huses : p.Uses name c.relation := ⟨pred, hm, rule, hr, c, hc, rfl⟩
  refine ⟨fun hn => ?_, fun _ _ _ habove => hname (habove.of_uses huses)⟩
  obtain ⟨node, hnode⟩ := h.exists_node hm hr hc
  cases node with
  | relation r => exact ⟨r, hnode⟩
  | predicate q =>
    have hden : p.Denies name c.relation := ⟨pred, hm, rule, hr, c, hc, hn, rfl⟩
    exact (hname ⟨name, c.relation, .refl, hden, q, mem_predicates_iff.2 hnode⟩).elim

/-! ## An example -/

/-- An inquiry in which denials come too early. Whoever is not clear is a suspect, and by the given rules
others may be as well. An alibi clears at once, having been seen elsewhere only when the checks are in,
and these are declared last. -/
def inquiry (seen : List String) (more : List Rule) : Program where
  nodes := .ofList
    [("person", .relation (.ofRows [[.text "ann"], [.text "bob"], [.text "cid"]])),
     ("alibi", .relation (.ofRows [[.text "bob"]])),
     ("seen", .relation (.ofRows (seen.map fun x => [.text x]))),
     ("partner", .relation (.ofRows [[.text "ann", .text "bob"], [.text "bob", .text "ann"]])),
     ("clear", .predicate
       { args := ["X"]
         rules := [[⟨"alibi", [.var "X"], false⟩], [⟨"checked", [.var "X"], false⟩]] }),
     ("suspect", .predicate
       { args := ["X"]
         rules := [⟨"person", [.var "X"], false⟩, ⟨"clear", [.var "X"], true⟩] :: more }),
     ("checked", .predicate { args := ["X"], rules := [[⟨"seen", [.var "X"], false⟩]] })]

/-- The inquiry with nobody but those who are not clear under suspicion, and the release of the others. -/
def release (seen : List String) : Program :=
  (inquiry seen []).extend
    { nodes := .ofList
        [("free", .predicate
          { args := ["X"]
            rules := [[⟨"person", [.var "X"], false⟩, ⟨"suspect", [.var "X"], true⟩]] })] }

/-- The store of an inquiry that has seen ann and cid: with those who are clear so far, and the
suspects. -/
def findings (clear suspects : List String) : Store :=
  .ofList
    [("clear", .ofRows (clear.map fun x => [.text x])),
     ("suspect", .ofRows (suspects.map fun x => [.text x])),
     ("checked", .ofRows [[.text "ann"], [.text "cid"]])]

/-- From the checks up to the release each predicate uses what lies below it. -/
theorem graded_release (seen : List String) :
    (release seen).Graded fun name =>
      if name = "suspect" then 1 else if name = "free" then 2 else 0 :=
  of_decide_eq_true rfl

end Program

end Verdict

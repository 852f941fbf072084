import Verdict.Proofs.Evaluation.Confluence
import Verdict.Proofs.Evaluation.Founded

/-!
# The order of declaration and denial

Where predicates are denied, results may depend on the order in which nodes are declared, in two ways.

* A denied predicate without an entry blocks the rule, while one whose entry is empty lets it pass. A
  predicate that has lost all its facts keeps an empty entry; one that comes late enough
  never had any.
* A stale fact may hold itself up in one order and never appear in another.

There is no third way: in a program that can be stratified two results agree on a name if on
the way down from it no fact is stale and the denied names have entries in both
results or in neither (`sameFacts_of_founded`).
-/

namespace Verdict

variable {α : Type}

namespace Program

variable {p q : Program α}

theorem view_of_sameMap (h : p.nodes.SameMap q.nodes) : p.view = q.view := by
  have hresolve : p.resolve? = q.resolve? := by
    funext s name
    rw [resolve?, resolve?, h name]
  funext s
  rw [view, view, hresolve]

theorem founded_of_sameMap (h : p.nodes.SameMap q.nodes) {W : View α} {name : String} {f : Fact α}
    (hf : q.Founded W name f) : p.Founded W name f := by
  induction hf with
  | declared hnode hf => exact .declared ((h _).trans hnode) hf
  | derived premises _ hm hder ih =>
    exact .derived premises ih ((mem_predicates_of_sameMap h).2 hm) hder

/-! ## Two results -/

/-- Two stores say the same of a denied name if they have the same facts for it, and both have an entry
or neither does. -/
theorem view_of_sameFacts {s t : Store α} (hs : p.Covers s) (ht : p.Covers t) {name : String}
    (hkeys : name ∈ s.keys ↔ name ∈ t.keys) (hfacts : (s.factsOf name).SameFacts (t.factsOf name)) :
    ((p.view s).Known name → (p.view t).Known name) ∧
      ∀ f, (p.view t).Holds name f → (p.view s).Holds name f := by
  constructor
  · intro hknown
    show (p.resolve? t name).isSome
    cases hget : t.get? name with
    | some r => rw [resolve?_of_entry hget, Option.isSome_some]
    | none =>
      have hget' : s.get? name = none := by
        rw [Table.get?_eq_none_iff] at hget ⊢
        exact mt hkeys.1 hget
      rw [resolve?_of_no_entry hget, ← resolve?_of_no_entry hget']
      exact hknown
  · intro f hf
    rw [ht.reads.holds, Stands] at hf
    rw [hs.reads.holds, Stands]
    split at hf
    · exact hf
    · exact (hfacts f).2 hf
    · exact hf

variable [DecidableEq α]

theorem mem_factsOf_of_founded {s t : Store α} (hs : p.Covers s) (ht : p.Covers t)
    (hsettled : p.Settled t) {name : String}
    (hden : ∀ a b, p.DependsOn name a → p.Denies a b →
      (b ∈ s.keys ↔ b ∈ t.keys) ∧ (s.factsOf b).SameFacts (t.factsOf b))
    {f : Fact α} (hf : f ∈ s.factsOf name) (hfounded : p.Founded (p.view s) name f) :
    f ∈ t.factsOf name := by
  have holds : (p.view t).Holds name f := by
    refine hfounded.holds (K := p.DependsOn name) (fun a b ha hab => ha.tail hab) ht hsettled ?_ .refl
    intro a b ha hab
    obtain ⟨hkeys, hfacts⟩ := hden a b ha hab
    exact view_of_sameFacts hs ht hkeys hfacts
  -- A name with facts in a store is a predicate.
  cases hget : s.get? name with
  | none =>
    rw [Store.factsOf_of_no_entry hget] at hf
    cases hf
  | some r =>
    obtain ⟨pred, hpred⟩ := hs name r hget
    exact (stands_of_predicate hpred).1 ((ht.reads.holds name f).1 holds)

/-- **Two orders agree on a name if nothing below it is stale or has an entry in one result only.** The
induction is on the strata: what is denied on the way down has the same facts in both results. -/
theorem sameFacts_of_founded (p q : Program α) (hstrat : p.Stratifiable)
    (hperm : q.nodes.entries.Perm p.nodes.entries) (hp₀ : p.computed = ∅) (hq₀ : q.computed = ∅)
    (e e' : Evaluator) (p' q' : Program α) (hp : (e.evaluate p).1 = .ok p')
    (hq : (e'.evaluate q).1 = .ok q') (name : String)
    (hfounded : ∀ a, p.DependsOn name a →
      (∀ f ∈ p'.computed.factsOf a, p.Founded (p.view p'.computed) a f) ∧
        ∀ f ∈ q'.computed.factsOf a, q.Founded (q.view q'.computed) a f)
    (hentries : ∀ a b, p.DependsOn name a → p.Denies a b →
      (b ∈ p'.computed.keys ↔ b ∈ q'.computed.keys)) :
    (p'.computed.factsOf name).SameFacts (q'.computed.factsOf name) := by
  have hnodes : p.nodes.SameMap q.nodes := Table.sameMap_of_perm hperm.symm
  obtain ⟨s, rfl, hps, hsettled⟩ := exists_of_evaluate hp
  obtain ⟨t, rfl, hpt, htsettled⟩ := exists_of_evaluate hq
  -- Both are results of `p`, along different ways.
  rw [hp₀] at hps
  rw [hq₀, ← reaches_of_sameMap hnodes] at hpt
  rw [← settled_of_sameMap hnodes] at htsettled
  have hs := covers_empty.of_reaches hps
  have ht := covers_empty.of_reaches hpt
  obtain ⟨level, hlevel⟩ := stratifiable_iff_exists_layered.1 hstrat
  induction hl : level name using Nat.strongRecOn generalizing name with
  | ind l ih =>
    have hden : ∀ a b, p.DependsOn name a → p.Denies a b →
        (b ∈ s.keys ↔ b ∈ t.keys) ∧ (s.factsOf b).SameFacts (t.factsOf b) := by
      intro a b ha hab
      have hlt := hlevel.lt_of_denies hab
      have hle := hlevel.le_of_dependsOn ha
      have hb : p.DependsOn name b := ha.tail hab.uses
      refine ⟨hentries a b ha hab, ih (level b) (by omega) b (fun c hc => hfounded c (hb.trans hc))
        (fun c d hc => hentries c d (hb.trans hc)) rfl⟩
    intro f
    constructor
    · intro hf
      exact mem_factsOf_of_founded hs ht htsettled hden hf ((hfounded name .refl).1 f hf)
    · intro hf
      refine mem_factsOf_of_founded ht hs hsettled
        (fun a b ha hab => ⟨(hden a b ha hab).1.symm, fun g => ((hden a b ha hab).2 g).symm⟩) hf ?_
      rw [view_of_sameMap hnodes]
      exact founded_of_sameMap hnodes ((hfounded name .refl).2 f hf)

/-- In the usual order ann is under suspicion for a while, in the other one never; she is free in both. -/
theorem sameFacts_release :
    (release ["ann"]).Stratifiable ∧
      ∃ p' q', (({} : Evaluator).evaluate (release ["ann"])).1 = .ok p' ∧
        (({} : Evaluator).evaluate (release ["ann"]).reversed).1 = .ok q' ∧
        (p'.computed.factsOf "free").facts = [[.text "ann"], [.text "bob"]] ∧
        (p'.computed.factsOf "free").SameFacts (q'.computed.factsOf "free") := by
  have hstrat : (release ["ann"]).Stratifiable := stratifiable_iff_exists_layered.2
    ⟨fun name => if name = "suspect" then 1 else if name = "free" then 2 else 0, by decide⟩
  have hgraded : (release ["ann"]).reversed.Graded fun name =>
    if name = "suspect" then 1 else if name = "free" then 2 else 0 := by decide
  refine ⟨hstrat, _, _, rfl, rfl, by decide, ?_⟩
  refine sameFacts_of_founded _ _ hstrat (perm_reversed _) rfl rfl {} {} _ _ rfl rfl "free"
    (fun a _ => ⟨?_, ?_⟩) (fun _ b _ _ => ?_)
  · exact (graded_release ["ann"]).founded (e := {}) (by decide) rfl rfl a
  · exact hgraded.founded (e := {}) (by decide) rfl rfl a
  · have hkeys : ["clear", "suspect", "checked", "free"].Perm ["checked", "clear", "suspect", "free"] := by
      decide
    exact hkeys.mem_iff

/-! ## Two ways to disagree -/

/-- Declared the usual way, the inquiry suspects ann and cid for a while, and the entry that is left
lets everyone go, or they stay suspects by hearsay. Declared the other way round, it clears them
first; then nobody is ever a suspect, and without an entry for suspects nobody is free. -/
theorem order_matters :
    ((release ["ann", "cid"]).Valid ∧ (release ["ann", "cid"]).ArityConsistent ∧
      (release ["ann", "cid"]).Stratifiable ∧ (release ["ann", "cid"]).computed = ∅ ∧
      ∃ p' q', (({} : Evaluator).evaluate (release ["ann", "cid"])).1 = .ok p' ∧
        (({} : Evaluator).evaluate (release ["ann", "cid"]).reversed).1 = .ok q' ∧
        [.text "ann"] ∈ p'.computed.factsOf "free" ∧
        [.text "ann"] ∉ q'.computed.factsOf "free") ∧
    hearsay.Valid ∧ hearsay.ArityConsistent ∧ hearsay.Stratifiable ∧ hearsay.computed = ∅ ∧
      ∃ p' q', (({} : Evaluator).evaluate hearsay).1 = .ok p' ∧
        (({} : Evaluator).evaluate hearsay.reversed).1 = .ok q' ∧
        [.text "ann"] ∈ p'.computed.factsOf "suspect" ∧
        [.text "ann"] ∉ q'.computed.factsOf "suspect" := by
  let arity (name : String) : Nat := if name = "partner" then 2 else 1
  let level (name : String) : Nat := if name = "suspect" then 1 else if name = "free" then 2 else 0
  refine ⟨⟨by decide, ⟨arity, by decide⟩, ?_, rfl, _, _, rfl, rfl, by decide, by decide⟩,
    by decide, ⟨arity, by decide⟩, ?_, rfl, _, _, rfl, rfl, by decide, by decide⟩
  · exact stratifiable_iff_exists_layered.2 ⟨level, by decide⟩
  · exact stratifiable_iff_exists_layered.2 ⟨level, by decide⟩

end Program

end Verdict

import Verdict.Proofs.Evaluation.Convergence
import Verdict.Proofs.Evaluation.Failure
import Verdict.Proofs.Evaluation.LeastModel

/-!
# The order of declaration

Declaring the same nodes in another order changes the order in which predicates are recomputed, and so
the stores on the way; it does not change what a single step can do (`changes_of_sameMap`). So whatever
has been said of all chains of changes holds of both orders at once.

> A semi-positive program has one outcome in all orders of declaration: the same facts, or an error in
> each of them.

The facts are those of the least model. As for errors, a settled store is the widest that any
order comes to, and what does not fail there does not fail on the way in any other order.
-/

namespace Verdict

theorem Table.sameMap_of_perm {κ β : Type} [DecidableEq κ] {t u : Table κ β}
    (h : t.entries.Perm u.entries) : t.SameMap u := by
  intro k
  refine Option.ext fun v => ?_
  rw [get?_eq_some_iff, get?_eq_some_iff, h.mem_iff]

variable {α : Type}

namespace Program

/-- The same nodes, declared the other way round. -/
def reversed (p : Program α) : Program α where
  nodes :=
    { entries := p.nodes.entries.reverse
      nodup_keys := by
        rw [List.map_reverse, List.nodup_reverse]
        exact p.nodes.nodup_keys }
  computed := p.computed

theorem perm_reversed (p : Program α) : p.reversed.nodes.entries.Perm p.nodes.entries :=
  List.reverse_perm _

variable {p q : Program α}

theorem mem_predicates_of_sameMap (h : p.nodes.SameMap q.nodes) {name : String} {pred : Predicate α} :
    (name, pred) ∈ p.predicates ↔ (name, pred) ∈ q.predicates := by
  rw [mem_predicates_iff, mem_predicates_iff, h name]

variable [DecidableEq α]

theorem derive_of_sameMap (h : p.nodes.SameMap q.nodes) (s : Store α) (pred : Predicate α) :
    p.derive s pred = q.derive s pred := by
  refine derive_congr fun rule _ c _ => ?_
  rw [resolve?, resolve?, h c.relation]

theorem update_of_sameMap (h : p.nodes.SameMap q.nodes) (s : Store α) (name : String)
    (pred : Predicate α) : p.update s name pred = q.update s name pred := by
  rw [update, update, derive_of_sameMap h]

theorem changes_of_sameMap (h : p.nodes.SameMap q.nodes) : p.Changes = q.Changes := by
  funext s t
  simp only [Changes, mem_predicates_of_sameMap h, update_of_sameMap h]

theorem reaches_of_sameMap (h : p.nodes.SameMap q.nodes) : p.Reaches = q.Reaches := by
  rw [Reaches, Reaches, changes_of_sameMap h]

theorem settled_of_sameMap (h : p.nodes.SameMap q.nodes) {s : Store α} : p.Settled s ↔ q.Settled s := by
  simp only [Settled, mem_predicates_of_sameMap h, update_of_sameMap h]

/-! ## Errors -/

omit [DecidableEq α] in
theorem SemiPositive.of_sameMap (h : p.nodes.SameMap q.nodes) (hp : p.SemiPositive) :
    q.SemiPositive := by
  intro e hm rule hr c hc hn
  obtain ⟨⟨n, r⟩, hmem, e'⟩ :=
    List.mem_map.1 (hp e ((mem_predicates_of_sameMap h).2 hm) rule hr c hc hn)
  rw [mem_relations_iff, h n, ← mem_relations_iff] at hmem
  exact List.mem_map.2 ⟨(n, r), hmem, e'⟩

theorem SemiPositive.exists_cap (hp : p.SemiPositive) :
    ∃ m, ∀ n, m ≤ n → (p.run n ∅).ending ≠ .capReached := by
  refine ⟨{x | x ∈ p.base}.ncard + 1, fun n hn => ?_⟩
  have hlevels : ∀ a b, p.Uses a b → (∃ q, (b, q) ∈ p.predicates) → ¬ True → 0 < 0 :=
    fun _ _ _ _ hno => (hno trivial).elim
  exact ending_ne_capReached_of_base (D := 0) hp.monotoneOn hlevels (fun _ _ _ => Or.inl trivial)
    (Nat.lt_of_succ_le hn)

end Program

namespace Program

variable {p q : Program}

/-- With no fewer facts a semi-positive program finds no fewer rows, and the same ones where it denies. -/
theorem SemiPositive.widens (hp : p.SemiPositive) {s t : Store} (hs : p.Reaches ∅ s)
    (ht : p.Reaches ∅ t) (hst : ∀ name, ∀ f ∈ s.factsOf name, f ∈ t.factsOf name) {name : String}
    {pred : Predicate} (hm : (name, pred) ∈ p.predicates) {rule : Rule} (hr : rule ∈ pred.rules)
    {c : Clause} (hc : c ∈ rule) : p.Widens s t c := by
  have hgrow : p.Growing (fun _ => True) s := ((growing_empty _).of_reaches hp.monotoneOn hs).1
  have hcover := covers_empty.of_reaches ht
  intro r hres
  cases hget : s.get? c.relation with
  | some r₀ =>
    rw [resolve?_of_entry hget] at hres
    cases hres
    -- The entry has a fact, so there is an entry in `t` as well.
    obtain ⟨f, hf⟩ := hgrow.inhabited _ _ trivial hget
    rw [← Store.factsOf_of_entry hget] at hf ⊢
    cases hget' : t.get? c.relation with
    | none =>
      have := hst _ f hf
      rw [Store.factsOf_of_no_entry hget'] at this
      cases this
    | some r' =>
      refine ⟨r', resolve?_of_entry hget', fun g hg => ?_, fun hn => ?_⟩
      · rw [← Store.factsOf_of_entry hget']
        exact hst _ g hg
      · obtain ⟨q, hq⟩ := hgrow.covers _ _ hget
        obtain ⟨r'', hr''⟩ := (hp.monotoneOn name pred hm trivial rule hr c hc).1 hn
        rw [hq] at hr''
        cases hr''
  | none =>
    rw [resolve?_of_no_entry hget] at hres
    obtain ⟨node, hnode, hrel⟩ := Option.bind_eq_some_iff.1 hres
    have hget' : t.get? c.relation = none := by
      cases hget' : t.get? c.relation with
      | none => rfl
      | some r' =>
        obtain ⟨q, hq⟩ := hcover _ _ hget'
        rw [hq] at hnode
        cases hnode
        cases hrel
    exact ⟨r, by rw [resolve?_of_no_entry hget']; exact hres, fun _ hf => hf, fun _ => rfl⟩

/-- **If some order settles, nothing fails in any order.** -/
theorem SemiPositive.exists_derive (hp : p.SemiPositive) {s t : Store} (hs : p.Reaches ∅ s)
    (ht : p.Reaches ∅ t) (hsettled : p.Settled t) {name : String} {pred : Predicate}
    (hm : (name, pred) ∈ p.predicates) : ∃ r, p.derive s pred = .ok r := by
  have hst : ∀ n, ∀ f ∈ s.factsOf n, f ∈ t.factsOf n := by
    intro n f hf
    exact (mem_factsOf_iff_leastModel hp ht hsettled).2 (below_leastModel hp hs hf)
  obtain ⟨r, hr, -⟩ := update_eq_none_iff.1 (hsettled name pred hm)
  exact exists_derive_of_widens (fun rule hrule c hc => hp.widens hs ht hst hm hrule hc) ⟨r, hr⟩

/-! ## The outcome -/

/-- Under a large enough cap a semi-positive program settles, or some predicate fails for its arity. -/
theorem SemiPositive.outcome (hp : p.SemiPositive) (h₀ : p.computed = ∅) :
    ∃ m, ∀ e : Evaluator, m ≤ e.cap.rounds →
      (∃ t, (e.evaluate p).1 = .ok (p.withComputed t) ∧ p.Reaches ∅ t ∧ p.Settled t) ∨
        ∃ a b, (e.evaluate p).1 = .error (.unify (.arity a b)) ∧
          ∃ t name pred, p.Reaches ∅ t ∧ (name, pred) ∈ p.predicates ∧
            p.derive t pred = .error (.arity a b) := by
  obtain ⟨m, hm⟩ := hp.exists_cap
  refine ⟨m, fun e he => ?_⟩
  rcases h₀ ▸ evaluate_cases e p with hsettled | hcap | ⟨err, herr, hfail⟩
  · exact Or.inl hsettled
  · exact absurd hcap (hm _ he)
  · cases err with
    | arity a b => exact Or.inr ⟨a, b, herr, hfail⟩
    | foreign v => exact nomatch v

/-- **A semi-positive program has the same outcome in all orders of declaration.** -/
theorem confluent_of_semiPositive (p q : Program) (hp : p.SemiPositive)
    (hperm : q.nodes.entries.Perm p.nodes.entries) (hp₀ : p.computed = ∅) (hq₀ : q.computed = ∅) :
    ∃ m, ∀ e e' : Evaluator, m ≤ e.cap.rounds → m ≤ e'.cap.rounds →
      ((∃ a b, (e.evaluate p).1 = .error (.unify (.arity a b))) ∧
          ∃ a b, (e'.evaluate q).1 = .error (.unify (.arity a b))) ∨
        ∃ p' q', (e.evaluate p).1 = .ok p' ∧ (e'.evaluate q).1 = .ok q' ∧
          ∀ name, (p'.computed.factsOf name).SameFacts (q'.computed.factsOf name) := by
  have hnodes : p.nodes.SameMap q.nodes := Table.sameMap_of_perm hperm.symm
  obtain ⟨m, hm⟩ := hp.outcome hp₀
  obtain ⟨m', hm'⟩ := (hp.of_sameMap hnodes).outcome hq₀
  -- From here on the other order is one more way of evaluating `p`.
  simp only [← reaches_of_sameMap hnodes, ← settled_of_sameMap hnodes,
    ← mem_predicates_of_sameMap hnodes, ← derive_of_sameMap hnodes] at hm'
  refine ⟨max m m', fun e e' he he' => ?_⟩
  rcases hm e (by omega) with ⟨s, hs, hps, hsettled⟩ | ⟨a, b, herr, s, name, pred, hps, hpred, hfail⟩
  · rcases hm' e' (by omega) with ⟨t, ht, hpt, htsettled⟩ | ⟨a, b, -, t, name, pred, hpt, hpred, hfail⟩
    · refine Or.inr ⟨_, _, hs, ht, fun name f => ?_⟩
      exact (mem_factsOf_iff_leastModel hp hps hsettled).trans
        (mem_factsOf_iff_leastModel hp hpt htsettled).symm
    · obtain ⟨r, hr⟩ := hp.exists_derive hpt hps hsettled hpred
      rw [hfail] at hr
      cases hr
  · rcases hm' e' (by omega) with ⟨t, -, hpt, htsettled⟩ | ⟨a', b', herr', -⟩
    · obtain ⟨r, hr⟩ := hp.exists_derive hps hpt htsettled hpred
      rw [hfail] at hr
      cases hr
    · exact Or.inl ⟨⟨a, b, herr⟩, a', b', herr'⟩

theorem confluent_openRoutes :
    openRoutes.SemiPositive ∧ openRoutes.reversed.nodes.entries.Perm openRoutes.nodes.entries ∧
      ∃ m, ∀ e e' : Evaluator, m ≤ e.cap.rounds → m ≤ e'.cap.rounds →
        ∃ p' q', (e.evaluate openRoutes).1 = .ok p' ∧ (e'.evaluate openRoutes.reversed).1 = .ok q' ∧
          ∀ name, (p'.computed.factsOf name).SameFacts (q'.computed.factsOf name) := by
  have hp : openRoutes.SemiPositive := by decide
  have hperm := perm_reversed openRoutes
  have harity : openRoutes.FitsArities fun name => if name = "loop" then 1 else 2 := by decide
  obtain ⟨m, hm⟩ := confluent_of_semiPositive openRoutes openRoutes.reversed hp hperm rfl rfl
  refine ⟨hp, hperm, m, fun e e' he he' => ?_⟩
  rcases hm e e' he he' with ⟨⟨a, b, herr⟩, -⟩ | hsame
  · exact absurd herr (harity.evaluate_ne_unify rfl e _)
  · exact hsame

end Program

end Verdict

import Verdict.Proofs.Evaluation.ClauseOrder
import Verdict.Proofs.Evaluation.Termination
import Verdict.Proofs.Table

/-!
# Order that does not matter

Evaluation goes by sets of facts. The order of facts in a relation, of rules in a predicate and of
clauses in a body, this one as far as the same variables are bound where a denial is read, decides in
which order rows are compared, where a body is left early, and in which order facts are stored; it does
not decide which facts a predicate gets in which round.

> Two programs with the same names in the same order that differ only in such orders run through stores
> with the same entries and the same facts, and where each name has one arity their runs end alike
> (`rearranged_rounds`).

Stores that agree on their facts give one view (`Rearranged.view_eq`), and what is derived is a matter of
the view. An update therefore finds a change in both programs or in neither, and rounds and runs follow.
Where matching fails the order does matter, since it decides which rows are looked at.
-/

namespace Verdict

variable {α : Type}

/-- The same head, and the same rules in another order, each with its clauses reordered. -/
def Predicate.Rearranged (q q' : Predicate α) : Prop :=
  q.args = q'.args ∧ ∃ rules, q.rules.Perm rules ∧ List.Forall₂ Rule.Reordered rules q'.rules

/-- A relation with its facts in another order, or a predicate with its rules and clauses. -/
def Node.Rearranged : Node α → Node α → Prop
  | .relation r, .relation r' => r.facts.Perm r'.facts
  | .predicate q, .predicate q' => q.Rearranged q'
  | _, _ => False

/-- The same names in the same order, with what they stand for rearranged. -/
structure Program.Rearranged (p q : Program α) : Prop where
  nodes : p.nodes.Aligned Node.Rearranged q.nodes
  computed : p.computed.Aligned (fun r r' => r.facts.Perm r'.facts) q.computed

theorem Relation.SameFacts.of_perm {r r' : Relation α} (h : r.facts.Perm r'.facts) : r.SameFacts r' :=
  fun _ => h.mem_iff

/-- What one store holds for a name the other one holds as well. -/
theorem Store.sameFacts_of_aligned {s t : Store α} (h : s.Aligned Relation.SameFacts t) (name : String) :
    (s.factsOf name).SameFacts (t.factsOf name) := by
  have hrel := h.get? name
  rw [factsOf, factsOf]
  generalize s.get? name = a, t.get? name = b at hrel
  cases hrel with
  | none => exact fun _ => Iff.rfl
  | some same => exact same

/-! ## What is derived -/

theorem Predicate.Rearranged.derives_iff {q q' : Predicate α} (h : q.Rearranged q') {V : View α}
    {f : Fact α} : q.Derives V f ↔ q'.Derives V f := by
  obtain ⟨hargs, rules, hperm, hrules⟩ := h
  constructor
  · intro hf
    obtain ⟨rule, hr, w, hw, hf⟩ := hf
    obtain ⟨rule', hr', hreordered⟩ := exists_mem_of_forall₂ hrules (hperm.mem_iff.1 hr)
    exact ⟨rule', hr', w, (Rule.sat_iff_of_reordered hreordered).1 hw, hargs ▸ hf⟩
  · intro hf
    obtain ⟨rule', hr', w, hw, hf⟩ := hf
    obtain ⟨rule, hr, hreordered⟩ := exists_mem_of_forall₂ hrules.flip hr'
    exact ⟨rule, hperm.mem_iff.2 hr, w, (Rule.sat_iff_of_reordered hreordered).2 hw, hargs ▸ hf⟩

namespace Program

variable {p q : Program α}

theorem Rearranged.resolve? (h : p.Rearranged q) {s t : Store α}
    (hst : s.Aligned Relation.SameFacts t) (name : String) :
    Option.Rel Relation.SameFacts (p.resolve? s name) (q.resolve? t name) := by
  have hstore := hst.get? name
  have hnodes := h.nodes.get? name
  rw [Program.resolve?, Program.resolve?]
  generalize s.get? name = a, t.get? name = b at hstore
  generalize p.nodes.get? name = m, q.nodes.get? name = n at hnodes
  cases hstore with
  | some same => exact .some same
  | none =>
    cases hnodes with
    | none => exact .none
    | @some node node' hnode =>
      cases node with
      | relation r =>
        cases node' with
        | relation r' => exact .some (.of_perm hnode)
        | predicate _ => cases hnode
      | predicate _ =>
        cases node' with
        | relation _ => cases hnode
        | predicate _ => exact .none

theorem view_eq_of_resolve? {s t : Store α}
    (h : ∀ name, Option.Rel Relation.SameFacts (p.resolve? s name) (q.resolve? t name)) :
    p.view s = q.view t := by
  have hknown : (p.view s).Known = (q.view t).Known := by
    funext name
    show ((p.resolve? s name).isSome = true) = ((q.resolve? t name).isSome = true)
    have hname := h name
    generalize p.resolve? s name = a, q.resolve? t name = b at hname
    cases hname <;> rfl
  have hholds : (p.view s).Holds = (q.view t).Holds := by
    funext name f
    show (∃ r, p.resolve? s name = some r ∧ f ∈ r) = (∃ r, q.resolve? t name = some r ∧ f ∈ r)
    have hname := h name
    generalize p.resolve? s name = a, q.resolve? t name = b at hname
    cases hname with
    | none => simp
    | some same => simp [same f]
  exact congrArg₂ View.mk hknown hholds

/-- **Stores that agree on their facts give one view of both programs.** -/
theorem Rearranged.view_eq (h : p.Rearranged q) {s t : Store α}
    (hst : s.Aligned Relation.SameFacts t) : p.view s = q.view t :=
  view_eq_of_resolve? (h.resolve? hst)

theorem Rearranged.predicates (h : p.Rearranged q) :
    List.Forall₂ (Table.EntryRel Predicate.Rearranged) p.predicates q.predicates := by
  apply List.rel_filterMap _ h.nodes
  intro e e' he
  obtain ⟨name, node⟩ := e
  obtain ⟨name', node'⟩ := e'
  obtain ⟨rfl, hnode⟩ := he
  cases node with
  | relation _ =>
    cases node' with
    | relation _ => exact .none
    | predicate _ => cases hnode
  | predicate _ =>
    cases node' with
    | relation _ => cases hnode
    | predicate _ => exact .some ⟨rfl, hnode⟩

variable [DecidableEq α]

/-! ## One update, one round -/

theorem Rearranged.update (h : p.Rearranged q) {s t : Store α} (hst : s.Aligned Relation.SameFacts t)
    {name : String} {pred pred' : Predicate α} (hpred : pred.Rearranged pred')
    {o o' : Option (Store α)} (ho : p.update s name pred = .ok o)
    (ho' : q.update t name pred' = .ok o') :
    o.isSome = o'.isSome ∧ (o.getD s).Aligned Relation.SameFacts (o'.getD t) := by
  have same {r r' : Relation α} (hr : p.derive s pred = .ok r) (hr' : q.derive t pred' = .ok r') :
      r.SameFacts r' := by
    intro f
    rw [mem_derive hr, mem_derive hr', h.view_eq hst, hpred.derives_iff]
  have stored := Store.sameFacts_of_aligned hst name
  cases o with
  | none =>
    obtain ⟨r, hr, hsame⟩ := update_eq_none_iff.1 ho
    cases o' with
    | none => exact ⟨rfl, hst⟩
    | some t' =>
      obtain ⟨r', hr', hother, -⟩ := update_eq_some_iff.1 ho'
      refine absurd (fun f => ?_) hother
      rw [← stored f, hsame f, same hr hr' f]
  | some s' =>
    obtain ⟨r, hr, hother, rfl⟩ := update_eq_some_iff.1 ho
    cases o' with
    | none =>
      obtain ⟨r', hr', hsame⟩ := update_eq_none_iff.1 ho'
      refine absurd (fun f => ?_) hother
      rw [stored f, hsame f, same hr hr' f]
    | some t' =>
      obtain ⟨r', hr', -, rfl⟩ := update_eq_some_iff.1 ho'
      exact ⟨rfl, hst.insert name (same hr hr')⟩

theorem Rearranged.sweep (h : p.Rearranged q) {l m : List (String × Predicate α)}
    (hlm : List.Forall₂ (Table.EntryRel Predicate.Rearranged) l m) {s t s' t' : Store α}
    (hst : s.Aligned Relation.SameFacts t) {changed changed' : Bool}
    (hs : p.sweep l s = .ok (s', changed)) (ht : q.sweep m t = .ok (t', changed')) :
    changed = changed' ∧ s'.Aligned Relation.SameFacts t' := by
  induction hlm generalizing s t changed changed' with
  | nil =>
    cases hs
    cases ht
    exact ⟨rfl, hst⟩
  | @cons e e' _ _ he _ ih =>
    obtain ⟨name, pred⟩ := e
    obtain ⟨name', pred'⟩ := e'
    obtain ⟨rfl, hpred⟩ := he
    obtain ⟨first, later, hfirst, hlater, rfl⟩ := sweep_cons_eq_ok_iff.1 hs
    obtain ⟨first', later', hfirst', hlater', rfl⟩ := sweep_cons_eq_ok_iff.1 ht
    obtain ⟨hflag, hnext⟩ := h.update hst hpred hfirst hfirst'
    obtain ⟨hflags, hend⟩ := ih hnext hlater hlater'
    exact ⟨by rw [hflag, hflags], hend⟩

/-- **From stores with the same facts a round leads to stores with the same facts, and it finds a change
in both programs or in neither.** -/
theorem Rearranged.round (h : p.Rearranged q) {s t s' t' : Store α}
    (hst : s.Aligned Relation.SameFacts t) {changed changed' : Bool}
    (hs : p.round s = .ok (s', changed)) (ht : q.round t = .ok (t', changed')) :
    changed = changed' ∧ s'.Aligned Relation.SameFacts t' :=
  h.sweep h.predicates hst hs ht

/-! ## Whole runs -/

theorem Rearranged.run (h : p.Rearranged q) {n k : Nat} {s t s' t' : Store α}
    (hst : s.Aligned Relation.SameFacts t) (hs : (p.run n s).snapshots[k]? = some s')
    (ht : (q.run n t).snapshots[k]? = some t') : s'.Aligned Relation.SameFacts t' := by
  induction k generalizing n s t with
  | zero =>
    obtain ⟨m, u, _, rfl, hu, ⟨-, rfl⟩ | ⟨-, _, e, -⟩⟩ := exists_of_getElem?_run hs
    · obtain ⟨m', v, _, -, hv, ⟨-, rfl⟩ | ⟨-, _, e, -⟩⟩ := exists_of_getElem?_run ht
      · exact (h.round hst hu hv).2
      · cases e
    · cases e
  | succ k ih =>
    obtain ⟨m, u, _, rfl, hu, ⟨e, -⟩ | ⟨-, _, e, hs⟩⟩ := exists_of_getElem?_run hs
    · cases e
    obtain ⟨m', v, _, e', hv, ⟨e'', -⟩ | ⟨-, _, e'', ht⟩⟩ := exists_of_getElem?_run ht
    · cases e''
    cases e
    cases e'
    cases e''
    exact ih (h.round hst hu hv).2 hs ht

end Program

/-! ## Where each name has one arity -/

theorem Store.Fits.of_sameFacts {s t : Store} {arity : String → Nat} (hs : s.Fits arity)
    (hst : s.Aligned Relation.SameFacts t) : t.Fits arity :=
  fun name f hf => hs name f ((sameFacts_of_aligned hst name f).2 hf)

namespace Program

variable {p q : Program}

theorem Rearranged.fitsArities (h : p.Rearranged q) {arity : String → Nat} (hp : p.FitsArities arity) :
    q.FitsArities arity := by
  constructor
  · intro e he f hf
    obtain ⟨name, r'⟩ := e
    have hrel := h.nodes.get? name
    rw [mem_relations_iff.1 he] at hrel
    generalize hget : p.nodes.get? name = m at hrel
    cases hrel with
    | @some node _ hnode =>
      cases node with
      | relation r => exact hp.1 (name, r) (mem_relations_iff.2 hget) f (hnode.mem_iff.2 hf)
      | predicate _ => cases hnode
  · intro e' he'
    obtain ⟨e, he, hname, hargs, rules, hperm, hrules⟩ := exists_mem_of_forall₂ h.predicates.flip he'
    obtain ⟨harity, hclauses⟩ := hp.2 e he
    refine ⟨?_, fun rule' hr' c hc => ?_⟩
    · rw [Predicate.arity, ← hargs, ← hname]
      exact harity
    · obtain ⟨rule, hr, hreordered⟩ := exists_mem_of_forall₂ hrules.flip hr'
      exact hclauses rule (hperm.mem_iff.2 hr) c (hreordered.clauses.mem_iff.2 hc)

/-- Without failures the runs are of one length and end alike. -/
theorem Rearranged.run_of_fits (h : p.Rearranged q) {arity : String → Nat} (hp : p.FitsArities arity)
    {n : Nat} {s t : Store} (hs : s.Fits arity) (hst : s.Aligned Relation.SameFacts t) :
    (p.run n s).snapshots.length = (q.run n t).snapshots.length ∧
      (p.run n s).ending = (q.run n t).ending := by
  induction n generalizing s t with
  | zero => exact ⟨rfl, rfl⟩
  | succ n ih =>
    obtain ⟨u, changed, hu⟩ := hp.exists_round hs
    obtain ⟨v, changed', hv⟩ := (h.fitsArities hp).exists_round (hs.of_sameFacts hst)
    obtain ⟨rfl, huv⟩ := h.round hst hu hv
    rw [run_of_round hu, run_of_round hv]
    cases changed with
    | false => exact ⟨rfl, rfl⟩
    | true =>
      obtain ⟨hlength, hending⟩ := ih (hp.fits_of_reaches hs (reaches_of_round hu)) huv
      exact ⟨congrArg (· + 1) hlength, hending⟩

/-- **Evaluation depends on sets of facts only.** Let `q` be `p` rearranged. What the two have after a
round, if both come so far, are the same entries in the same order with the same facts. If `p` and its
seed give one arity to each name, both come equally far and end alike. -/
theorem rearranged_rounds (p q : Program) (h : p.Rearranged q) (cap : Cap) :
    (∀ (k : Nat) (s t : Store), (p.rounds cap none).1[k]? = some s → (q.rounds cap none).1[k]? = some t →
        s.Aligned Relation.SameFacts t) ∧
      ∀ arity, p.FitsArities arity → p.computed.Fits arity →
        (p.rounds cap none).1.length = (q.rounds cap none).1.length ∧
          (p.rounds cap none).2 = (q.rounds cap none).2 := by
  have hseed : p.computed.Aligned Relation.SameFacts q.computed :=
    h.computed.imp fun _ _ he => ⟨he.1, .of_perm he.2⟩
  refine ⟨fun k s t hs ht => h.run hseed hs ht, fun arity hp hfits => ?_⟩
  obtain ⟨hlength, hending⟩ := h.run_of_fits hp (n := cap.rounds) hfits hseed
  exact ⟨hlength, congrArg some hending⟩

/-- A hearing of the given people: at first everyone is under suspicion, and who is free is said by the
given rules. -/
def hearing (people : List String) (rules : List Rule) : Program where
  nodes := .ofList
    [("person", .relation (.ofRows (people.map fun x => [.text x]))),
     ("heard", .relation (.ofRows (people.map fun x => [.text x]))),
     ("alibi", .relation (.ofRows [[.text "bob"]])),
     ("free", .predicate { args := ["X"], rules }),
     ("suspect", .predicate
       { args := ["X"]
         rules := [[⟨"person", [.var "X"], false⟩, ⟨"free", [.var "X"], true⟩]] })]
  computed := .ofList [("suspect", .ofRows (people.map fun x => [.text x]))]

/-- One account of a hearing. -/
def account : Program :=
  hearing ["ann", "bob", "cid"]
    [[⟨"person", [.var "X"], false⟩, ⟨"suspect", [.var "X"], true⟩, ⟨"heard", [.var "X"], false⟩],
     [⟨"alibi", [.var "X"], false⟩, ⟨"person", [.var "X"], false⟩]]

/-- Another account of it, the other way round. -/
def otherAccount : Program :=
  hearing ["cid", "bob", "ann"]
    [[⟨"person", [.var "X"], false⟩, ⟨"alibi", [.var "X"], false⟩],
     [⟨"heard", [.var "X"], false⟩, ⟨"suspect", [.var "X"], true⟩, ⟨"person", [.var "X"], false⟩]]

theorem rearranged_account : account.Rearranged otherAccount where
  computed := .cons ⟨rfl, List.reverse_perm _⟩ .nil
  nodes := by
    have hpeople : Node.Rearranged (α := Empty)
        (.relation (.ofRows (["ann", "bob", "cid"].map fun x => [.text x])))
        (.relation (.ofRows (["cid", "bob", "ann"].map fun x => [.text x]))) :=
      List.reverse_perm _
    refine .cons ⟨rfl, hpeople⟩ (.cons ⟨rfl, hpeople⟩ (.cons ⟨rfl, .refl _⟩
      (.cons ⟨rfl, ?_⟩ (.cons ⟨rfl, ?_⟩ .nil))))
    · exact ⟨rfl, _, .swap _ _ [], .cons (by decide) (.cons (by decide) .nil)⟩
    · exact ⟨rfl, _, .refl _, .cons (by decide) .nil⟩

/-- The suspects come out in another order, after as many rounds. -/
theorem rearranged_rounds_account :
    account.Rearranged otherAccount ∧ account.FitsArities (fun _ => 1) ∧
      account.computed.Fits (fun _ => 1) ∧
      ∃ s t : Store, (account.rounds .standard none).1[1]? = some s ∧
        (otherAccount.rounds .standard none).1[1]? = some t ∧
        (s.factsOf "suspect").facts = [[.text "ann"], [.text "cid"]] ∧
        (t.factsOf "suspect").facts = [[.text "cid"], [.text "ann"]] ∧
        s.Aligned Relation.SameFacts t ∧
        (account.rounds .standard none).1.length = (otherAccount.rounds .standard none).1.length := by
  have hp : account.FitsArities fun _ => 1 := by decide
  have hseed : account.computed.Fits fun _ => 1 := Store.forall_factsOf (by decide)
  obtain ⟨hfacts, hends⟩ := rearranged_rounds account otherAccount rearranged_account .standard
  exact ⟨rearranged_account, hp, hseed, _, _, rfl, rfl, by decide, by decide,
    hfacts 1 _ _ rfl rfl, (hends _ hp hseed).1⟩

end Program

end Verdict

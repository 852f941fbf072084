import Verdict.Proofs.Evaluation.Termination
import Verdict.Proofs.Table

/-!
# Parts of a program

A set of names is closed under use if the predicates in it use only names in it. Such a part of a
program can be evaluated on its own. In the whole program other predicates are recomputed in between,
and rounds go on after the part has come to rest; neither is seen in the part:

> Round by round, the entries of the part are those of the part evaluated alone, in the same order and
> with the same facts in the same order (`locality`).

Nothing is asked of the rules, so this holds as well where facts are retracted and where evaluation
never comes to rest. Each change of the whole program is a change of the part or leaves the part as it
is (`restrict_of_changes`), hence a part that has come to rest stays so.
-/

namespace Verdict

variable {α : Type}

namespace Program

/-- The predicates with a name in `C` use only names in `C`. -/
def ClosedUnderUse (p : Program α) (C : String → Prop) : Prop :=
  ∀ e ∈ p.predicates, C e.1 → ∀ rule ∈ e.2.rules, ∀ c ∈ rule, C c.relation

instance (p : Program α) (C : String → Prop) [DecidablePred C] : Decidable (p.ClosedUnderUse C) :=
  inferInstanceAs
    (Decidable (∀ e ∈ p.predicates, C e.1 → ∀ rule ∈ e.2.rules, ∀ c ∈ rule, C c.relation))

variable {C : String → Prop} [DecidablePred C]

/-- The part of a program with a name in `C`: nodes and store. -/
def restrict (C : String → Prop) [DecidablePred C] (p : Program α) : Program α where
  nodes := p.nodes.restrict C
  computed := p.computed.restrict C

variable {p : Program α}

theorem predicates_restrict : (p.restrict C).predicates = p.predicates.filter fun e => C e.1 := by
  rw [predicates, predicates, List.filter_filterMap]
  show List.filterMap _ (p.nodes.entries.filter _) = _
  rw [List.filterMap_filter]
  refine List.filterMap_congr fun e _ => ?_
  obtain ⟨name, node⟩ := e
  cases node with
  | relation r => simp [Node.predicate?]
  | predicate q => by_cases hn : C name <;> simp [Node.predicate?, Option.filter, hn]

theorem resolve?_restrict {name : String} (hn : C name) (s : Store α) :
    (p.restrict C).resolve? (s.restrict C) name = p.resolve? s name := by
  rw [resolve?, resolve?, Table.get?_restrict_of_mem hn, restrict, Table.get?_restrict_of_mem hn]

variable [DecidableEq α]

/-! ## One predicate -/

theorem derive_restrict (hC : p.ClosedUnderUse C) {name : String} {pred : Predicate α}
    (hm : (name, pred) ∈ p.predicates) (hn : C name) (s : Store α) :
    (p.restrict C).derive (s.restrict C) pred = p.derive s pred :=
  derive_congr fun rule hr c hc => resolve?_restrict (hC (name, pred) hm hn rule hr c hc) s

/-- Inside the part a predicate is recomputed as in the part alone. -/
theorem update_restrict (hC : p.ClosedUnderUse C) {name : String} {pred : Predicate α}
    (hm : (name, pred) ∈ p.predicates) (hn : C name) {s : Store α} {o : Option (Store α)}
    (h : p.update s name pred = .ok o) :
    (p.restrict C).update (s.restrict C) name pred = .ok (o.map (Table.restrict C)) := by
  have hfacts : Store.factsOf (s.restrict C) name = s.factsOf name :=
    Store.factsOf_congr (Table.get?_restrict_of_mem hn s)
  cases o with
  | none =>
    obtain ⟨r, hr, same⟩ := update_eq_none_iff.1 h
    exact update_eq_none_iff.2 ⟨r, (derive_restrict hC hm hn s).trans hr, hfacts ▸ same⟩
  | some t =>
    obtain ⟨r, hr, other, rfl⟩ := update_eq_some_iff.1 h
    exact update_eq_some_iff.2 ⟨r, (derive_restrict hC hm hn s).trans hr, hfacts ▸ other,
      Table.restrict_insert_of_mem hn s r⟩

/-- Outside the part an update leaves the part as it is. -/
theorem restrict_of_update {name : String} {pred : Predicate α} (hn : ¬ C name) {s : Store α}
    {o : Option (Store α)} (h : p.update s name pred = .ok o) :
    (o.getD s).restrict C = s.restrict C := by
  cases o with
  | none => rfl
  | some t =>
    obtain ⟨r, -, -, rfl⟩ := update_eq_some_iff.1 h
    exact Table.restrict_insert_of_not_mem hn s r

/-! ## One round -/

/-- A pass through predicates does to the part what a pass through those of the part does to it. It may
find a change where that one finds none. -/
theorem sweep_restrict (hC : p.ClosedUnderUse C) {l : List (String × Predicate α)}
    (hl : ∀ e ∈ l, e ∈ p.predicates) {s t : Store α} {changed : Bool}
    (h : p.sweep l s = .ok (t, changed)) :
    ∃ b, (p.restrict C).sweep (l.filter fun e => C e.1) (s.restrict C) = .ok (t.restrict C, b) ∧
      (b = true → changed = true) := by
  induction l generalizing s changed with
  | nil =>
    cases h
    exact ⟨false, rfl, id⟩
  | cons e rest ih =>
    obtain ⟨name, pred⟩ := e
    obtain ⟨hm, hrest⟩ := List.forall_mem_cons.1 hl
    obtain ⟨first, later, hfirst, hlater, rfl⟩ := sweep_cons_eq_ok_iff.1 h
    obtain ⟨b, hb, himp⟩ := ih hrest hlater
    by_cases hn : C name
    · have hup := update_restrict hC hm hn hfirst
      refine ⟨first.isSome || b, ?_, ?_⟩
      · rw [List.filter_cons_of_pos (by simpa using hn)]
        refine sweep_cons_eq_ok_iff.2 ⟨_, b, hup, ?_, by rw [Option.isSome_map]⟩
        cases first with
        | none => exact hb
        | some u => exact hb
      · simp only [Bool.or_eq_true]
        exact Or.imp id himp
    · refine ⟨b, ?_, fun e => by rw [himp e, Bool.or_true]⟩
      rw [List.filter_cons_of_neg (by simpa using hn), ← restrict_of_update hn hfirst]
      exact hb

/-- **A round of the whole program is on the part a round of the part.** -/
theorem round_restrict (hC : p.ClosedUnderUse C) {s t : Store α} {changed : Bool}
    (h : p.round s = .ok (t, changed)) :
    ∃ b, (p.restrict C).round (s.restrict C) = .ok (t.restrict C, b) ∧ (b = true → changed = true) := by
  rw [round, predicates_restrict]
  exact sweep_restrict hC (fun _ he => he) h

/-! ## After the part has come to rest -/

theorem restrict_of_changes (hC : p.ClosedUnderUse C) {s t : Store α} (h : p.Changes s t) :
    (p.restrict C).Changes (s.restrict C) (t.restrict C) ∨ t.restrict C = s.restrict C := by
  obtain ⟨name, pred, hm, hu⟩ := h
  by_cases hn : C name
  · refine Or.inl ⟨name, pred, ?_, update_restrict hC hm hn hu⟩
    rw [predicates_restrict]
    exact List.mem_filter.2 ⟨hm, decide_eq_true hn⟩
  · exact Or.inr (restrict_of_update hn hu)

/-- A part at rest is not changed by anything that happens outside of it. -/
theorem restrict_of_reaches (hC : p.ClosedUnderUse C) {s t : Store α}
    (hs : (p.restrict C).Settled (s.restrict C)) (h : p.Reaches s t) :
    t.restrict C = s.restrict C := by
  induction h with
  | refl => rfl
  | tail _ hc ih =>
    rcases restrict_of_changes hC hc with ⟨name, pred, hm, hu⟩ | hsame
    · rw [ih, hs name pred hm] at hu
      cases hu
    · exact hsame.trans ih

/-! ## Whole runs -/

theorem run_restrict (hC : p.ClosedUnderUse C) {n k : Nat} {s t : Store α}
    (h : (p.run n s).snapshots[k]? = some t) :
    ((p.restrict C).run n (s.restrict C)).snapshots[k]? = some (t.restrict C) ∨
      ((p.restrict C).run n (s.restrict C)).ending = .settled ∧
        ((p.restrict C).run n (s.restrict C)).snapshots.length ≤ k ∧
        ((p.restrict C).run n (s.restrict C)).snapshots.getLast? = some (t.restrict C) := by
  induction k generalizing n s with
  | zero =>
    obtain ⟨m, u, changed, rfl, hu, ⟨-, rfl⟩ | ⟨-, _, e, -⟩⟩ := exists_of_getElem?_run h
    · obtain ⟨b, hb, -⟩ := round_restrict hC hu
      rw [run_of_round hb]
      cases b <;> exact Or.inl rfl
    · cases e
  | succ k ih =>
    obtain ⟨m, u, changed, rfl, hu, ⟨e, -⟩ | ⟨-, _, e, h⟩⟩ := exists_of_getElem?_run h
    · cases e
    cases e
    obtain ⟨b, hb, -⟩ := round_restrict hC hu
    rw [run_of_round hb]
    cases b with
    | true =>
      refine (ih h).imp id fun hend => ?_
      obtain ⟨hsettled, hlength, hlast⟩ := hend
      refine ⟨hsettled, Nat.succ_le_succ hlength, ?_⟩
      rw [if_pos rfl, Run.cons, List.getLast?_cons, hlast, Option.getD_some]
    | false =>
      -- The part has come to rest, whatever the program does from here on.
      obtain ⟨e, hsettled⟩ := settled_of_round hb
      have hrest := restrict_of_reaches hC (e ▸ hsettled)
        (reaches_of_mem_run (List.mem_of_getElem? h))
      exact Or.inr ⟨rfl, Nat.succ_le_succ (Nat.zero_le k), congrArg some hrest.symm⟩

theorem run_restrict_ne_failed (hC : p.ClosedUnderUse C) {n k : Nat} {s t : Store α}
    (h : (p.run n s).snapshots[k]? = some t) {m : Nat} (hm : m ≤ k + 1) (err : UnifyError α) :
    ((p.restrict C).run m (s.restrict C)).ending ≠ .failed err := by
  induction m generalizing n k s with
  | zero =>
    intro e
    cases e
  | succ m ih =>
    obtain ⟨_, u, changed, rfl, hu, hnext⟩ := exists_of_getElem?_run h
    obtain ⟨b, hb, -⟩ := round_restrict hC hu
    rw [run_of_round hb]
    cases b with
    | false =>
      intro e
      cases e
    | true =>
      rcases hnext with ⟨rfl, -⟩ | ⟨-, j, rfl, hj⟩
      · cases Nat.le_zero.1 (Nat.le_of_succ_le_succ hm)
        intro e
        cases e
      · exact ih hj (Nat.le_of_succ_le_succ hm)

/-- **Evaluation is local.** Let `C` be closed under use. Whenever a run of the program has a `k`-th
snapshot, the entries of that snapshot for the names in `C` are the `k`-th snapshot of the part with
these names, or its last snapshot if the part has come to rest before; and the part does not fail
within the rounds that the program takes. -/
theorem locality (p : Program α) (C : String → Prop) [DecidablePred C] (hC : p.ClosedUnderUse C)
    (cap : Cap) (k : Nat) (s : Store α) (h : (p.rounds cap none).1[k]? = some s) :
    (((p.restrict C).rounds cap none).1[k]? = some (s.restrict C) ∨
        ((p.restrict C).rounds cap none).2 = some .settled ∧
          ((p.restrict C).rounds cap none).1.length ≤ k ∧
          ((p.restrict C).rounds cap none).1.getLast? = some (s.restrict C)) ∧
      ∀ take, take ≤ k + 1 → ∀ err, ((p.restrict C).rounds cap (some take)).2 ≠ some (.failed err) := by
  constructor
  · refine (run_restrict hC h).imp id fun hend => ?_
    exact ⟨congrArg some hend.1, hend.2⟩
  · intro take htake err hfail
    have hk : k < (p.run cap.rounds p.computed).snapshots.length := (List.getElem?_eq_some_iff.1 h).1
    have hcap := length_snapshots_le (p := p) cap.rounds p.computed
    rw [rounds, Nat.min_eq_right (by omega)] at hfail
    dsimp only at hfail
    split at hfail
    · cases hfail
    · exact run_restrict_ne_failed hC h htake err (Option.some.inj hfail)

/-- What the question who is clear depends on. -/
def clearance : List String := ["alibi", "seen", "clear", "checked"]

/-- While suspicion goes round for ever, it has been known since the second round who is clear. -/
theorem locality_chase :
    chase.ClosedUnderUse (· ∈ clearance) ∧
      ∃ s, (chase.rounds { rounds := 4 } none).1[3]? = some s ∧
        ((chase.restrict (· ∈ clearance)).rounds { rounds := 4 } none).1.length = 3 ∧
        ((chase.restrict (· ∈ clearance)).rounds { rounds := 4 } none).1.getLast? =
          some (s.restrict (· ∈ clearance)) := by
  have hC : chase.ClosedUnderUse (· ∈ clearance) := by decide
  have hlength : ((chase.restrict (· ∈ clearance)).rounds { rounds := 4 } none).1.length = 3 := by
    decide
  refine ⟨hC, _, rfl, hlength, ?_⟩
  rcases (locality chase (· ∈ clearance) hC { rounds := 4 } 3 _ rfl).1 with hsame | ⟨-, -, hlast⟩
  · have := (List.getElem?_eq_some_iff.1 hsame).1
    omega
  · exact hlast

end Program

end Verdict

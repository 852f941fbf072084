import Verdict.Proofs.Evaluation.Convergence

/-!
# What a run writes

A store is written in one place only: where the turn of a predicate comes, and it derives other facts
than the store has for it. A round *writes* the names of these predicates (`Program.Writes`). Since
each predicate has one turn,

* a round reports a change iff it writes a name (`changed_iff_writesIn`),
* and it writes just the names that have other facts after it than before (`writes_iff_differ`).

For whole runs this comes to an invariant of the store, whatever the rules deny and whatever the run
starts with (`entries_of_rounds`):

> Under a name that is not written the entry stays as it is, and only predicates are written. Entries
> keep their place, and new ones come behind the others. A written entry has facts of the length of its
> head, and they are made of the terms of the declared facts and of the seed.
-/

namespace Verdict

variable {α : Type} [DecidableEq α]

namespace Program

/-- A pass through the predicates writes an entry under the name. -/
def WritesIn (p : Program α) (name : String) : List (String × Predicate α) → Store α → Prop
  | [], _ => False
  | (n, pred) :: rest, s =>
    ∃ o, p.update s n pred = .ok o ∧ (n = name ∧ o.isSome = true ∨ p.WritesIn name rest (o.getD s))

/-- A round from the store writes an entry under the name. -/
def Writes (p : Program α) (name : String) (s : Store α) : Prop :=
  p.WritesIn name p.predicates s

/-- Some predicate has other facts in one store than in the other. -/
def Differ (p : Program α) (s t : Store α) : Prop :=
  ∃ name pred, (name, pred) ∈ p.predicates ∧ ¬ (s.factsOf name).SameFacts (t.factsOf name)

variable {p : Program α} {s t : Store α} {name : String}

/-! ## One round -/

section Pass

variable {l : List (String × Predicate α)} {changed : Bool}

theorem writesIn_cons_iff {n : String} {pred : Predicate α} {o : Option (Store α)}
    (h : p.update s n pred = .ok o) :
    p.WritesIn name ((n, pred) :: l) s ↔
      n = name ∧ o.isSome = true ∨ p.WritesIn name l (o.getD s) := by
  simp [WritesIn, h]

theorem mem_of_writesIn (h : p.WritesIn name l s) : name ∈ l.map Prod.fst := by
  induction l generalizing s with
  | nil => exact h.elim
  | cons e rest ih =>
    obtain ⟨o, -, ⟨rfl, -⟩ | hrest⟩ := h
    · exact List.mem_cons_self
    · exact List.mem_cons_of_mem _ (ih hrest)

theorem changed_iff_writesIn (h : p.sweep l s = .ok (t, changed)) :
    changed = true ↔ ∃ name, p.WritesIn name l s := by
  induction l generalizing s changed with
  | nil =>
    cases h
    simp [WritesIn]
  | cons e rest ih =>
    obtain ⟨first, later, hfirst, hlater, rfl⟩ := sweep_cons_eq_ok_iff.1 h
    simp only [writesIn_cons_iff hfirst, Bool.or_eq_true, ih hlater, exists_or, exists_eq_left']

theorem get?_of_not_writesIn (h : p.sweep l s = .ok (t, changed)) (hn : ¬ p.WritesIn name l s) :
    t.get? name = s.get? name := by
  induction l generalizing s changed with
  | nil =>
    cases h
    rfl
  | cons e rest ih =>
    obtain ⟨n, pred⟩ := e
    obtain ⟨first, later, hfirst, hlater, -⟩ := sweep_cons_eq_ok_iff.1 h
    rw [writesIn_cons_iff hfirst, not_or] at hn
    rw [ih hlater hn.2]
    cases first with
    | none => rfl
    | some u =>
      obtain ⟨r, -, -, rfl⟩ := update_eq_some_iff.1 hfirst
      have ne : name ≠ n := fun e => hn.1 ⟨e.symm, rfl⟩
      exact Table.get?_insert_of_ne ne r

/-- **A pass writes just the names that have other facts after it**, if it gives each name one turn. -/
theorem writesIn_iff_differ (nd : (l.map Prod.fst).Nodup) (h : p.sweep l s = .ok (t, changed)) :
    p.WritesIn name l s ↔ ¬ (s.factsOf name).SameFacts (t.factsOf name) := by
  refine ⟨fun hw => ?_, fun hne => ?_⟩
  · induction l generalizing s changed with
    | nil => exact hw.elim
    | cons e rest ih =>
      obtain ⟨n, pred⟩ := e
      rw [List.map_cons, List.nodup_cons] at nd
      obtain ⟨first, later, hfirst, hlater, -⟩ := sweep_cons_eq_ok_iff.1 h
      rcases (writesIn_cons_iff hfirst).1 hw with ⟨rfl, hsome⟩ | hrest
      · obtain ⟨u, rfl⟩ := Option.isSome_iff_exists.1 hsome
        obtain ⟨r, -, hother, rfl⟩ := update_eq_some_iff.1 hfirst
        -- This was the only turn of the name, so what was written then is still there.
        have hentry : t.get? n = some r :=
          (get?_of_sweep hlater nd.1).trans (Table.get?_insert_self s n r)
        rw [Store.factsOf_of_entry hentry]
        exact hother
      · have ne : name ≠ n := fun e => nd.1 (e ▸ mem_of_writesIn hrest)
        have hsame : Store.factsOf (first.getD s) name = s.factsOf name := by
          cases first with
          | none => rfl
          | some u =>
            obtain ⟨r, -, -, rfl⟩ := update_eq_some_iff.1 hfirst
            exact Store.factsOf_congr (Table.get?_insert_of_ne ne r)
        rw [← hsame]
        exact ih nd.2 hlater hrest
  · by_contra hn
    rw [Store.factsOf_congr (get?_of_not_writesIn h hn)] at hne
    exact hne fun _ => Iff.rfl

theorem writes_iff_differ (h : p.round s = .ok (t, changed)) :
    p.Writes name s ↔ ¬ (s.factsOf name).SameFacts (t.factsOf name) :=
  writesIn_iff_differ p.nodup_predicates h

theorem exists_predicate_of_writes (h : p.Writes name s) : ∃ pred, (name, pred) ∈ p.predicates := by
  obtain ⟨⟨n, pred⟩, hm, rfl⟩ := List.mem_map.1 (mem_of_writesIn h)
  exact ⟨pred, hm⟩

/-- **A round reports a change iff some predicate has other facts after it.** -/
theorem changed_iff_differ (h : p.round s = .ok (t, changed)) : changed = true ↔ p.Differ s t := by
  rw [changed_iff_writesIn h]
  constructor
  · rintro ⟨name, hw⟩
    obtain ⟨pred, hm⟩ := exists_predicate_of_writes hw
    exact ⟨name, pred, hm, (writes_iff_differ h).1 hw⟩
  · rintro ⟨name, pred, hm, hne⟩
    exact ⟨name, (writes_iff_differ h).2 hne⟩

end Pass

/-! ## Entries -/

/-- What writing predicates makes of a store: names of no predicate keep their entries, all entries keep
their places, and behind them come entries of predicates. -/
structure Extends (p : Program α) (s t : Store α) : Prop where
  other : ∀ name, (∀ pred, (name, pred) ∉ p.predicates) → t.get? name = s.get? name
  keys : ∃ new, t.keys = s.keys ++ new ∧ ∀ name ∈ new, ∃ pred, (name, pred) ∈ p.predicates

omit [DecidableEq α] in
theorem Extends.refl (s : Store α) : p.Extends s s :=
  ⟨fun _ _ => rfl, [], (List.append_nil _).symm, List.forall_mem_nil _⟩

omit [DecidableEq α] in
theorem Extends.trans {u : Store α} (hst : p.Extends s t) (htu : p.Extends t u) : p.Extends s u := by
  obtain ⟨new, hnew, hpred⟩ := hst.keys
  obtain ⟨new', hnew', hpred'⟩ := htu.keys
  refine ⟨fun name hn => (htu.other name hn).trans (hst.other name hn), new ++ new', ?_, ?_⟩
  · rw [hnew', hnew, List.append_assoc]
  · intro name hn
    exact (List.mem_append.1 hn).elim (hpred name) (hpred' name)

theorem extends_of_changes (h : p.Changes s t) : p.Extends s t := by
  obtain ⟨name, pred, hm, hu⟩ := h
  obtain ⟨r, -, -, rfl⟩ := update_eq_some_iff.1 hu
  refine ⟨fun n hn => ?_, ?_⟩
  · have ne : n ≠ name := fun e => hn pred (e ▸ hm)
    exact Table.get?_insert_of_ne ne r
  · rw [Table.keys_insert]
    split
    · exact ⟨[], (List.append_nil _).symm, List.forall_mem_nil _⟩
    · exact ⟨[name], rfl, fun n hn => ⟨pred, List.mem_singleton.1 hn ▸ hm⟩⟩

theorem extends_of_reaches (h : p.Reaches s t) : p.Extends s t := by
  induction h with
  | refl => exact .refl s
  | tail _ hc ih => exact ih.trans (extends_of_changes hc)

/-- Under the name of a predicate there is an entry, with facts of the length of the head. -/
def Shaped (p : Program α) (name : String) (s : Store α) : Prop :=
  ∃ pred r, (name, pred) ∈ p.predicates ∧ s.get? name = some r ∧ ∀ f ∈ r, f.length = pred.arity

theorem shaped_of_update {pred : Predicate α} (hm : (name, pred) ∈ p.predicates)
    (h : p.update s name pred = .ok (some t)) : p.Shaped name t := by
  obtain ⟨r, hr, -, rfl⟩ := update_eq_some_iff.1 h
  exact ⟨pred, r, hm, Table.get?_insert_self s name r, fun f hf => ((mem_derive hr).1 hf).length_eq⟩

theorem Shaped.of_changes (hs : p.Shaped name s) (h : p.Changes s t) : p.Shaped name t := by
  obtain ⟨n, pred, hm, hu⟩ := h
  by_cases e : name = n
  · exact e ▸ shaped_of_update hm hu
  · obtain ⟨q, r, hq, hr, hlength⟩ := hs
    obtain ⟨r', -, -, rfl⟩ := update_eq_some_iff.1 hu
    exact ⟨q, r, hq, (Table.get?_insert_of_ne e r').trans hr, hlength⟩

theorem Shaped.of_reaches (hs : p.Shaped name s) (h : p.Reaches s t) : p.Shaped name t := by
  induction h with
  | refl => exact hs
  | tail _ hc ih => exact ih.of_changes hc

theorem shaped_of_writesIn {l : List (String × Predicate α)} (hl : ∀ e ∈ l, e ∈ p.predicates)
    {changed : Bool} (h : p.sweep l s = .ok (t, changed)) (hw : p.WritesIn name l s) :
    p.Shaped name t := by
  induction l generalizing s changed with
  | nil => exact hw.elim
  | cons e rest ih =>
    obtain ⟨n, pred⟩ := e
    obtain ⟨hm, hrest⟩ := List.forall_mem_cons.1 hl
    obtain ⟨first, later, hfirst, hlater, -⟩ := sweep_cons_eq_ok_iff.1 h
    rcases (writesIn_cons_iff hfirst).1 hw with ⟨rfl, hsome⟩ | hw
    · obtain ⟨u, rfl⟩ := Option.isSome_iff_exists.1 hsome
      exact (shaped_of_update hm hfirst).of_reaches (reaches_of_sweep hrest hlater)
    · exact ih hrest hlater hw

/-! ## Terms -/

/-- The term occurs in a declared fact, or in a fact of the seed. -/
def Given (p : Program α) (a : Term α) : Prop :=
  a ∈ p.constants ∨ ∃ name, ∃ f ∈ p.computed.factsOf name, a ∈ f

omit [DecidableEq α] in
/-- What a name is resolved to has given terms, if the store has. -/
theorem given_of_holds (hs : ∀ name, ∀ f ∈ s.factsOf name, ∀ a ∈ f, p.Given a) {f : Fact α}
    (h : (p.view s).Holds name f) : ∀ a ∈ f, p.Given a := by
  obtain ⟨r, hr, hf⟩ := h
  cases hget : s.get? name with
  | some r' =>
    rw [resolve?_of_entry hget] at hr
    cases hr
    exact hs name f (Store.mem_factsOf_iff.2 ⟨r, hget, hf⟩)
  | none =>
    rw [resolve?_of_no_entry hget] at hr
    obtain ⟨node, hnode, hrel⟩ := Option.bind_eq_some_iff.1 hr
    cases node with
    | relation r' =>
      cases hrel
      exact fun a ha => Or.inl (mem_constants_of_relation hnode hf ha)
    | predicate q => cases hrel

/-- **No rule brings in a term of its own.** -/
theorem given_of_changes (hs : ∀ name, ∀ f ∈ s.factsOf name, ∀ a ∈ f, p.Given a)
    (h : p.Changes s t) : ∀ name, ∀ f ∈ t.factsOf name, ∀ a ∈ f, p.Given a := by
  obtain ⟨n, pred, -, ⟨r, hr, hder, -⟩, hother⟩ := exists_of_changes h
  intro name f hf a ha
  by_cases e : name = n
  · subst e
    rw [Store.factsOf_of_entry hr, hder] at hf
    obtain ⟨_, row, hrow, hmem⟩ := hf.mem_row ha
    exact given_of_holds hs hrow a hmem
  · rw [Store.factsOf_congr (hother name e)] at hf
    exact hs name f hf a ha

theorem given_of_reaches (h : p.Reaches p.computed t) :
    ∀ name, ∀ f ∈ t.factsOf name, ∀ a ∈ f, p.Given a := by
  induction h with
  | refl => exact fun name f hf a ha => Or.inr ⟨name, f, hf, ha⟩
  | tail _ hc ih => exact given_of_changes ih hc

/-! ## Whole runs -/

/-- Each snapshot comes out of a round from the one before it, and the first one out of a round from
the store that the run starts with. -/
theorem exists_round_of_getElem? {n k : Nat} (h : (p.run n s).snapshots[k]? = some t) :
    ∃ u changed, (s :: (p.run n s).snapshots)[k]? = some u ∧ p.round u = .ok (t, changed) := by
  induction k generalizing n s with
  | zero =>
    obtain ⟨m, u, changed, -, hu, ⟨-, rfl⟩ | ⟨-, _, e, -⟩⟩ := exists_of_getElem?_run h
    · exact ⟨s, changed, rfl, hu⟩
    · cases e
  | succ k ih =>
    obtain ⟨m, u, _, rfl, hu, ⟨e, -⟩ | ⟨rfl, _, e, h⟩⟩ := exists_of_getElem?_run h
    · cases e
    cases e
    obtain ⟨v, changed, hv, hround⟩ := ih h
    exact ⟨v, changed, by rw [run_of_round hu]; exact hv, hround⟩

/-- Each store of a run is reached from all before it. -/
theorem reaches_of_getElem? {n j k : Nat} {u : Store α} (hjk : j ≤ k)
    (hu : (s :: (p.run n s).snapshots)[j]? = some u) (ht : (p.run n s).snapshots[k]? = some t) :
    p.Reaches u t := by
  have hall : (s :: (p.run n s).snapshots).Pairwise p.Reaches :=
    .cons (fun _ hv => reaches_of_mem_run hv) (run_pairwise n s)
  obtain ⟨hj, rfl⟩ := List.getElem?_eq_some_iff.1 hu
  obtain ⟨hk, rfl⟩ := List.getElem?_eq_some_iff.1 ht
  exact List.pairwise_iff_getElem.1 hall j (k + 1) hj (Nat.succ_lt_succ hk) (Nat.lt_succ_of_le hjk)

/-- One of the rounds up to the `k`-th snapshot has written an entry under the name. -/
def WrittenBy (p : Program α) (cap : Cap) (k : Nat) (name : String) : Prop :=
  ∃ j ≤ k, ∃ s, (p.computed :: (p.rounds cap none).1)[j]? = some s ∧ p.Writes name s

theorem entry_of_written {cap : Cap} {k : Nat} (h : (p.rounds cap none).1[k]? = some t) :
    (¬ p.WrittenBy cap k name → t.get? name = p.computed.get? name) ∧
      (p.WrittenBy cap k name → p.Shaped name t) := by
  induction k generalizing t with
  | zero =>
    obtain ⟨u, changed, hu, hround⟩ := exists_round_of_getElem? h
    cases hu
    refine ⟨fun hn => get?_of_not_writesIn hround fun hw => hn ⟨0, Nat.le_refl 0, _, rfl, hw⟩, ?_⟩
    rintro ⟨j, hj, u, hu, hw⟩
    cases Nat.le_zero.1 hj
    cases hu
    exact shaped_of_writesIn (fun _ he => he) hround hw
  | succ k ih =>
    obtain ⟨u, changed, hu, hround⟩ := exists_round_of_getElem? h
    obtain ⟨hkeep, hshaped⟩ := ih hu
    refine ⟨fun hn => ?_, ?_⟩
    · have hu' : ¬ p.WrittenBy cap k name := by
        rintro ⟨j, hj, v, hv, hw⟩
        exact hn ⟨j, Nat.le_succ_of_le hj, v, hv, hw⟩
      have hw : ¬ p.Writes name u := fun hw => hn ⟨k + 1, Nat.le_refl _, u, hu, hw⟩
      exact (get?_of_not_writesIn hround hw).trans (hkeep hu')
    · rintro ⟨j, hj, v, hv, hw⟩
      rcases Nat.le_succ_iff.1 hj with hj | rfl
      · exact (hshaped ⟨j, hj, v, hv, hw⟩).of_reaches (reaches_of_round hround)
      · cases hu.symm.trans hv
        exact shaped_of_writesIn (fun _ he => he) hround hw

/-- **What a run does to its store.** Take any snapshot of a run. From the seed and from each snapshot
before it, names of no predicate have kept their entries, and entries of predicates have come behind the
others. A name under which no round has written has the entry of the seed. Where one has, there is an
entry without duplicates, its facts are as long as the head of the predicate, and each of their terms
occurs in a declared fact or in the seed. So with ground facts and a ground seed all entries are ground. -/
theorem entries_of_rounds (p : Program α) (cap : Cap) (k : Nat) (t : Store α)
    (h : (p.rounds cap none).1[k]? = some t) :
    (∀ j ≤ k, ∀ s, (p.computed :: (p.rounds cap none).1)[j]? = some s → p.Extends s t) ∧
      (∀ name, ¬ p.WrittenBy cap k name → t.get? name = p.computed.get? name) ∧
      (∀ name, p.WrittenBy cap k name → ∃ pred r, (name, pred) ∈ p.predicates ∧
        t.get? name = some r ∧ r.facts.Nodup ∧
          ∀ f ∈ r, f.length = pred.arity ∧ ∀ a ∈ f, p.Given a) ∧
      ((∀ a, p.Given a → a.var? = none) → ∀ name, ∀ f ∈ t.factsOf name, Term.Ground f) := by
  have hgiven := given_of_reaches (reaches_of_mem_run (List.mem_of_getElem? h))
  refine ⟨fun j hj s hs => extends_of_reaches (reaches_of_getElem? hj hs h),
    fun name => (entry_of_written h).1, fun name hw => ?_,
    fun hground name f hf a ha => hground a (hgiven name f hf a ha)⟩
  obtain ⟨pred, r, hm, hr, hlength⟩ := (entry_of_written h).2 hw
  have hfacts : t.factsOf name = r := Store.factsOf_of_entry hr
  exact ⟨pred, r, hm, hr, r.nodup, fun f hf => ⟨hlength f hf, hgiven name f (hfacts ▸ hf)⟩⟩

/-- The seed hides a declared relation and has an entry for a predicate; the other predicate gets its
entry in the first round. -/
theorem entries_of_rounds_rivals :
    ∃ t : Store, (Evaluator.rivals.rounds .standard none).1[1]? = some t ∧
      t.keys = Evaluator.rivals.computed.keys ++ ["in"] ∧
      Evaluator.rivals.Extends Evaluator.rivals.computed t ∧
      Evaluator.rivals.WrittenBy .standard 1 "in" ∧
      (∃ pred r, ("in", pred) ∈ Evaluator.rivals.predicates ∧ t.get? "in" = some r ∧ r.facts.Nodup ∧
        ∀ f ∈ r, f.length = pred.arity ∧ ∀ a ∈ f, Evaluator.rivals.Given a) ∧
      ∀ name, ∀ f ∈ t.factsOf name, Term.Ground f := by
  have hwritten : Evaluator.rivals.WrittenBy .standard 1 "in" :=
    ⟨0, Nat.zero_le 1, _, rfl, _, rfl, .inl ⟨rfl, rfl⟩⟩
  have hground : ∀ a, Evaluator.rivals.Given a → a.var? = none := by
    rintro a (ha | ⟨name, f, hf, ha⟩)
    · have hconstants : ∀ a ∈ Evaluator.rivals.constants, a.var? = none := by decide
      exact hconstants a ha
    · have hseed : ∀ name, ∀ f ∈ Evaluator.rivals.computed.factsOf name, Term.Ground f :=
        Store.forall_factsOf (by decide)
      exact hseed name f hf a ha
  obtain ⟨hextends, -, hentries, hall⟩ := entries_of_rounds Evaluator.rivals .standard 1 _ rfl
  exact ⟨_, rfl, by decide, hextends 0 (Nat.zero_le 1) _ rfl, hwritten, hentries "in" hwritten,
    hall hground⟩

end Program

end Verdict

import Verdict.Proofs.Evaluation.Confluence

/-!
# Warm starts

A semi-positive program may be evaluated from a store that has facts already, such as an earlier result.
That store need not grow: every predicate is recomputed from scratch, so a fact that was put there
disappears until it is derived again. But rounds are monotone in the store they start from
(`leOn_of_round`), and a run from a store inside the least model stays between the run from the
empty store and the least model, so it settles no later (`settled_of_between`).

Facts that cannot be derived may support one another, and then they stay: a result is bounded by what
follows from them (`warm_start`, `circular_route`).
-/

namespace Verdict

variable {α : Type}

namespace Program

/-- The facts that every closed assignment has that has those of the seed. -/
def leastModelOver (p : Program α) (seed : Store α) : Interpretation α :=
  fun name f => ∀ S, p.Closed S → (∀ n, ∀ g ∈ seed.factsOf n, S n g) → S name f

variable {p : Program α} [DecidableEq α] {K : String → Prop}

/-! ## Two stores side by side -/

/-- What comes out of an update: the facts that were derived, and the others as they were. -/
theorem factsOf_of_update {s : Store α} {name : String} {pred : Predicate α} {o : Option (Store α)}
    (h : p.update s name pred = .ok o) :
    (∀ f, f ∈ (o.getD s).factsOf name ↔ pred.Derives (p.view s) f) ∧
      ∀ other, other ≠ name → (o.getD s).factsOf other = s.factsOf other := by
  cases o with
  | none =>
    obtain ⟨r, hr, same⟩ := update_eq_none_iff.1 h
    exact ⟨fun f => (same f).trans (mem_derive hr), fun _ _ => rfl⟩
  | some t =>
    obtain ⟨r, hr, _, rfl⟩ := update_eq_some_iff.1 h
    refine ⟨fun f => ?_, fun other ho => Store.factsOf_congr (Table.get?_insert_of_ne ho r)⟩
    rw [Option.getD_some, Store.factsOf_of_entry (Table.get?_insert_self s name r)]
    exact mem_derive hr

theorem Covers.of_update {s : Store α} (hs : p.Covers s) {name : String} {pred : Predicate α}
    (hm : (name, pred) ∈ p.predicates) {o : Option (Store α)} (h : p.update s name pred = .ok o) :
    p.Covers (o.getD s) := by
  cases o with
  | none => exact hs
  | some t => exact hs.of_changes ⟨name, pred, hm, h⟩

theorem leOn_of_update (hK : p.MonotoneOn K) {s t : Store α} (hs : p.Covers s) (ht : p.Covers t)
    (hst : s.interpretation.LeOn K t.interpretation) {name : String} {pred : Predicate α}
    (hm : (name, pred) ∈ p.predicates) {o o' : Option (Store α)} (h : p.update s name pred = .ok o)
    (h' : p.update t name pred = .ok o') :
    (o.getD s).interpretation.LeOn K (o'.getD t).interpretation := by
  obtain ⟨hder, hother⟩ := factsOf_of_update h
  obtain ⟨hder', hother'⟩ := factsOf_of_update h'
  intro n hn f hf
  unfold Store.interpretation at hf ⊢
  by_cases e : n = name
  · subst e
    rw [hder] at hf
    rw [hder']
    exact hK.derives hm hn hs.reads ht.reads hst hf
  · rw [hother n e] at hf
    rw [hother' n e]
    exact hst n hn f hf

theorem leOn_of_sweep (hK : p.MonotoneOn K) {l : List (String × Predicate α)}
    (hl : ∀ e ∈ l, e ∈ p.predicates) {s t s' t' : Store α} {b b' : Bool} (hs : p.Covers s)
    (ht : p.Covers t) (hst : s.interpretation.LeOn K t.interpretation)
    (h : p.sweep l s = .ok (s', b)) (h' : p.sweep l t = .ok (t', b')) :
    s'.interpretation.LeOn K t'.interpretation := by
  induction l generalizing s t b b' with
  | nil =>
    cases h
    cases h'
    exact hst
  | cons e rest ih =>
    obtain ⟨name, pred⟩ := e
    obtain ⟨hm, hrest⟩ := List.forall_mem_cons.1 hl
    obtain ⟨o, _, ho, h, -⟩ := sweep_cons_eq_ok_iff.1 h
    obtain ⟨o', _, ho', h', -⟩ := sweep_cons_eq_ok_iff.1 h'
    exact ih hrest (hs.of_update hm ho) (ht.of_update hm ho')
      (leOn_of_update hK hs ht hst hm ho ho') h h'

/-- **A round from more facts leads to more facts.** -/
theorem leOn_of_round (hK : p.MonotoneOn K) {s t s' t' : Store α} {b b' : Bool} (hs : p.Covers s)
    (ht : p.Covers t) (hst : s.interpretation.LeOn K t.interpretation)
    (h : p.round s = .ok (s', b)) (h' : p.round t = .ok (t', b')) :
    s'.interpretation.LeOn K t'.interpretation :=
  leOn_of_sweep hK (fun _ he => he) hs ht hst h h'

end Program

/-! ## Between the empty store and the least model -/

namespace Program

variable {p : Program} {arity : String → Nat}

/-- A store with the facts of a settled one is settled, though it may have other entries without facts. -/
theorem settled_of_leOn (hp : p.SemiPositive) (harity : p.FitsArities arity) {s t : Store}
    (hs : p.Covers s) (ht : p.Covers t) (hfits : t.Fits arity)
    (hst : s.interpretation.LeOn (fun _ => True) t.interpretation)
    (hts : t.interpretation.LeOn (fun _ => True) s.interpretation) (h : p.Settled s) :
    p.Settled t := by
  intro name pred hm
  obtain ⟨r, hr⟩ := harity.exists_derive hfits hm
  refine update_eq_none_iff.2 ⟨r, hr, fun f => ?_⟩
  have le := hp.monotoneOn.derives hm trivial hs.reads ht.reads hst (f := f)
  have ge := hp.monotoneOn.derives hm trivial ht.reads hs.reads hts (f := f)
  calc f ∈ t.factsOf name ↔ f ∈ s.factsOf name := ⟨hts name trivial f, hst name trivial f⟩
    _ ↔ pred.Derives (p.view s) f := h.mem_factsOf hm
    _ ↔ pred.Derives (p.view t) f := ⟨le, ge⟩
    _ ↔ f ∈ r := (mem_derive hr).symm

/-- **Between a store that settles and the least model a store settles no later.** -/
theorem settled_of_between (hp : p.SemiPositive) (harity : p.FitsArities arity) {n : Nat} {s t : Store}
    (hs : p.Covers s) (ht : p.Covers t) (hfits : t.Fits arity)
    (hst : s.interpretation.LeOn (fun _ => True) t.interpretation)
    (hmodel : t.interpretation.LeOn (fun _ => True) p.leastModel)
    (h : (p.run n s).ending = .settled) :
    (p.run n t).ending = .settled ∧
      (p.run n t).snapshots.length ≤ (p.run n s).snapshots.length := by
  have hK := hp.monotoneOn
  induction n generalizing s t with
  | zero => cases h
  | succ n ih =>
    obtain ⟨t', changed, ht'⟩ := harity.exists_round hfits
    rw [run] at h
    rw [run, run, ht']
    split at h
    · cases h
    · next s' hs' =>
      cases changed with
      | false => exact ⟨rfl, Nat.succ_le_succ (Nat.zero_le _)⟩
      | true =>
        have hreach := reaches_of_round ht'
        have hclosed := closedOn_iff_closed.2 (closed_leastModel hp)
        obtain ⟨hend, hle⟩ := ih (hs.of_reaches (reaches_of_round hs')) (ht.of_reaches hreach)
          (harity.fits_of_reaches hfits hreach) (leOn_of_round hK hs ht hst hs' ht')
          (below_of_reaches hK hclosed ht hmodel hreach) h
        exact ⟨hend, Nat.succ_le_succ hle⟩
    · next s' hs' =>
      -- Nothing changes in `s`, so it is closed, and what lies in the least model lies in `s`.
      obtain ⟨rfl, hsettled⟩ := settled_of_round hs'
      have hclosed := closedOn_iff_closed.1 (closedOn_of_settled hK hs hsettled)
      have hts : t.interpretation.LeOn (fun _ => True) s'.interpretation :=
        fun name hn f hf => hmodel name hn f hf _ hclosed
      have htsettled := settled_of_leOn hp harity hs ht hfits hst hts hsettled
      rw [round_of_settled htsettled] at ht'
      cases ht'
      exact ⟨rfl, Nat.le_refl 1⟩

/-- **Evaluation from a store with facts.** A result has the facts of the least model, and no others
than follow from those of the seed. From a seed inside the least model evaluation comes to rest, and its
result is the least model; it takes no more rounds than from the empty store, under each cap under
which that one is evaluated. -/
theorem warm_start (p : Program) (hp : p.SemiPositive) {arity : String → Nat}
    (harity : p.FitsArities arity) {seed : Store} (hcovers : p.Covers seed) (hfits : seed.Fits arity) :
    (∀ (e : Evaluator) (q : Program), (e.evaluate (p.withComputed seed)).1 = .ok q → ∀ name f,
        (p.leastModel name f → f ∈ q.computed.factsOf name) ∧
          (f ∈ q.computed.factsOf name → p.leastModelOver seed name f)) ∧
      ((∀ name, ∀ f ∈ seed.factsOf name, p.leastModel name f) →
        (∃ m, ∀ e : Evaluator, m ≤ e.cap.rounds →
          ∃ q e', e.evaluate (p.withComputed seed) = (.ok q, e')) ∧
        (∀ (e : Evaluator) (q : Program), (e.evaluate (p.withComputed seed)).1 = .ok q → ∀ name f,
          f ∈ q.computed.factsOf name ↔ p.leastModel name f) ∧
        ∀ (e e₀ : Evaluator) (q₀ : Program), e.evaluate (p.withComputed ∅) = (.ok q₀, e₀) →
          ∃ q e', e.evaluate (p.withComputed seed) = (.ok q, e') ∧ e'.roundsRun ≤ e₀.roundsRun) := by
  have hK := hp.monotoneOn
  have bounds (e : Evaluator) (q : Program) (hq : (e.evaluate (p.withComputed seed)).1 = .ok q)
      (name : String) (f : Fact) : (p.leastModel name f → f ∈ q.computed.factsOf name) ∧
        (f ∈ q.computed.factsOf name → p.leastModelOver seed name f) := by
    obtain ⟨t, rfl, hreach, hsettled⟩ := exists_of_evaluate hq
    have hK' : (p.withComputed seed).MonotoneOn fun _ => True := hK
    have hcovers' : (p.withComputed seed).Covers seed := hcovers
    refine ⟨fun hf => hf t.interpretation ?_, fun hf S hS hseed => ?_⟩
    · exact closedOn_iff_closed.1 (closedOn_of_settled hK' (hcovers'.of_reaches hreach) hsettled)
    · exact below_of_reaches hK' (closedOn_iff_closed.2 hS) hcovers' (fun n _ => hseed n) hreach
        name trivial f hf
  refine ⟨bounds, fun hseed => ?_⟩
  -- The run from the seed settles where the run from the empty store does.
  have squeeze {n : Nat} (h : (p.run n ∅).ending = .settled) :=
    settled_of_between hp harity covers_empty hcovers hfits (leOn_empty _ _)
      (fun name _ => hseed name) h
  have settles {n : Nat} (h : (p.run n ∅).ending = .settled) {e : Evaluator} (he : n ≤ e.cap.rounds) :
      ∃ q, e.evaluate (p.withComputed seed) =
        (.ok q, { e with roundsRun := (p.run n seed).snapshots.length }) := by
    rw [← run_withComputed n seed seed]
    refine evaluate_of_run_settled ?_ he
    rw [run_withComputed]
    exact (squeeze h).1
  refine ⟨?_, fun e q hq name f => ?_, fun e e₀ q₀ h₀ => ?_⟩
  · obtain ⟨m, hm⟩ := hp.exists_cap
    have hend := harity.settled_of_ne_capReached (Store.fits_empty arity) (hm m (Nat.le_refl m))
    refine ⟨m, fun e he => ?_⟩
    obtain ⟨q, hq⟩ := settles hend he
    exact ⟨q, _, hq⟩
  · obtain ⟨le, ge⟩ := bounds e q hq name f
    exact ⟨fun hf => ge hf _ (closed_leastModel hp) hseed, le⟩
  · obtain ⟨hend, hrounds⟩ := settled_of_evaluate h₀
    rw [run_withComputed] at hend hrounds
    obtain ⟨q, hq⟩ := settles hend (Nat.le_refl _)
    exact ⟨q, _, hq, hrounds ▸ (squeeze hend).2⟩

theorem covers_of_entries {s : Store} (h : ∀ e ∈ s.entries, e.1 ∈ p.predicates.map Prod.fst) :
    p.Covers s := by
  intro name r hr
  obtain ⟨⟨_, pred⟩, hm, rfl⟩ := List.mem_map.1 (h (name, r) (Table.get?_eq_some_iff.1 hr))
  exact ⟨pred, mem_predicates_iff.1 hm⟩

/-- The store of an evaluation that has come across one route only. -/
def oneRoute (x y : String) : Store :=
  .ofList [("route", .ofRows [[.text x, .text y]])]

/-- The route from b to c is no longer there after the first round, but it comes back. -/
theorem warm_start_openRoutes :
    openRoutes.SemiPositive ∧ openRoutes.Covers (oneRoute "b" "c") ∧
      (∀ name, ∀ f ∈ (oneRoute "b" "c").factsOf name, openRoutes.leastModel name f) ∧
      ∃ q e', ({} : Evaluator).evaluate (openRoutes.withComputed (oneRoute "b" "c")) = (.ok q, e') ∧
        e'.roundsRun ≤ 4 ∧ ∀ name f, f ∈ q.computed.factsOf name ↔ openRoutes.leastModel name f := by
  have hp : openRoutes.SemiPositive := by decide
  have harity : openRoutes.FitsArities fun name => if name = "loop" then 1 else 2 := by decide
  have hcovers : openRoutes.Covers (oneRoute "b" "c") := covers_of_entries (by decide)
  have hfits : (oneRoute "b" "c").Fits fun name => if name = "loop" then 1 else 2 :=
    Store.forall_factsOf (by decide)
  obtain ⟨q₀, hq₀, hroute⟩ : ∃ q, (({} : Evaluator).evaluate openRoutes).1 = .ok q ∧
      [.text "b", .text "c"] ∈ q.computed.factsOf "route" := ⟨_, rfl, by decide⟩
  have hseed : ∀ name, ∀ f ∈ (oneRoute "b" "c").factsOf name, openRoutes.leastModel name f := by
    refine Store.forall_factsOf fun e he f hf => ?_
    cases List.mem_singleton.1 he
    cases List.mem_singleton.1 hf
    exact (mem_computed_iff_leastModel hp rfl hq₀).1 hroute
  obtain ⟨-, hinside⟩ := warm_start openRoutes hp harity hcovers hfits
  obtain ⟨-, hexact, hrounds⟩ := hinside hseed
  obtain ⟨q, e', hq, hle⟩ := hrounds {} { roundsRun := 4 } _ rfl
  exact ⟨hp, hcovers, hseed, q, e', hq, hle, hexact {} q (congrArg Prod.fst hq)⟩

/-- A route from c to a cannot be derived, but there is a road from c to c in front of it. -/
theorem circular_route :
    ¬ openRoutes.leastModel "route" [.text "c", .text "a"] ∧
      ∃ q, (({} : Evaluator).evaluate (openRoutes.withComputed (oneRoute "c" "a"))).1 = .ok q ∧
        [.text "c", .text "a"] ∈ q.computed.factsOf "route" := by
  refine ⟨fun h => ?_, _, rfl, by decide⟩
  have h := (mem_computed_iff_leastModel (e := {}) (by decide) rfl rfl).2 h
  exact absurd h (by decide)

end Program

end Verdict

import Verdict.Proofs.Evaluation.Base
import Verdict.Proofs.Evaluation.Dependency
import Mathlib.Order.CompletePartialOrder

/-!
# Convergence

Why a run comes to rest. A set of predicates is *steady* in a store if recomputing them changes
nothing. A steady set that uses no predicate outside itself stays as it is whatever the others do
(`SteadyOn.of_reaches`), and one round makes everything steady that uses nothing but steady predicates
(`SteadyOn.of_round`).

So a run has two phases. As long as the monotone part is not steady, each round adds a fact to it
(`grows_of_sweep`), and there are finitely many to add. From then on the rest follows level by level, if
it has levels: if each of its predicates is deeper than what it uses. The run then ends within
as many rounds as there are facts and levels, and one more to see it (`ending_ne_capReached`).
-/

namespace Verdict

variable {α : Type}

/-- The facts that a store holds for the names of `K`. -/
def Store.factsIn (s : Store α) (K : String → Prop) : Set (String × Fact α) :=
  {x | K x.1 ∧ x.2 ∈ s.factsOf x.1}

namespace Program

/-- What predicates of `K` use of other predicates lies in `L`. -/
def UsesWithin (p : Program α) (K L : String → Prop) : Prop :=
  ∀ a b, K a → p.Uses a b → (∃ q, (b, q) ∈ p.predicates) → L b

variable {p : Program α}

theorem MonotoneOn.usesWithin {K : String → Prop} (h : p.MonotoneOn K) : p.UsesWithin K K := by
  rintro a _ ha ⟨pred, hm, rule, hr, c, hc, rfl⟩ ⟨q, hq⟩
  obtain ⟨hneg, hpos⟩ := h a pred hm ha rule hr c hc
  have hq := mem_predicates_iff.1 hq
  cases hn : c.negated with
  | true =>
    obtain ⟨r, hr⟩ := hneg hn
    rw [hq] at hr
    cases hr
  | false => exact hpos hn q hq

theorem nodup_predicates (p : Program α) : (p.predicates.map Prod.fst).Nodup := by
  have h := p.nodes.nodup_keys
  rw [List.Nodup, List.pairwise_map] at h ⊢
  refine List.pairwise_filterMap.2 (h.imp fun {e e'} ne x hx y hy => ?_)
  obtain ⟨q, _, rfl⟩ := Option.map_eq_some_iff.1 hx
  obtain ⟨q', _, rfl⟩ := Option.map_eq_some_iff.1 hy
  exact ne

variable [DecidableEq α]

/-- Recomputing the predicates of `K` changes nothing. -/
def SteadyOn (p : Program α) (K : String → Prop) (s : Store α) : Prop :=
  ∀ name pred, (name, pred) ∈ p.predicates → K name → p.update s name pred = .ok none

/-! ## What is steady stays so -/

/-- Stores with the same entries for what a predicate uses of other predicates are the same to it. -/
theorem derive_of_agree {K L : String → Prop} (hKL : p.UsesWithin K L) {s t : Store α}
    (hs : p.Covers s) (ht : p.Covers t) (hst : ∀ b, L b → s.get? b = t.get? b) {name : String}
    {pred : Predicate α} (hm : (name, pred) ∈ p.predicates) (hn : K name) :
    p.derive s pred = p.derive t pred := by
  refine derive_congr fun rule hr c hc => ?_
  have huses : p.Uses name c.relation := ⟨pred, hm, rule, hr, c, hc, rfl⟩
  by_cases hq : ∃ q, (c.relation, q) ∈ p.predicates
  · rw [resolve?, resolve?, hst _ (hKL name _ hn huses hq)]
  · -- Neither store has an entry for a name that is no predicate.
    have absent {u : Store α} (hu : p.Covers u) : u.get? c.relation = none := by
      cases hget : u.get? c.relation with
      | none => rfl
      | some r =>
        obtain ⟨q, hq'⟩ := hu _ r hget
        exact (hq ⟨q, mem_predicates_iff.2 hq'⟩).elim
    rw [resolve?_of_no_entry (absent hs), resolve?_of_no_entry (absent ht)]

theorem update_of_agree {K L : String → Prop} (hKL : p.UsesWithin K L) {s t : Store α}
    (hs : p.Covers s) (ht : p.Covers t) (hst : ∀ b, L b → s.get? b = t.get? b) {name : String}
    {pred : Predicate α} (hm : (name, pred) ∈ p.predicates) (hn : K name)
    (hname : s.get? name = t.get? name) (h : p.update s name pred = .ok none) :
    p.update t name pred = .ok none := by
  rw [update_eq_none_iff] at h ⊢
  rw [← derive_of_agree hKL hs ht hst hm hn, ← Store.factsOf_congr hname]
  exact h

theorem SteadyOn.of_changes {K : String → Prop} (hK : p.UsesWithin K K) {s t : Store α}
    (hs : p.Covers s) (h : p.SteadyOn K s) (hst : p.Changes s t) :
    p.SteadyOn K t ∧ ∀ b, K b → s.get? b = t.get? b := by
  have ht := hs.of_changes hst
  obtain ⟨name, pred, hm, hu⟩ := hst
  obtain ⟨r, _, _, rfl⟩ := update_eq_some_iff.1 hu
  have same : ∀ b, K b → s.get? b = (s.insert name r).get? b := by
    intro b hb
    refine (Table.get?_insert_of_ne ?_ r).symm
    rintro rfl
    rw [h b pred hm hb] at hu
    cases hu
  refine ⟨fun n q hq hn => ?_, same⟩
  exact update_of_agree hK hs ht same hq hn (same n hn) (h n q hq hn)

/-- **A steady set that uses nothing else keeps its facts.** -/
theorem SteadyOn.of_reaches {K : String → Prop} (hK : p.UsesWithin K K) {s t : Store α}
    (hs : p.Covers s) (h : p.SteadyOn K s) (hst : p.Reaches s t) :
    p.SteadyOn K t ∧ ∀ b, K b → s.get? b = t.get? b := by
  induction hst with
  | refl => exact ⟨h, fun _ _ => rfl⟩
  | tail hreach hc ih =>
    obtain ⟨hu, same⟩ := ih
    obtain ⟨ht, same'⟩ := hu.of_changes hK (hs.of_reaches hreach) hc
    exact ⟨ht, fun b hb => (same b hb).trans (same' b hb)⟩

/-! ## One round further -/

theorem get?_of_sweep {l : List (String × Predicate α)} {s t : Store α} {changed : Bool}
    (h : p.sweep l s = .ok (t, changed)) {name : String} (hn : name ∉ l.map Prod.fst) :
    t.get? name = s.get? name := by
  induction l generalizing s changed with
  | nil => cases h; rfl
  | cons e rest ih =>
    obtain ⟨n, pred⟩ := e
    rw [List.map_cons, List.mem_cons, not_or] at hn
    obtain ⟨first, _, hfirst, hr, -⟩ := sweep_cons_eq_ok_iff.1 h
    cases first with
    | none => exact ih hr hn.2
    | some u =>
      obtain ⟨r, _, _, rfl⟩ := update_eq_some_iff.1 hfirst
      exact (ih hr hn.2).trans (Table.get?_insert_of_ne hn.1 r)

theorem SteadyOn.of_sweep {K L : String → Prop} (hK : p.UsesWithin K K) (hL : p.UsesWithin L K)
    {l : List (String × Predicate α)} (hl : ∀ e ∈ l, e ∈ p.predicates)
    (nd : (l.map Prod.fst).Nodup) {s t : Store α} {changed : Bool} (hs : p.Covers s)
    (h : p.SteadyOn K s) (hst : p.sweep l s = .ok (t, changed)) :
    ∀ name pred, (name, pred) ∈ l → L name → p.update t name pred = .ok none := by
  induction l generalizing s changed with
  | nil => intro _ _ hm; cases hm
  | cons e rest ih =>
    obtain ⟨n, q⟩ := e
    obtain ⟨hq, hrest⟩ := List.forall_mem_cons.1 hl
    rw [List.map_cons, List.nodup_cons] at nd
    have hreach := reaches_of_sweep hl hst
    have hkeep := (h.of_reaches hK hs hreach).2
    have ht := hs.of_reaches hreach
    obtain ⟨first, _, hfirst, hut, -⟩ := sweep_cons_eq_ok_iff.1 hst
    intro name pred hm hn
    cases first with
    | none =>
      rcases List.mem_cons.1 hm with e | hm
      · cases e
        have hname := get?_of_sweep hut nd.1
        exact update_of_agree hL hs ht hkeep hq hn hname.symm hfirst
      · exact ih hrest nd.2 hs h hut name pred hm hn
    | some u =>
      have hsu : p.Changes s u := ⟨n, q, hq, hfirst⟩
      rcases List.mem_cons.1 hm with e | hm
      · cases e
        -- What was written is what would be computed from `t` too, and nobody has touched it since.
        obtain ⟨r, hr, _, rfl⟩ := update_eq_some_iff.1 hfirst
        have hname := (get?_of_sweep hut nd.1).trans (Table.get?_insert_self s n r)
        refine update_eq_none_iff.2 ⟨r, ?_, fun f => by rw [Store.factsOf_of_entry hname]⟩
        rw [← derive_of_agree hL hs ht hkeep hq hn]
        exact hr
      · exact ih hrest nd.2 (hs.of_changes hsu) (h.of_changes hK hs hsu).1 hut name pred hm hn

/-- **One round makes steady whatever uses only what is steady.** -/
theorem SteadyOn.of_round {K L : String → Prop} (hK : p.UsesWithin K K) (hL : p.UsesWithin L K)
    {s t : Store α} {changed : Bool} (hs : p.Covers s) (h : p.SteadyOn K s)
    (hst : p.round s = .ok (t, changed)) : p.SteadyOn L t := by
  intro name pred hm hn
  exact h.of_sweep hK hL (fun _ he => he) p.nodup_predicates hs hst name pred hm hn

/-! ## Growth in every round -/

theorem Growing.factsIn_subset {K : String → Prop} (hK : p.MonotoneOn K) {s t : Store α}
    (hs : p.Growing K s) (h : p.Reaches s t) : s.factsIn K ⊆ t.factsIn K :=
  fun x hx => ⟨hx.1, (hs.of_reaches hK h).2 x.1 hx.1 x.2 hx.2⟩

theorem Growing.factsIn_ssubset {K : String → Prop} (hK : p.MonotoneOn K) {s u : Store α}
    (hs : p.Growing K s) {name : String} {pred : Predicate α} (hm : (name, pred) ∈ p.predicates)
    (hn : K name) (h : p.update s name pred = .ok (some u)) : s.factsIn K ⊂ u.factsIn K := by
  have hsu := hs.factsIn_subset hK (.single ⟨name, pred, hm, h⟩)
  refine ⟨hsu, fun hus => ?_⟩
  obtain ⟨r, _, hne, rfl⟩ := update_eq_some_iff.1 h
  have hr : Store.factsOf (s.insert name r) name = r :=
    Store.factsOf_of_entry (Table.get?_insert_self s name r)
  refine hne fun f => ⟨fun hf => ?_, fun hf => ?_⟩
  · have := (hsu (show (name, f) ∈ s.factsIn K from ⟨hn, hf⟩)).2
    rw [hr] at this
    exact this
  · rw [← hr] at hf
    exact (hus (show (name, f) ∈ Store.factsIn (s.insert name r) K from ⟨hn, hf⟩)).2

/-- **A pass adds a fact to the monotone part unless that is steady.** -/
theorem grows_of_sweep {K : String → Prop} (hK : p.MonotoneOn K) {l : List (String × Predicate α)}
    (hl : ∀ e ∈ l, e ∈ p.predicates) {s t : Store α} {changed : Bool} (hs : p.Growing K s)
    (h : p.sweep l s = .ok (t, changed)) :
    s.factsIn K ⊂ t.factsIn K ∨
      ∀ name pred, (name, pred) ∈ l → K name → p.update s name pred = .ok none := by
  induction l generalizing s changed with
  | nil => exact Or.inr fun _ _ hm => nomatch hm
  | cons e rest ih =>
    obtain ⟨n, q⟩ := e
    obtain ⟨hq, hrest⟩ := List.forall_mem_cons.1 hl
    obtain ⟨first, _, hfirst, hut, -⟩ := sweep_cons_eq_ok_iff.1 h
    cases first with
    | none =>
      refine (ih hrest hs hut).imp id fun hsteady name pred hm hn => ?_
      rcases List.mem_cons.1 hm with e | hm
      · cases e
        exact hfirst
      · exact hsteady name pred hm hn
    | some u =>
      have hsu : p.Changes s u := ⟨n, q, hq, hfirst⟩
      have hu := (hs.of_changes hK hsu).1
      by_cases hn : K n
      · exact Or.inl ((hs.factsIn_ssubset hK hq hn hfirst).trans_subset
          (hu.factsIn_subset hK (reaches_of_sweep hrest hut)))
      -- A change outside the monotone part is not seen inside it.
      · obtain ⟨r, _, _, rfl⟩ := update_eq_some_iff.1 hfirst
        have same : ∀ b, K b → (s.insert n r).get? b = s.get? b := by
          intro b hb
          refine Table.get?_insert_of_ne ?_ r
          rintro rfl
          exact hn hb
        refine (ih hrest hu hut).imp
          (fun hlt => (hs.factsIn_subset hK (.single hsu)).trans_ssubset hlt)
          fun hsteady name pred hm hname => ?_
        rcases List.mem_cons.1 hm with e | hm
        · cases e
          exact (hn hname).elim
        · exact update_of_agree hK.usesWithin hu.covers hs.covers same (hrest _ hm) hname
            (same name hname) (hsteady name pred hm hname)

/-! ## Whole runs -/

/-- A run is within its cap if it is so after the first round, should that have changed something. -/
theorem ending_succ_ne_capReached {n : Nat} {s : Store α}
    (h : ∀ t, p.round s = .ok (t, true) → (p.run n t).ending ≠ .capReached) :
    (p.run (n + 1) s).ending ≠ .capReached := by
  rw [run]
  split
  · intro e
    cases e
  · next t ht => exact h t ht
  · intro e
    cases e

/-- The names of `K` and those of less than the given depth. -/
def layer (K : String → Prop) (d : String → Nat) (k : Nat) (name : String) : Prop :=
  K name ∨ d name < k

variable {K : String → Prop} {d : String → Nat} {D : Nat}

omit [DecidableEq α] in
/-- If outside of `K` what is used lies deeper than its user, then a layer uses the one below. -/
theorem usesWithin_layer (hK : p.MonotoneOn K)
    (hd : ∀ a b, p.Uses a b → (∃ q, (b, q) ∈ p.predicates) → ¬ K b → d b < d a) (k : Nat) :
    p.UsesWithin (layer K d (k + 1)) (layer K d k) ∧ p.UsesWithin (layer K d k) (layer K d k) := by
  have step (j : Nat) (hj : j ≤ k + 1) : p.UsesWithin (layer K d j) (layer K d k) := by
    intro a b ha hab hb
    by_cases hKb : K b
    · exact Or.inl hKb
    · rcases ha with ha | ha
      · exact Or.inl (hK.usesWithin a b ha hab hb)
      · have := hd a b hab hb hKb
        exact Or.inr (by omega)
  exact ⟨step (k + 1) (Nat.le_refl _), step k (Nat.le_succ k)⟩

theorem ending_ne_capReached_of_steadyOn (hK : p.MonotoneOn K)
    (hd : ∀ a b, p.Uses a b → (∃ q, (b, q) ∈ p.predicates) → ¬ K b → d b < d a)
    (hD : ∀ name pred, (name, pred) ∈ p.predicates → layer K d D name) {s : Store α}
    (hs : p.Covers s) {k j n : Nat} (hsteady : p.SteadyOn (layer K d k) s) (hj : D ≤ k + j)
    (hn : j < n) : (p.run n s).ending ≠ .capReached := by
  obtain ⟨m, rfl⟩ : ∃ m, n = m + 1 := ⟨n - 1, by omega⟩
  induction j generalizing k s m with
  | zero =>
    have hsettled : p.Settled s := by
      intro name pred hm
      exact hsteady name pred hm ((hD name pred hm).imp id fun h => by omega)
    refine ending_succ_ne_capReached fun t ht => ?_
    rw [round_of_settled hsettled] at ht
    cases ht
  | succ j ih =>
    refine ending_succ_ne_capReached fun t ht => ?_
    obtain ⟨hstep, hself⟩ := usesWithin_layer hK hd k
    obtain ⟨m', rfl⟩ : ∃ m', m = m' + 1 := ⟨m - 1, by omega⟩
    exact ih (hs.of_reaches (reaches_of_round ht)) (hsteady.of_round hself hstep hs ht) (by omega) m'
      (by omega)

/-- **A run from the empty store comes to an end within as many rounds as there are facts for the
monotone part and levels above it, and one more.** `U` bounds those facts. -/
theorem ending_ne_capReached (hK : p.MonotoneOn K)
    (hd : ∀ a b, p.Uses a b → (∃ q, (b, q) ∈ p.predicates) → ¬ K b → d b < d a)
    (hD : ∀ name pred, (name, pred) ∈ p.predicates → layer K d D name)
    {U : Set (String × Fact α)} (hfin : U.Finite) (hU : ∀ s, p.Reaches ∅ s → s.factsIn K ⊆ U) {n : Nat}
    (hn : U.ncard + D < n) : (p.run n ∅).ending ≠ .capReached := by
  -- The rounds left are enough for the facts still missing.
  have main : ∀ n s, p.Reaches ∅ s → U.ncard + D < n + (s.factsIn K).ncard →
      (p.run n s).ending ≠ .capReached := by
    intro n
    induction n with
    | zero =>
      intro s hreach hn
      have := Set.ncard_le_ncard (hU s hreach) hfin
      omega
    | succ n ih =>
      intro s hreach hn
      have hs := ((growing_empty K).of_reaches hK hreach).1
      have hle := Set.ncard_le_ncard (hU s hreach) hfin
      by_cases hsteady : p.SteadyOn K s
      · have hzero : p.SteadyOn (layer K d 0) s := fun name pred hm hname =>
          hsteady name pred hm (hname.resolve_right (Nat.not_lt_zero _))
        exact ending_ne_capReached_of_steadyOn hK hd hD hs.covers hzero (Nat.le_add_left D 0)
          (by omega)
      · refine ending_succ_ne_capReached fun t ht => ?_
        have hst := reaches_of_round ht
        have hlt : (s.factsIn K).ncard < (t.factsIn K).ncard := by
          rcases grows_of_sweep hK (fun _ he => he) hs ht with hlt | hno
          · exact Set.ncard_lt_ncard hlt (hfin.subset (hU t (hreach.trans hst)))
          · exact absurd hno hsteady
        exact ih t (hreach.trans hst) (by omega)
  exact main n ∅ .refl (by omega)

theorem ending_ne_capReached_of_base (hK : p.MonotoneOn K)
    (hd : ∀ a b, p.Uses a b → (∃ q, (b, q) ∈ p.predicates) → ¬ K b → d b < d a)
    (hD : ∀ name pred, (name, pred) ∈ p.predicates → layer K d D name) {n : Nat}
    (hn : {x | x ∈ p.base}.ncard + D < n) : (p.run n ∅).ending ≠ .capReached :=
  ending_ne_capReached hK hd hD (List.finite_toSet p.base)
    (fun _ hs x hx => mem_base_of_reaches hs x.1 x.2 hx.2) hn

end Program

end Verdict

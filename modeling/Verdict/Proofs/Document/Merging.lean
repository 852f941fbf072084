import Verdict.Document.Status
import Verdict.Proofs.Evaluation.Rounds

/-!
# Merging outcomes

Statuses are read off facts one after another, and where an inference has several outcomes they are
merged. What comes out does not depend on the way: it is the common outcome if there is one, and mixed
as soon as two outcomes differ (`Status.Sums`, `Status.exists_of_ofFacts`). So it does not depend on the
order of the facts either (`Program.statuses_perm`).
-/

namespace Verdict

variable {α : Type} [Foreign α]

namespace Status

/-- What outcomes that are given for one inference amount to. -/
inductive Sums (given : Status → Prop) : Option Status → Prop where
  | nothing : (∀ s, ¬ given s) → Sums given none
  | common {s : Status} : given s → (∀ t, given t → t = s) → Sums given (some s)
  | clash {s t : Status} : given s → given t → s ≠ t → Sums given (some mixed)

theorem Sums.congr {given given' : Status → Prop} {o : Option Status} (h : Sums given o)
    (e : ∀ s, given s ↔ given' s) : Sums given' o := by
  have : given = given' := funext fun s => propext (e s)
  rw [← this]
  exact h

/-- The outcomes decide what they amount to. -/
theorem Sums.unique {given : Status → Prop} {o o' : Option Status} (h : Sums given o)
    (h' : Sums given o') : o = o' := by
  cases h with
  | nothing hno =>
    cases h' with
    | nothing => rfl
    | common ht => exact absurd ht (hno _)
    | clash ht => exact absurd ht (hno _)
  | common hs hall =>
    cases h' with
    | nothing hno => exact absurd hs (hno _)
    | common ht => rw [hall _ ht]
    | clash ht hu hne => exact absurd ((hall _ ht).trans (hall _ hu).symm) hne
  | clash hs ht hne =>
    cases h' with
    | nothing hno => exact absurd hs (hno _)
    | common _ hall => exact absurd ((hall _ hs).trans (hall _ ht).symm) hne
    | clash => rfl

/-- Merging one more outcome. -/
theorem Sums.add {given : Status → Prop} {o : Option Status} (h : Sums given o) (s : Status) :
    Sums (fun t => given t ∨ t = s) (some ((o.map (merge · s)).getD s)) := by
  cases h with
  | nothing hno => exact .common (Or.inr rfl) fun t ht => ht.resolve_left (hno t)
  | @common r hr hall =>
    show Sums _ (some (if r = s then r else mixed))
    by_cases e : r = s
    · rw [if_pos e]
      refine .common (Or.inl hr) fun t ht => ?_
      rcases ht with ht | ht
      · exact hall t ht
      · exact ht.trans e.symm
    · rw [if_neg e]
      exact .clash (Or.inl hr) (Or.inr rfl) e
  | clash ht hu hne =>
    show Sums _ (some (if mixed = s then mixed else mixed))
    rw [ite_self]
    exact .clash (Or.inl ht) (Or.inl hu) hne

/-- If there is at most one outcome, it is what comes out. -/
theorem Sums.eq_some_iff {given : Status → Prop} {o : Option Status} (h : Sums given o)
    (hu : ∀ s t, given s → given t → s = t) {s : Status} : o = some s ↔ given s := by
  cases h with
  | nothing hno =>
    constructor
    · intro e
      cases e
    · intro hs
      exact absurd hs (hno s)
  | common hr hall =>
    constructor
    · intro e
      cases e
      exact hr
    · intro hs
      rw [hall s hs]
  | clash ht hu' hne => exact absurd (hu _ _ ht hu') hne

/-- The fact gives the inference with this key this outcome. -/
def Gives (f : Fact α) (key : String × String) (s : Status) : Prop :=
  ∃ t u v, f = [t, u, v] ∧ (t.plain, u.plain) = key ∧ ofTerm v = .ok s

theorem Gives.unique {f : Fact α} {key key' : String × String} {s s' : Status}
    (h : Gives f key s) (h' : Gives f key' s') : key = key' ∧ s = s' := by
  obtain ⟨t, u, v, rfl, hkey, hs⟩ := h
  obtain ⟨t', u', v', e, hkey', hs'⟩ := h'
  cases e
  rw [hs] at hs'
  cases hs'
  exact ⟨hkey.symm.trans hkey', rfl⟩

theorem add_of_gives {f : Fact α} {key : String × String} {s : Status} (h : Gives f key s)
    (statuses : Statuses) :
    add statuses f =
      .ok (statuses.insert key (((statuses.get? key).map (merge · s)).getD s)) := by
  obtain ⟨t, u, v, rfl, rfl, hs⟩ := h
  rw [add, hs]
  rfl

/-- **The outcomes of facts that all give one come to their sums, inference by inference.** -/
theorem exists_of_ofFacts {facts : List (Fact α)} {statuses : Statuses}
    {given : String × String → Status → Prop} (h : ∀ key, Sums (given key) (statuses.get? key))
    (hfacts : ∀ f ∈ facts, ∃ key s, Gives f key s) :
    ∃ result, ofFacts statuses facts = .ok result ∧
      ∀ key, Sums (fun s => given key s ∨ ∃ f ∈ facts, Gives f key s) (result.get? key) := by
  induction facts generalizing statuses given with
  | nil =>
    refine ⟨statuses, rfl, fun key => (h key).congr fun s => ?_⟩
    simp only [List.not_mem_nil, false_and, exists_false, or_false]
  | cons f rest ih =>
    obtain ⟨key, s, hf⟩ := hfacts f List.mem_cons_self
    let next := statuses.insert key (((statuses.get? key).map (merge · s)).getD s)
    have hnext (k : String × String) :
        Sums (fun t => given k t ∨ Gives f k t) (next.get? k) := by
      by_cases e : k = key
      · subst e
        rw [Table.get?_insert_self]
        refine ((h k).add s).congr fun t => or_congr_right ⟨fun ht => ht ▸ hf, fun ht => ?_⟩
        exact (ht.unique hf).2
      · rw [Table.get?_insert_of_ne e]
        refine (h k).congr fun t => ⟨Or.inl, fun ht => ?_⟩
        exact ht.resolve_right fun hg => e (hg.unique hf).1
    obtain ⟨result, hr, hsums⟩ := ih hnext fun g hg => hfacts g (List.mem_cons_of_mem _ hg)
    refine ⟨result, ?_, fun k => (hsums k).congr fun t => ?_⟩
    · rw [ofFacts, add_of_gives hf]
      exact hr
    · simp only [List.mem_cons, or_and_right, exists_or, exists_eq_left, or_assoc]

end Status

/-- The statuses are read off the facts of the last predicate. -/
theorem Program.statuses_eq (p : Program α) :
    p.statuses = Status.ofFacts ∅ (p.computed.factsOf "inference_check_stratified").facts := by
  unfold Program.statuses Store.factsOf
  cases p.computed.get? "inference_check_stratified" with
  | none => rfl
  | some r => rfl

/-! ## Facts in another order -/

namespace Status

/-- The outcome that a value of a fact stands for: a truth value, or the word of an outcome. -/
inductive Denotes : Term α → Status → Prop where
  | truth (b : Bool) : Denotes (.truth b) (ofBool b)
  | word (s : Status) : Denotes (.text s.word) s

theorem Denotes.ofTerm {v : Term α} {s : Status} (h : Denotes v s) : Status.ofTerm v = .ok s := by
  cases h with
  | truth b => rfl
  | word s => cases s <;> rfl

/-- The fact says of the inference with this key that it has this outcome. -/
def States (f : Fact α) (key : String × String) (s : Status) : Prop :=
  ∃ t u v, f = [t, u, v] ∧ (t.plain, u.plain) = key ∧ Denotes v s

theorem States.gives {f : Fact α} {key : String × String} {s : Status} (h : States f key s) :
    Gives f key s := by
  obtain ⟨t, u, v, hf, hkey, hv⟩ := h
  exact ⟨t, u, v, hf, hkey, hv.ofTerm⟩

/-- A fact that says something gives what it says. -/
theorem States.gives_iff {f : Fact α} {key key' : String × String} {s s' : Status}
    (h : States f key s) : Gives f key' s' ↔ States f key' s' := by
  constructor
  · intro hg
    obtain ⟨hkey, hs⟩ := h.gives.unique hg
    rw [← hkey, ← hs]
    exact h
  · exact States.gives

/-- Facts that all say something come to the sums of what they say. -/
theorem exists_of_states {facts : List (Fact α)} (h : ∀ f ∈ facts, ∃ key s, States f key s) :
    ∃ statuses, ofFacts ∅ facts = .ok statuses ∧
      ∀ key, Sums (fun s => ∃ f ∈ facts, States f key s) (statuses.get? key) := by
  have none (key : String × String) : Sums (fun _ => False) ((∅ : Statuses).get? key) :=
    .nothing fun _ h => h
  have hgives : ∀ f ∈ facts, ∃ key s, Gives f key s := by
    intro f hf
    obtain ⟨key, s, hs⟩ := h f hf
    exact ⟨key, s, hs.gives⟩
  obtain ⟨statuses, hok, hsums⟩ := exists_of_ofFacts none hgives
  refine ⟨statuses, hok, fun key => (hsums key).congr fun s => ?_⟩
  rw [false_or]
  refine exists_congr fun f => and_congr_right fun hf => ?_
  obtain ⟨_, _, hs⟩ := h f hf
  exact hs.gives_iff

end Status

open Status

/-- What a program holds that says an outcome with every fact of its last predicate. -/
theorem Program.statuses_of_states {p : Program α} {r : Relation α}
    (hp : p.computed.get? "inference_check_stratified" = some r)
    (hrows : ∀ f ∈ r.facts, ∃ key s, States f key s) :
    ∃ statuses, p.statuses = .ok statuses ∧
      ∀ key, Sums (fun s => ∃ f ∈ r.facts, States f key s) (statuses.get? key) := by
  have hfacts : p.statuses = ofFacts ∅ r.facts := by
    unfold Program.statuses
    rw [hp]
  rw [hfacts]
  exact exists_of_states hrows

/-- **The order of the facts does not matter for the statuses**: an inference gets the common outcome of
the facts about it, and is mixed as soon as two of them differ. -/
theorem Program.statuses_perm {p p' : Program α} {r r' : Relation α}
    (hp : p.computed.get? "inference_check_stratified" = some r)
    (hp' : p'.computed.get? "inference_check_stratified" = some r') (hperm : r.facts.Perm r'.facts)
    (hrows : ∀ f ∈ r.facts, ∃ key s, States f key s) :
    ∃ statuses statuses', p.statuses = .ok statuses ∧ p'.statuses = .ok statuses' ∧
      statuses.SameMap statuses' ∧
      ∀ key, Sums (fun s => ∃ f ∈ r.facts, States f key s) (statuses.get? key) := by
  obtain ⟨statuses, hok, hsums⟩ := Program.statuses_of_states hp hrows
  obtain ⟨statuses', hok', hsums'⟩ :=
    Program.statuses_of_states hp' fun f hf => hrows f (hperm.mem_iff.2 hf)
  refine ⟨statuses, statuses', hok, hok', fun key => ?_, hsums⟩
  have hsame (s : Status) : (∃ f ∈ r'.facts, States f key s) ↔ ∃ f ∈ r.facts, States f key s := by
    simp only [hperm.mem_iff]
  exact (hsums key).unique ((hsums' key).congr hsame)

/-- The program that holds outcomes and nothing else. -/
def Program.ofOutcomes (r : Relation) : Program where
  computed := .ofList [("inference_check_stratified", r)]

/-- Two inferences, each of them named in two ways: about one the facts agree, about the other not. -/
def opinions : Relation :=
  .ofRows
    [[.text "lease", .text "true", .truth false], [.text "lease", .text "2", .truth true],
     [.text "lease", .truth true, .text "false"], [.var "lease", .text "2", .text "partial"]]

theorem Program.statuses_perm_opinions :
    (∀ f ∈ opinions.facts, ∃ key s, States f key s) ∧
      ∃ statuses statuses', (Program.ofOutcomes opinions).statuses = .ok statuses ∧
        (Program.ofOutcomes (.ofRows opinions.facts.reverse)).statuses = .ok statuses' ∧
        statuses.SameMap statuses' ∧ statuses.get? ("lease", "true") = some .fails ∧
        statuses.get? ("lease", "2") = some .mixed := by
  have hfacts : opinions.facts =
      [[.text "lease", .text "true", .truth false], [.text "lease", .text "2", .truth true],
       [.text "lease", .truth true, .text "false"], [.var "lease", .text "2", .text "partial"]] := by
    decide
  have hrows : ∀ f ∈ opinions.facts, ∃ key s, States f key s := by
    simp only [hfacts, List.forall_mem_cons]
    exact ⟨⟨_, _, _, _, _, rfl, rfl, .truth false⟩, ⟨_, _, _, _, _, rfl, rfl, .truth true⟩,
      ⟨_, _, _, _, _, rfl, rfl, .word .fails⟩, ⟨_, _, _, _, _, rfl, rfl, .word .mixed⟩,
      List.forall_mem_nil _⟩
  have hback : (Program.ofOutcomes (.ofRows opinions.facts.reverse)).computed.get?
      "inference_check_stratified" = some (.ofRows opinions.facts.reverse) := rfl
  obtain ⟨statuses, statuses', hok, hok', hsame, -⟩ :=
    Program.statuses_perm (p := .ofOutcomes opinions) rfl hback (by decide) hrows
  cases (Except.ok.inj (hok.symm.trans rfl) : statuses = _)
  exact ⟨hrows, _, statuses', hok, hok', hsame, by decide, by decide⟩

end Verdict

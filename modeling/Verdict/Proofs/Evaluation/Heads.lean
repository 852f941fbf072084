import Verdict.Proofs.Evaluation.Dependency
import Verdict.Proofs.Evaluation.Solutions
import Verdict.Proofs.Table

/-!
# Heads and what bodies bind

Validation asks of a head variable that it occur in the body, be it in a denial; a solution binds the
variables of the positive clauses and no others (`Program.binds_of_solve`). So a valid program has two
kinds of rules, wherever in its body a rule has its denials:

> A rule with all its head variables in positive clauses turns each of its solutions into a fact. A rule
> with a head variable in denials only derives nothing, and every run goes on as if it were not there
> (`Program.head_bindings`).

The second half is shown of all rules that derive nothing (`Program.Idle`): the program with the others
takes the same rounds (`Program.run_keeping`). It may take more of them, as an idle rule can still be
what a round fails on.
-/

namespace Verdict

variable {α : Type}

namespace Rule

/-- Each of the head variables occurs in a positive clause. -/
def BindsHead (rule : Rule α) (head : List String) : Prop :=
  ∀ x ∈ head, ∃ c ∈ rule, c.negated = false ∧ .var x ∈ c.terms

/-- One of the head variables occurs in the body, but only in negated clauses. -/
def LeavesOpen (rule : Rule α) (head : List String) : Prop :=
  ∃ x ∈ head, (∃ c ∈ rule, .var x ∈ c.terms) ∧ ∀ c ∈ rule, .var x ∈ c.terms → c.negated = true

instance [DecidableEq α] (rule : Rule α) (head : List String) : Decidable (BindsHead rule head) :=
  inferInstanceAs (Decidable (∀ x ∈ head, ∃ c ∈ rule, c.negated = false ∧ .var x ∈ c.terms))

instance [DecidableEq α] (rule : Rule α) (head : List String) : Decidable (LeavesOpen rule head) :=
  inferInstanceAs (Decidable (∃ x ∈ head, (∃ c ∈ rule, .var x ∈ c.terms) ∧
    ∀ c ∈ rule, .var x ∈ c.terms → c.negated = true))

end Rule

/-! ## What validation sees -/

section Valid

variable {p : Program α} {name : String} {pred : Predicate α} {rule : Rule α}

theorem Program.Valid.exists_occurrence (h : p.Valid) (hm : (name, pred) ∈ p.predicates)
    (hr : rule ∈ pred.rules) {x : String} (hx : x ∈ pred.args) : ∃ c ∈ rule, .var x ∈ c.terms := by
  have hrule := h.defect?_eq_none hm hr
  unfold Rule.defect? at hrule
  split at hrule
  · cases hrule
  · have hfind := List.find?_eq_none.1 (Option.map_eq_none_iff.1 hrule) x hx
    rw [decide_eq_true_eq, not_not] at hfind
    exact Rule.mem_vars.1 hfind

/-- **In a valid program a rule that does not bind its head leaves it open.** -/
theorem Program.Valid.leavesOpen_iff (h : p.Valid) (hm : (name, pred) ∈ p.predicates)
    (hr : rule ∈ pred.rules) :
    Rule.LeavesOpen rule pred.args ↔ ¬ Rule.BindsHead rule pred.args := by
  constructor
  · rintro ⟨x, hx, -, hneg⟩ hbinds
    obtain ⟨c, hc, hpos, hxc⟩ := hbinds x hx
    rw [hneg c hc hxc] at hpos
    cases hpos
  · intro hbinds
    simp only [Rule.BindsHead, not_forall, not_exists, not_and] at hbinds
    obtain ⟨x, hx, hnone⟩ := hbinds
    refine ⟨x, hx, h.exists_occurrence hm hr hx, fun c hc hxc => ?_⟩
    cases hn : c.negated with
    | true => rfl
    | false => exact absurd hxc (hnone c hc hn)

end Valid

/-! ## What evaluation binds -/

/-- A head is projected iff each of its variables is bound. -/
theorem Binding.exists_project_iff {b : Binding α} {head : List String} :
    (∃ f, b.project head = some f) ↔ ∀ x ∈ head, ∃ t, b.get? x = some t := by
  induction head with
  | nil => simp [project]
  | cons x head ih =>
    rw [List.forall_mem_cons, ← ih]
    simp only [project, List.mapM_cons, Option.bind_eq_bind, Option.bind_eq_some_iff]
    constructor
    · rintro ⟨_, t, ht, f, hf, -⟩
      exact ⟨⟨t, ht⟩, f, hf⟩
    · rintro ⟨⟨t, ht⟩, f, hf⟩
      exact ⟨t :: f, t, ht, f, hf, rfl⟩

namespace Program

variable [DecidableEq α] {p : Program α} {s : Store α} {rule : Rule α} {bs : List (Binding α)}
  {head : List String}

/-- **A solution binds just the variables of the positive clauses.** -/
theorem binds_of_solve (h : p.solve s rule = .ok bs) {b : Binding α} (hb : b ∈ bs) (x : String) :
    (∃ a, b.get? x = some a) ↔ ∃ c ∈ rule, c.negated = false ∧ .var x ∈ c.terms := by
  have hsat := (mem_solve h).1 (List.mem_map_of_mem hb)
  -- There is a solution, so no name in the rule is unknown.
  exact ((sat_iff_satisfies hsat.known).1 hsat).domain x

theorem exists_project_iff_bindsHead (h : p.solve s rule = .ok bs) {b : Binding α} (hb : b ∈ bs) :
    (∃ f, b.project head = some f) ↔ Rule.BindsHead rule head := by
  simp only [Binding.exists_project_iff, binds_of_solve h hb, Rule.BindsHead]

theorem project_eq_none_of_not_bindsHead (h : p.solve s rule = .ok bs) (hn : ¬ Rule.BindsHead rule head) :
    ∀ b ∈ bs, b.project head = none := by
  intro b hb
  rw [Option.eq_none_iff_forall_ne_some]
  exact fun f hf => hn ((exists_project_iff_bindsHead h hb).1 ⟨f, hf⟩)

theorem deriveRule_of_solve (h : p.solve s rule = .ok bs) :
    p.deriveRule s head rule = .ok (bs.filterMap fun b => b.project head) := by
  rw [deriveRule, h]
  rfl

/-- No solution is lost by a rule that binds its head. -/
theorem exists_deriveRule_of_bindsHead (h : p.solve s rule = .ok bs) (hb : Rule.BindsHead rule head) :
    ∃ facts, p.deriveRule s head rule = .ok facts ∧
      facts.map some = bs.map fun b => b.project head := by
  refine ⟨_, deriveRule_of_solve h, ?_⟩
  have hall : ∀ b ∈ bs, ∃ f, b.project head = some f :=
    fun b hmem => (exists_project_iff_bindsHead h hmem).2 hb
  clear h
  induction bs with
  | nil => rfl
  | cons b bs ih =>
    obtain ⟨⟨f, hf⟩, hrest⟩ := List.forall_mem_cons.1 hall
    simp only [List.filterMap_cons, hf, List.map_cons, ih hrest]

/-! ## Rules that derive nothing -/

/-- Wherever the rule can be solved, it derives nothing. -/
def Idle (p : Program α) (head : List String) (rule : Rule α) : Prop :=
  ∀ s facts, p.deriveRule s head rule = .ok facts → facts = []

theorem deriveRule_of_not_bindsHead (h : p.solve s rule = .ok bs) (hn : ¬ Rule.BindsHead rule head) :
    p.deriveRule s head rule = .ok [] := by
  rw [deriveRule_of_solve h, List.filterMap_eq_nil_iff.2 (project_eq_none_of_not_bindsHead h hn)]

theorem idle_of_not_bindsHead (h : ¬ Rule.BindsHead rule head) : p.Idle head rule := by
  intro s facts hfacts
  obtain ⟨bs, hbs, -⟩ := bind_eq_ok_iff.1 hfacts
  rw [deriveRule_of_not_bindsHead hbs h] at hfacts
  exact (Except.ok.inj hfacts).symm

end Program

/-- The predicate with only those of its rules that are to be kept. -/
def Predicate.keeping (keep : Rule α → Bool) (pred : Predicate α) : Predicate α :=
  { pred with rules := pred.rules.filter keep }

def Node.keeping (keep : Rule α → Bool) : Node α → Node α
  | relation r => relation r
  | predicate pred => predicate (pred.keeping keep)

namespace Program

/-- The program with only those rules that are to be kept under the name of their predicate. -/
def keeping (keep : String → Rule α → Bool) (p : Program α) : Program α :=
  { p with nodes := p.nodes.mapValues fun name node => node.keeping (keep name) }

section Keeping

variable {p : Program α} {keep : String → Rule α → Bool}

theorem resolve?_keeping (s : Store α) (name : String) :
    (p.keeping keep).resolve? s name = p.resolve? s name := by
  simp only [resolve?, keeping, Table.get?_mapValues]
  cases p.nodes.get? name with
  | none => rfl
  | some node => cases node <;> rfl

theorem predicates_keeping : (p.keeping keep).predicates =
    p.predicates.map fun e => (e.1, e.2.keeping (keep e.1)) := by
  simp only [predicates, keeping, Table.mapValues, List.filterMap_map, List.map_filterMap]
  refine List.filterMap_congr fun e _ => ?_
  obtain ⟨name, node⟩ := e
  cases node <;> rfl

variable [DecidableEq α] {s t : Store α} {head : List String}

theorem deriveRules_filter {keep : Rule α → Bool} {rules : List (Rule α)} {facts : List (Fact α)}
    (hidle : ∀ rule ∈ rules, keep rule = false → p.Idle head rule)
    (h : p.deriveRules s head rules = .ok facts) :
    p.deriveRules s head (rules.filter keep) = .ok facts := by
  induction rules generalizing facts with
  | nil => exact h
  | cons rule rules ih =>
    obtain ⟨hrule, hrules⟩ := List.forall_mem_cons.1 hidle
    rw [deriveRules] at h
    obtain ⟨first, hfirst, h⟩ := bind_eq_ok_iff.1 h
    obtain ⟨rest, hrest, h⟩ := bind_eq_ok_iff.1 h
    rw [pure_eq_ok_iff] at h
    subst h
    cases hk : keep rule with
    | true =>
      rw [List.filter_cons_of_pos hk, deriveRules]
      exact bind_eq_ok_iff.2 ⟨first, hfirst, bind_eq_ok_iff.2 ⟨rest, ih hrules hrest, rfl⟩⟩
    | false =>
      rw [List.filter_cons_of_neg (by simp [hk]), hrule hk s first hfirst, List.nil_append]
      exact ih hrules hrest

variable {name : String} {pred : Predicate α}

/-- The rules that are left out of the predicate derive nothing. -/
def LeavesOutIdle (p : Program α) (keep : String → Rule α → Bool) (e : String × Predicate α) : Prop :=
  ∀ rule ∈ e.2.rules, keep e.1 rule = false → p.Idle e.2.args rule

theorem update_keeping (hidle : p.LeavesOutIdle keep (name, pred)) {o : Option (Store α)}
    (h : p.update s name pred = .ok o) :
    (p.keeping keep).update s name (pred.keeping (keep name)) = .ok o := by
  rw [update] at h ⊢
  obtain ⟨r, hr, h⟩ := bind_eq_ok_iff.1 h
  obtain ⟨facts, hfacts, hr⟩ := bind_eq_ok_iff.1 hr
  -- Only declared facts are looked up among the nodes, and they stay.
  have hderive : (p.keeping keep).derive s (pred.keeping (keep name)) =
      p.derive s (pred.keeping (keep name)) :=
    derive_congr fun _ _ c _ => resolve?_keeping s c.relation
  refine bind_eq_ok_iff.2 ⟨r, ?_, h⟩
  rw [hderive]
  exact bind_eq_ok_iff.2 ⟨facts, deriveRules_filter hidle hfacts, hr⟩

theorem sweep_keeping {l : List (String × Predicate α)} (hidle : ∀ e ∈ l, p.LeavesOutIdle keep e)
    {changed : Bool} (h : p.sweep l s = .ok (t, changed)) :
    (p.keeping keep).sweep (l.map fun e => (e.1, e.2.keeping (keep e.1))) s = .ok (t, changed) := by
  induction l generalizing s changed with
  | nil => exact h
  | cons e rest ih =>
    obtain ⟨hfirst, hrest⟩ := List.forall_mem_cons.1 hidle
    obtain ⟨o, later, ho, hlater, hchanged⟩ := sweep_cons_eq_ok_iff.1 h
    exact sweep_cons_eq_ok_iff.2 ⟨o, later, update_keeping hfirst ho, ih hrest hlater, hchanged⟩

theorem round_keeping (hidle : ∀ e ∈ p.predicates, p.LeavesOutIdle keep e) {changed : Bool}
    (h : p.round s = .ok (t, changed)) : (p.keeping keep).round s = .ok (t, changed) := by
  rw [round, predicates_keeping]
  exact sweep_keeping hidle h

/-- **Without rules that derive nothing a run goes the same way**, and may go on where it failed before. -/
theorem run_keeping (hidle : ∀ e ∈ p.predicates, p.LeavesOutIdle keep e) (n : Nat) (s : Store α) :
    (p.run n s).snapshots <+: ((p.keeping keep).run n s).snapshots ∧
      ((∀ err, (p.run n s).ending ≠ .failed err) → (p.keeping keep).run n s = p.run n s) := by
  induction n generalizing s with
  | zero => exact ⟨List.prefix_rfl, fun _ => rfl⟩
  | succ n ih =>
    rw [run]
    split
    · next err _ => exact ⟨List.nil_prefix, fun h => absurd rfl (h err)⟩
    · next u hu =>
      rw [run_of_round (round_keeping hidle hu)]
      obtain ⟨hsnapshots, hsame⟩ := ih u
      exact ⟨List.cons_prefix_cons.2 ⟨rfl, hsnapshots⟩, fun h => congrArg (Run.cons u) (hsame h)⟩
    · next u hu =>
      rw [run_of_round (round_keeping hidle hu)]
      exact ⟨List.prefix_rfl, fun _ => rfl⟩

end Keeping

variable [DecidableEq α]

/-- The program without one rule of the named predicate. -/
def withoutRule (p : Program α) (name : String) (rule : Rule α) : Program α :=
  p.keeping fun n r => !decide (n = name ∧ r = rule)

/-- **Validation and evaluation agree on what is bound.** A rule of a valid program leaves its head open
iff it does not bind it. If it binds it, each solution over any store is projected to a fact, and the
rule derives these facts, one for each solution and in their order. If it leaves it open, no solution is
projected and the rule derives nothing; the snapshots of every run, from any store and for any number of
rounds, are then the first of those of the program without the rule, and both runs are the same if there
is no failure. -/
theorem head_bindings (p : Program α) (hp : p.Valid) (name : String) (pred : Predicate α)
    (hm : (name, pred) ∈ p.predicates) (rule : Rule α) (hr : rule ∈ pred.rules) :
    (Rule.LeavesOpen rule pred.args ↔ ¬ Rule.BindsHead rule pred.args) ∧
      (Rule.BindsHead rule pred.args → ∀ s bs, p.solve s rule = .ok bs →
        (∀ b ∈ bs, ∃ f, b.project pred.args = some f) ∧
          ∃ facts, p.deriveRule s pred.args rule = .ok facts ∧
            facts.map some = bs.map fun b => b.project pred.args) ∧
      (Rule.LeavesOpen rule pred.args →
        (∀ s bs, p.solve s rule = .ok bs → (∀ b ∈ bs, b.project pred.args = none) ∧
          p.deriveRule s pred.args rule = .ok []) ∧
        ∀ n s, (p.run n s).snapshots <+: ((p.withoutRule name rule).run n s).snapshots ∧
          ((∀ err, (p.run n s).ending ≠ .failed err) →
            (p.withoutRule name rule).run n s = p.run n s)) := by
  have hiff := hp.leavesOpen_iff hm hr
  refine ⟨hiff, fun hbinds s bs hbs => ⟨?_, exists_deriveRule_of_bindsHead hbs hbinds⟩, fun hopen => ?_⟩
  · exact fun b hb => (exists_project_iff_bindsHead hbs hb).2 hbinds
  have hnot := hiff.1 hopen
  refine ⟨fun s bs hbs => ⟨project_eq_none_of_not_bindsHead hbs hnot,
    deriveRule_of_not_bindsHead hbs hnot⟩, run_keeping ?_⟩
  rintro ⟨n, pred'⟩ hm' r - hkeep
  -- Only the one rule is left out, and its name is that of no other predicate.
  obtain ⟨rfl, rfl⟩ : n = name ∧ r = rule := by simpa using hkeep
  obtain rfl := eq_of_mem_predicates hm hm'
  exact idle_of_not_bindsHead hnot

/-- Nobody is booked at noon, and the denial of this comes first. -/
def freeAtNoon : Rule :=
  [⟨"booked", [.var "X", .text "noon"], true⟩, ⟨"person", [.var "X"], false⟩]

/-- As before, but the person is somebody else. -/
def otherAtNoon : Rule :=
  [⟨"person", [.var "Y"], false⟩, ⟨"booked", [.var "X", .text "noon"], true⟩]

def calendar : Program where
  nodes := .ofList
    [("person", .relation (.ofRows [[.text "ann"], [.text "bob"]])),
     ("booked", .relation (.ofRows [[.text "bob", .text "dusk"]])),
     ("free", .predicate { args := ["X"], rules := [freeAtNoon, otherAtNoon] })]

/-- In the calendar the rule with the denial in front makes a fact of each of its two solutions. The
other rule has as many solutions, makes nothing of them, and is not missed. -/
theorem head_bindings_calendar :
    calendar.Valid ∧
      ("free", { args := ["X"], rules := [freeAtNoon, otherAtNoon] }) ∈ calendar.predicates ∧
      (Rule.BindsHead freeAtNoon ["X"] ∧ ∃ bs facts, calendar.solve ∅ freeAtNoon = .ok bs ∧
        bs.length = 2 ∧ calendar.deriveRule ∅ ["X"] freeAtNoon = .ok facts ∧
        facts.map some = bs.map fun b => b.project ["X"]) ∧
      Rule.LeavesOpen otherAtNoon ["X"] ∧
      (∃ bs, calendar.solve ∅ otherAtNoon = .ok bs ∧ bs.length = 2 ∧
        (∀ b ∈ bs, b.project ["X"] = none) ∧ calendar.deriveRule ∅ ["X"] otherAtNoon = .ok []) ∧
      (calendar.withoutRule "free" otherAtNoon).run 3 ∅ = calendar.run 3 ∅ := by
  have hvalid : calendar.Valid := by decide
  have hm : ("free", { args := ["X"], rules := [freeAtNoon, otherAtNoon] }) ∈ calendar.predicates := by
    decide
  have hbinds : Rule.BindsHead freeAtNoon ["X"] := by decide
  have hopen : Rule.LeavesOpen otherAtNoon ["X"] := by decide
  obtain ⟨-, hkept, -⟩ := head_bindings calendar hvalid _ _ hm freeAtNoon (by decide)
  obtain ⟨-, -, hlost⟩ := head_bindings calendar hvalid _ _ hm otherAtNoon (by decide)
  obtain ⟨-, facts, hfacts, hall⟩ := hkept hbinds ∅ _ rfl
  obtain ⟨hidle, hruns⟩ := hlost hopen
  have hsettled : (calendar.run 3 ∅).ending = .settled := rfl
  exact ⟨hvalid, hm, ⟨hbinds, _, facts, rfl, rfl, hfacts, hall⟩, hopen,
    ⟨_, rfl, rfl, hidle ∅ _ rfl⟩, (hruns 3 ∅).2 (by simp [hsettled])⟩

end Program

end Verdict

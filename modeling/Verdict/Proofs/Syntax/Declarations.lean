import Mathlib.Data.List.Induction
import Verdict.Proofs.Syntax.Alignment
import Verdict.Proofs.Syntax.Assembly

/-!
# Which statements make a program

Statements of the grammar are put together into a program just if those of each name agree with one
another (`Consistent`), and then the program is what they say, name by name (`Declares`). Both follow
statement by statement: whether one more can be declared is a matter of the earlier ones of its name
(`exists_declare_iff`), and declaring it is adding it to them (`Declares.declare`). With the grammar this
says which texts are programs, and what they declare (`parse_accepts_iff`).
-/

namespace Verdict

variable {α : Type}

namespace Statement

def name : Statement α → String
  | .fact name _ _ => name
  | .rule name _ _ _ => name

/-- The facts stated for a name. -/
def factsFor (name : String) (ss : List (Statement α)) : List (Fact α) :=
  ss.filterMap fun
    | .fact n terms _ => if n = name then some terms else none
    | .rule _ _ _ _ => none

/-- The heads and bodies of the rules stated for a name. -/
def rulesFor (name : String) (ss : List (Statement α)) : List (List String × Rule α) :=
  ss.filterMap fun
    | .fact _ _ _ => none
    | .rule n args body _ => if n = name then some (args, body) else none

/-- What is stated for one name agrees: it is not both facts and rules, the facts have one length, and
the rule heads have the length and the pattern of the first one. -/
structure Agree (facts : List (Fact α)) (rules : List (List String × Rule α)) : Prop where
  kind : facts = [] ∨ rules = []
  length : ∀ f ∈ facts, ∀ g ∈ facts, f.length = g.length
  pattern : ∀ first ∈ rules.head?, ∀ rule ∈ rules, Rule.SamePattern rule.1 first.1

def Consistent (ss : List (Statement α)) : Prop :=
  ∀ n, Agree (factsFor n ss) (rulesFor n ss)

theorem agree_nil : Agree ([] : List (Fact α)) [] :=
  ⟨Or.inl rfl, List.forall_mem_nil _, fun _ h => nomatch h⟩

theorem agree_concat_fact {facts : List (Fact α)} {rules : List (List String × Rule α)}
    {f : Fact α} : Agree (facts ++ [f]) rules ↔
      Agree facts rules ∧ rules = [] ∧ ∀ g ∈ facts, f.length = g.length := by
  constructor
  · intro h
    have hrules : rules = [] := h.kind.resolve_left (by simp)
    refine ⟨⟨Or.inr hrules, fun g hg g' hg' => ?_, h.pattern⟩, hrules, fun g hg => ?_⟩
    · exact h.length g (List.mem_append_left _ hg) g' (List.mem_append_left _ hg')
    · exact h.length f (by simp) g (List.mem_append_left _ hg)
  · rintro ⟨h, hrules, hf⟩
    refine ⟨Or.inr hrules, fun g hg g' hg' => ?_, h.pattern⟩
    rcases List.mem_append.1 hg with hg | hg <;> rcases List.mem_append.1 hg' with hg' | hg'
    · exact h.length g hg g' hg'
    · rw [List.mem_singleton.1 hg', hf g hg]
    · rw [List.mem_singleton.1 hg, hf g' hg']
    · rw [List.mem_singleton.1 hg, List.mem_singleton.1 hg']

theorem agree_concat_rule {facts : List (Fact α)} {rules : List (List String × Rule α)}
    {rule : List String × Rule α} : Agree facts (rules ++ [rule]) ↔
      Agree facts rules ∧ facts = [] ∧ ∀ first ∈ rules.head?, Rule.SamePattern rule.1 first.1 := by
  -- The first rule stays the first, unless there was none.
  have first_stays {first : List String × Rule α} (h : first ∈ rules.head?) :
      first ∈ (rules ++ [rule]).head? := by
    rw [Option.mem_def] at h ⊢
    rw [List.head?_append, h, Option.some_or]
  constructor
  · intro h
    have hfacts : facts = [] := h.kind.resolve_right (by simp)
    refine ⟨⟨Or.inl hfacts, h.length, fun first hfirst r hr => ?_⟩, hfacts, fun first hfirst => ?_⟩
    · exact h.pattern first (first_stays hfirst) r (List.mem_append_left _ hr)
    · exact h.pattern first (first_stays hfirst) rule (by simp)
  · rintro ⟨h, hfacts, hrule⟩
    refine ⟨Or.inl hfacts, h.length, fun first hfirst r hr => ?_⟩
    cases rules with
    | nil =>
      cases hfirst
      cases List.mem_singleton.1 hr
      exact .refl rule.1
    | cons _ rest =>
      cases hfirst
      rcases List.mem_append.1 hr with hr | hr
      · exact h.pattern first rfl r hr
      · rw [List.mem_singleton.1 hr]
        exact hrule first rfl

/-- The statement agrees with the earlier ones of its name. -/
def Agrees (ss : List (Statement α)) : Statement α → Prop
  | .fact n terms _ => rulesFor n ss = [] ∧ ∀ f ∈ factsFor n ss, terms.length = f.length
  | .rule n args _ _ =>
    factsFor n ss = [] ∧ ∀ first ∈ (rulesFor n ss).head?, Rule.SamePattern args first.1

/-! ### One statement more -/

theorem for_concat_fact (n : String) (ss : List (Statement α)) (terms : Fact α) (line : Nat) :
    factsFor n (ss ++ [.fact n terms line]) = factsFor n ss ++ [terms] ∧
      rulesFor n (ss ++ [.fact n terms line]) = rulesFor n ss := by
  simp [factsFor, rulesFor]

theorem for_concat_rule (n : String) (ss : List (Statement α)) (args : List String) (body : Rule α)
    (line : Nat) :
    factsFor n (ss ++ [.rule n args body line]) = factsFor n ss ∧
      rulesFor n (ss ++ [.rule n args body line]) = rulesFor n ss ++ [(args, body)] := by
  simp [factsFor, rulesFor]

theorem for_concat_of_ne {n : String} {s : Statement α} (h : s.name ≠ n) (ss : List (Statement α)) :
    factsFor n (ss ++ [s]) = factsFor n ss ∧ rulesFor n (ss ++ [s]) = rulesFor n ss := by
  cases s with
  | fact m terms line => simp [factsFor, rulesFor, show m ≠ n from h]
  | rule m args body line => simp [factsFor, rulesFor, show m ≠ n from h]

theorem consistent_nil : Consistent ([] : List (Statement α)) :=
  fun _ => agree_nil

theorem consistent_concat_iff {ss : List (Statement α)} {s : Statement α} :
    Consistent (ss ++ [s]) ↔ Consistent ss ∧ Agrees ss s := by
  have self : Agree (factsFor s.name (ss ++ [s])) (rulesFor s.name (ss ++ [s])) ↔
      Agree (factsFor s.name ss) (rulesFor s.name ss) ∧ Agrees ss s := by
    cases s with
    | fact n terms line =>
      obtain ⟨hfacts, hrules⟩ := for_concat_fact n ss terms line
      rw [name, hfacts, hrules]
      exact agree_concat_fact
    | rule n args body line =>
      obtain ⟨hfacts, hrules⟩ := for_concat_rule n ss args body line
      rw [name, hfacts, hrules]
      exact agree_concat_rule
  have other {n : String} (hn : s.name ≠ n) : Agree (factsFor n (ss ++ [s])) (rulesFor n (ss ++ [s])) ↔
      Agree (factsFor n ss) (rulesFor n ss) := by
    rw [(for_concat_of_ne hn ss).1, (for_concat_of_ne hn ss).2]
  constructor
  · intro h
    refine ⟨fun n => ?_, (self.1 (h s.name)).2⟩
    by_cases e : s.name = n
    · exact e ▸ (self.1 (h s.name)).1
    · exact (other e).1 (h n)
  · intro h n
    by_cases e : s.name = n
    · exact e ▸ self.2 ⟨h.1 s.name, h.2⟩
    · exact (other e).2 (h.1 n)

end Statement

namespace Program

open Statement

variable [DecidableEq α]

/-- What the facts and the rules stated for a name make of it: nothing, the relation of the facts, or
the predicate with the first head and all rules, aligned to it. -/
inductive Declared : List (Fact α) → List (List String × Rule α) → Option (Node α) → Prop where
  | nothing : Declared [] [] none
  | relation {first : Fact α} {rest : List (Fact α)} :
    Declared (first :: rest) [] (some (.relation (.ofRows (first :: rest))))
  | predicate {head : List String} {body : Rule α} {rest : List (List String × Rule α)}
      {rules : List (Rule α)} :
    List.Forall₂ (fun s rule => Rule.align head s.1 s.2 = .ok rule) ((head, body) :: rest) rules →
      Declared [] ((head, body) :: rest) (some (.predicate { args := head, rules }))

/-- The nodes are what the statements say, in the order in which their names come first. -/
structure Declares (ss : List (Statement α)) (nodes : Table String (Node α)) : Prop where
  keys : nodes.keys = (ss.map Statement.name).eraseDups
  node : ∀ n, Declared (factsFor n ss) (rulesFor n ss) (nodes.get? n)

/-! ## One statement -/

section Node

variable {nodes nodes' : Table String (Node α)} {n : String} {line : Nat} {node : Option (Node α)}
  {facts : List (Fact α)} {rules : List (List String × Rule α)}

theorem Declared.exists_declare_fact_iff {terms : Fact α} (h : Declared facts rules node)
    (hlength : ∀ f ∈ facts, ∀ g ∈ facts, f.length = g.length) (hn : nodes.get? n = node) :
    (∃ nodes', Program.declare nodes (.fact n terms line) = .ok nodes') ↔
      rules = [] ∧ ∀ f ∈ facts, terms.length = f.length := by
  simp only [declare_fact_eq_ok_iff, hn]
  cases h with
  | nothing => simp
  | @relation first rest =>
    obtain ⟨tail, hfacts⟩ := Relation.exists_facts_ofRows first rest
    constructor
    · intro h
      obtain ⟨nodes', ⟨e, -⟩ | ⟨r, e, hr, -⟩ | ⟨r, first', rest', e, hr, hl, -⟩⟩ := h
      · cases e
      · cases e
        rw [hfacts] at hr
        cases hr
      · cases e
        rw [hfacts] at hr
        cases hr
        exact ⟨rfl, fun f hf => hl.trans (hlength _ List.mem_cons_self f hf)⟩
    · intro h
      exact ⟨_, Or.inr (Or.inr ⟨_, first, _, rfl, hfacts, h.2 first List.mem_cons_self, rfl⟩)⟩
  | predicate hrules => simp

theorem Declared.exists_declare_rule_iff {args : List String} {body : Rule α}
    (h : Declared facts rules node) (hn : nodes.get? n = node) :
    (∃ nodes', Program.declare nodes (.rule n args body line) = .ok nodes') ↔
      facts = [] ∧ ∀ first ∈ rules.head?, Rule.SamePattern args first.1 := by
  simp only [declare_rule_eq_ok_iff, hn]
  cases h with
  | nothing => simp
  | relation => simp
  | predicate hrules =>
    rw [List.head?_cons]
    constructor
    · intro h
      obtain ⟨nodes', ⟨e, -⟩ | ⟨p, aligned, e, ha, -⟩⟩ := h
      · cases e
      · cases e
        refine ⟨rfl, fun first hfirst => ?_⟩
        cases hfirst
        exact Rule.exists_align_iff.1 ⟨aligned, ha⟩
    · intro h
      obtain ⟨aligned, ha⟩ := Rule.exists_align_iff.2 (h.2 _ rfl)
      exact ⟨_, Or.inr ⟨_, aligned, rfl, ha, rfl⟩⟩

theorem Declared.declare_fact {terms : Fact α} (h : Declared facts rules node)
    (hn : nodes.get? n = node) (h' : Program.declare nodes (.fact n terms line) = .ok nodes') :
    ∃ node', nodes' = nodes.insert n node' ∧ Declared (facts ++ [terms]) rules (some node') := by
  rw [declare_fact_eq_ok_iff, hn] at h'
  cases h with
  | nothing =>
    rcases h' with ⟨-, e⟩ | ⟨_, e, -⟩ | ⟨_, _, _, e, -⟩
    · exact ⟨_, e, .relation⟩
    · cases e
    · cases e
  | @relation first rest =>
    rcases h' with ⟨e, -⟩ | ⟨r, e, hr, -⟩ | ⟨r, _, _, e, -, -, e'⟩
    · cases e
    · cases e
      obtain ⟨tail, hfacts⟩ := Relation.exists_facts_ofRows first rest
      rw [hfacts] at hr
      cases hr
    · cases e
      rw [Relation.insert_ofRows] at e'
      exact ⟨_, e', .relation⟩
  | predicate _ => rcases h' with ⟨e, -⟩ | ⟨_, e, -⟩ | ⟨_, _, _, e, -⟩ <;> cases e

theorem Declared.declare_rule {args : List String} {body : Rule α} (h : Declared facts rules node)
    (hn : nodes.get? n = node) (h' : Program.declare nodes (.rule n args body line) = .ok nodes') :
    ∃ node', nodes' = nodes.insert n node' ∧
      Declared facts (rules ++ [(args, body)]) (some node') := by
  rw [declare_rule_eq_ok_iff, hn] at h'
  cases h with
  | nothing =>
    rcases h' with ⟨-, e⟩ | ⟨_, _, e, -⟩
    · exact ⟨_, e, .predicate (.cons (if_pos rfl) .nil)⟩
    · cases e
  | relation => rcases h' with ⟨e, -⟩ | ⟨_, _, e, -⟩ <;> cases e
  | predicate hrules =>
    rcases h' with ⟨e, -⟩ | ⟨p, aligned, e, ha, e'⟩
    · cases e
    · cases e
      exact ⟨_, e', .predicate (List.rel_append hrules (.cons ha .nil))⟩

end Node

/-- **A statement can be declared just if it agrees with the earlier ones.** -/
theorem exists_declare_iff {ss : List (Statement α)} {nodes : Table String (Node α)}
    (h : Declares ss nodes) (hss : Consistent ss) (s : Statement α) :
    (∃ nodes', declare nodes s = .ok nodes') ↔ Agrees ss s := by
  cases s with
  | fact n terms line => exact (h.node n).exists_declare_fact_iff (hss n).length rfl
  | rule n args body line => exact (h.node n).exists_declare_rule_iff rfl

/-- A declaration writes for the name of the statement what is stated for it by then. -/
theorem exists_declared_of_declare {ss : List (Statement α)} {nodes nodes' : Table String (Node α)}
    (h : Declares ss nodes) {s : Statement α} (h' : declare nodes s = .ok nodes') :
    ∃ node, nodes' = nodes.insert s.name node ∧
      Declared (factsFor s.name (ss ++ [s])) (rulesFor s.name (ss ++ [s])) (some node) := by
  cases s with
  | fact n terms line =>
    rw [Statement.name, (for_concat_fact n ss terms line).1, (for_concat_fact n ss terms line).2]
    exact (h.node n).declare_fact rfl h'
  | rule n args body line =>
    rw [Statement.name, (for_concat_rule n ss args body line).1,
      (for_concat_rule n ss args body line).2]
    exact (h.node n).declare_rule rfl h'

theorem eraseDups_concat (l : List String) (a : String) :
    (l ++ [a]).eraseDups = if a ∈ l then l.eraseDups else l.eraseDups ++ [a] := by
  have single : [a].eraseDups = [a] := by simp [List.eraseDups_cons]
  by_cases h : a ∈ l
  · simp [List.eraseDups_append, List.removeAll, h]
  · simp [List.eraseDups_append, List.removeAll, h, single]

/-- **Declaring a statement adds it to the earlier ones.** -/
theorem Declares.declare {ss : List (Statement α)} {nodes nodes' : Table String (Node α)}
    (h : Declares ss nodes) {s : Statement α} (h' : declare nodes s = .ok nodes') :
    Declares (ss ++ [s]) nodes' := by
  obtain ⟨node, rfl, hnode⟩ := exists_declared_of_declare h h'
  refine ⟨?_, fun n => ?_⟩
  · rw [Table.keys_insert, h.keys, List.map_append, List.map_singleton, eraseDups_concat]
    simp only [List.mem_eraseDups]
  · by_cases e : s.name = n
    · rw [← e, Table.get?_insert_self]
      exact hnode
    · rw [Table.get?_insert_of_ne (Ne.symm e), (for_concat_of_ne e ss).1, (for_concat_of_ne e ss).2]
      exact h.node n

/-! ## All statements -/

theorem declareAll_concat_eq_ok_iff {nodes nodes' : Table String (Node α)} {ss : List (Statement α)}
    {s : Statement α} : declareAll nodes (ss ++ [s]) = .ok nodes' ↔
      ∃ next, declareAll nodes ss = .ok next ∧ Program.declare next s = .ok nodes' := by
  induction ss generalizing nodes with
  | nil =>
    have single : declareAll nodes [s] = Program.declare nodes s := by
      rw [declareAll]
      cases Program.declare nodes s <;> rfl
    rw [List.nil_append, single]
    constructor
    · exact fun h => ⟨nodes, rfl, h⟩
    · intro h
      obtain ⟨_, e, h⟩ := h
      cases e
      exact h
  | cons s' ss ih =>
    rw [List.cons_append, declareAll, declareAll]
    simp only [bind_eq_ok_iff, ih]
    constructor
    · intro h
      obtain ⟨first, hfirst, next, hnext, h⟩ := h
      exact ⟨next, ⟨first, hfirst, hnext⟩, h⟩
    · intro h
      obtain ⟨next, ⟨first, hfirst, hnext⟩, h⟩ := h
      exact ⟨first, hfirst, next, hnext, h⟩

theorem declares_of_declareAll {ss : List (Statement α)} {nodes : Table String (Node α)}
    (h : declareAll ∅ ss = .ok nodes) : Declares ss nodes := by
  induction ss using List.reverseRecOn generalizing nodes with
  | nil =>
    cases h
    exact ⟨rfl, fun _ => .nothing⟩
  | append_singleton ss s ih =>
    obtain ⟨next, hnext, hs⟩ := declareAll_concat_eq_ok_iff.1 h
    exact (ih hnext).declare hs

/-- **Statements make a program just if they are consistent.** -/
theorem exists_declareAll_iff {ss : List (Statement α)} :
    (∃ nodes, declareAll ∅ ss = .ok nodes) ↔ Consistent ss := by
  induction ss using List.reverseRecOn with
  | nil => exact ⟨fun _ => consistent_nil, fun _ => ⟨∅, rfl⟩⟩
  | append_singleton ss s ih =>
    rw [consistent_concat_iff, ← ih]
    constructor
    · intro h
      obtain ⟨nodes, h⟩ := h
      obtain ⟨next, hnext, hs⟩ := declareAll_concat_eq_ok_iff.1 h
      have hss := ih.1 ⟨next, hnext⟩
      exact ⟨⟨next, hnext⟩, (exists_declare_iff (declares_of_declareAll hnext) hss s).1 ⟨nodes, hs⟩⟩
    · rintro ⟨⟨next, hnext⟩, hs⟩
      have hss := ih.1 ⟨next, hnext⟩
      obtain ⟨nodes, h⟩ := (exists_declare_iff (declares_of_declareAll hnext) hss s).2 hs
      exact ⟨nodes, declareAll_concat_eq_ok_iff.2 ⟨next, hnext, h⟩⟩

/-! ## Texts -/

omit [DecidableEq α] in
/-- The statements of a text are determined by it, but for their lines. -/
theorem unplaced_eq_of_ofStatements {tokens : List Token} {ss ss' : List (Statement α)}
    (h : Grammar.OfStatements ss (tokens.map Token.symbol))
    (h' : Grammar.OfStatements ss' (tokens.map Token.symbol)) :
    ss.map Statement.unplaced = ss'.map Statement.unplaced := by
  obtain ⟨read, hread, e⟩ := Grammar.exists_readAll (Token.endOf tokens) h
  obtain ⟨read', hread', e'⟩ := Grammar.exists_readAll (Token.endOf tokens) h'
  rw [hread] at hread'
  cases hread'
  exact e.symm.trans e'

/-- **A text is accepted just if it is one of the grammar and its statements are consistent.** Then the
program is what they say. -/
theorem parse_accepts_iff {source : String} {tokens : List Token}
    (h : tokenize source = .ok tokens) :
    ((∃ p : Program α, parse source = .ok p) ↔
        ∃ ss : List (Statement α), Grammar.OfStatements ss (tokens.map Token.symbol) ∧ Consistent ss) ∧
      ∀ (p : Program α) (ss : List (Statement α)), parse source = .ok p →
        Grammar.OfStatements ss (tokens.map Token.symbol) → p.computed = ∅ ∧ Declares ss p.nodes := by
  have hlexes : Lexes source.toList (tokens.map Token.symbol) :=
    Lexes.exists_tokenize_iff.1 ⟨tokens, h, rfl⟩
  have symbols {w : List Symbol} (hw : Lexes source.toList w) : w = tokens.map Token.symbol := by
    obtain ⟨tokens', h', rfl⟩ := Lexes.exists_tokenize_iff.2 hw
    rw [h] at h'
    cases h'
    rfl
  refine ⟨⟨fun hp => ?_, fun hss => ?_⟩, fun p ss hp hss => ?_⟩
  · obtain ⟨p, hp⟩ := hp
    obtain ⟨-, w, ss, hw, hss, hdeclare⟩ := parse_eq_ok_iff.1 hp
    cases symbols hw
    exact ⟨ss, hss, exists_declareAll_iff.1 ⟨_, hdeclare⟩⟩
  · obtain ⟨ss, hss, hconsistent⟩ := hss
    obtain ⟨nodes, hdeclare⟩ := exists_declareAll_iff.2 hconsistent
    exact ⟨{ nodes }, parse_eq_ok_iff.2 ⟨rfl, _, ss, hlexes, hss, hdeclare⟩⟩
  · obtain ⟨h₀, w, ss', hw, hss', hdeclare⟩ := parse_eq_ok_iff.1 hp
    cases symbols hw
    have e := unplaced_eq_of_ofStatements hss' hss
    exact ⟨h₀, declares_of_declareAll (declareAll_of_unplaced e hdeclare)⟩

/-- Facts in two places, one of them twice, and two rules with other variables in their heads. -/
def tour : String :=
  "leg(a, b).\nreach(X, Y) :- leg(X, Y).\nleg(b, \"c\").\nreach(A, B) :- leg(A, X), reach(X, B).\nleg(a, b)."

theorem parse_accepts_tour :
    ∃ tokens, tokenize tour = .ok tokens ∧
      ∃ (p : Program) (ss : List Statement), parse tour = .ok p ∧
        Grammar.OfStatements ss (tokens.map Token.symbol) ∧ Consistent ss ∧ p.computed = ∅ ∧
        Declares ss p.nodes := by
  have of_isOk {ε β : Type} {x : Except ε β} (h : x.isOk = true) : ∃ b, x = .ok b := by
    cases x with
    | error e => cases h
    | ok b => exact ⟨b, rfl⟩
  obtain ⟨tokens, htokens⟩ := of_isOk (x := tokenize tour) (by decide +kernel)
  obtain ⟨p, hp⟩ := of_isOk (x := parse (α := Empty) tour) (by decide +kernel)
  obtain ⟨haccepts, hdeclares⟩ := parse_accepts_iff (α := Empty) htokens
  obtain ⟨ss, hss, hconsistent⟩ := haccepts.1 ⟨p, hp⟩
  exact ⟨tokens, htokens, p, ss, hp, hss, hconsistent, hdeclares p ss hp hss⟩

end Program

end Verdict

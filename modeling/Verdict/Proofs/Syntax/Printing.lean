import Verdict.Proofs.Syntax.Grammar
import Verdict.Proofs.Syntax.Printable

/-!
# What the printer writes

The written form of a printable program, statement by statement, is a piece of text that comes to
symbols of the grammar, for just this statement (`Statement.spellsClosed`, `Statement.ofStatement`).
The only terms that are not written as they are read are the quoted texts; `unquote_quoted` says that
nothing is lost on them.
-/

namespace Verdict

open Lexeme

variable {α : Type}

/-! ## Quoted texts -/

/-- A character is written with a backslash, or as itself if it is no backslash. -/
theorem escapeChar_cases (c : Char) :
    (∃ d, d ≠ '\n' ∧ Term.escapeChar c = ['\\', d] ∧ Token.unescape d = c) ∨
      (c ≠ '\\' ∧ c ≠ '"' ∧ Term.escapeChar c = [c]) := by
  unfold Term.escapeChar
  by_cases h : c = '\\' ∨ c = '"'
  · rw [if_pos h]
    rcases h with rfl | rfl
    · exact Or.inl ⟨'\\', by decide, rfl, rfl⟩
    · exact Or.inl ⟨'"', by decide, rfl, rfl⟩
  · rw [if_neg h]
    rw [not_or] at h
    by_cases hn : c = '\n'
    · subst hn
      exact Or.inl ⟨'n', by decide, rfl, rfl⟩
    · exact Or.inr ⟨h.1, h.2, if_neg hn⟩

/-- Escaping is undone. -/
theorem unescapeAll_escape (cs : List Char) :
    Token.unescapeAll (cs.flatMap Term.escapeChar) = cs := by
  induction cs with
  | nil => rfl
  | cons c cs ih =>
    rw [List.flatMap_cons]
    rcases escapeChar_cases c with ⟨d, _, e, hd⟩ | ⟨hc, _, e⟩
    · rw [e, List.cons_append, List.singleton_append, Token.unescapeAll, ih, hd]
    · rw [e, List.singleton_append, Token.unescapeAll, ih]
      intro _ _ e' _
      exact hc e'

/-- An escaped text is closed by the quote behind it. -/
theorem closeQuote_escape (cs rest : List Char) :
    closeQuote '"' (cs.flatMap Term.escapeChar ++ '"' :: rest) =
      some (cs.flatMap Term.escapeChar ++ ['"'], rest) := by
  induction cs with
  | nil => rfl
  | cons c cs ih =>
    rw [List.flatMap_cons, List.append_assoc]
    rcases escapeChar_cases c with ⟨d, hd, e, _⟩ | ⟨hc, hq, e⟩
    · rw [e, List.cons_append, List.singleton_append, closeQuote, if_neg hd, ih]
      rfl
    · rw [e, List.singleton_append, closeQuote, if_neg hq, if_neg hc, ih]
      · rfl
      · intro _ _ e' _
        exact hc e'

theorem spellsClosed_quoted (cs : List Char) :
    SpellsClosed ('"' :: cs.flatMap Term.escapeChar ++ ['"'])
      [(.text, String.ofList ('"' :: cs.flatMap Term.escapeChar ++ ['"']))] := by
  intro rest v hr
  have hscan : scan ('"' :: cs.flatMap Term.escapeChar ++ ['"'] ++ rest) =
      some (.token .text, '"' :: cs.flatMap Term.escapeChar ++ ['"'], rest) := by
    rw [List.append_assoc, List.cons_append, List.singleton_append]
    show (closeQuote '"' _).map _ = _
    rw [closeQuote_escape]
    rfl
  exact .token hscan hr

theorem unquote_quoted (cs : List Char) :
    Token.unquote (String.ofList ('"' :: cs.flatMap Term.escapeChar ++ ['"'])) =
      String.ofList cs := by
  unfold Token.unquote
  rw [String.toList_ofList, List.cons_append, List.tail_cons, List.dropLast_concat,
    unescapeAll_escape]

/-! ## Words -/

theorem spells_identifier {s : String} (h : IsIdentifier s) :
    Spells s.toList [(.identifier, s)] := by
  obtain ⟨⟨c, word, e, hc, hw⟩, hkey⟩ := h
  have hkind : wordKind (c :: word) = .identifier := e ▸ wordKind_eq_identifier_iff.2 hkey
  have := spells_small hc hw
  rw [hkind, ← e, String.ofList_toList] at this
  exact this

theorem spells_variable {s : String} (h : IsVariable s) : Spells s.toList [(.var, s)] := by
  obtain ⟨c, word, e, hc, hw⟩ := h
  have := spells_capital hc hw
  rw [← e, String.ofList_toList] at this
  exact this

theorem spells_truthWord (b : Bool) :
    Spells (Term.truthWord b).toList [(.truth b, Term.truthWord b)] := by
  have htrue : ∀ d ∈ ['r', 'u', 'e'], inWord d = true := List.all_eq_true.1 rfl
  have hfalse : ∀ d ∈ ['a', 'l', 's', 'e'], inWord d = true := List.all_eq_true.1 rfl
  cases b with
  | true => exact spells_small (c := 't') rfl htrue
  | false => exact spells_small (c := 'f') rfl hfalse

/-! ## Terms -/

section Written

variable [Foreign α]

/-- The symbol that a term is written with. -/
def Term.symbol : Term α → Symbol
  | .var x => (.var, x)
  | .text v => (if isBare v.toList then .identifier else .text, renderText v)
  | .truth b => (.truth b, truthWord b)
  | .foreign a => (.text, Foreign.shown a)

theorem Term.spells {t : Term α} (h : t.Printable) : Spells t.render.toList [t.symbol] := by
  cases t with
  | var x => exact spells_variable h
  | text v =>
    unfold Term.render Term.symbol Term.renderText
    by_cases hb : isBare v.toList = true
    · simp only [hb, if_true]
      exact spells_identifier (isIdentifier_iff.2 hb)
    · simp only [hb, if_false, Bool.false_eq_true, String.toList_ofList]
      exact (spellsClosed_quoted v.toList).spells
  | truth b => exact spells_truthWord b
  | foreign a => cases h

/-- A term is read from its symbol. -/
theorem Term.term?_symbol {t : Term α} (h : t.Printable) : Symbol.term? t.symbol = some t := by
  cases t with
  | var x => rfl
  | text v =>
    unfold Term.symbol Term.renderText
    by_cases hb : isBare v.toList = true
    · simp only [hb, if_true]
      rfl
    · simp only [hb, if_false, Bool.false_eq_true]
      show some (Term.text (Token.unquote _)) = _
      rw [unquote_quoted, String.ofList_toList]
  | truth b => rfl
  | foreign a => cases h

/-- The symbols that arguments are written with. -/
def argumentSymbols (ts : List (Term α)) : List Symbol :=
  (.lparen, "(") :: (List.intercalate [(.comma, ",")] (ts.map fun t => [t.symbol]) ++
    [(.rparen, ")")])

theorem ofArguments_symbols {ts : List (Term α)} (h : ∀ t ∈ ts, t.Printable) :
    Grammar.OfArguments ts (argumentSymbols ts) := by
  cases ts with
  | nil => exact .empty
  | cons t ts =>
    refine .some ?_
    induction ts generalizing t with
    | nil => exact .last (Term.term?_symbol (h t List.mem_cons_self))
    | cons u ts ih =>
      have hu := ih u fun x hx => h x (List.mem_cons_of_mem _ hx)
      rw [List.map_cons, List.map_cons, List.intercalate_cons_cons]
      exact .more (Term.term?_symbol (h t List.mem_cons_self)) hu

theorem spellsClosed_comma {layout : List Char} (h : ∀ c ∈ layout, isLayout c = true) :
    SpellsClosed (',' :: layout) [(.comma, ",")] :=
  (spellsClosed_mark (c := ',') rfl).append (spellsClosed_layout h)

theorem spellsClosed_atom {name : String} {ts : List (Term α)} (hn : IsIdentifier name)
    (h : ∀ t ∈ ts, t.Printable) :
    SpellsClosed (Term.renderAtom name ts).toList ((.identifier, name) :: argumentSymbols ts) := by
  have hsep : SpellsClosed [',', ' '] [(.comma, ",")] := spellsClosed_comma (List.all_eq_true.1 rfl)
  have hterms := Spells.intercalate hsep (Lexes.stops_cons.2 rfl) (List.cons_ne_nil _ _)
    fun t ht => Term.spells (h t ht)
  have hopen := (spells_identifier hn).append_closed (spellsClosed_mark (c := '(') rfl)
    (Lexes.stops_cons.2 rfl) (List.cons_ne_nil _ _)
  have hall := (hopen.append_spells hterms).append_closed (spellsClosed_mark (c := ')') rfl)
    (Lexes.stops_cons.2 rfl) (List.cons_ne_nil _ _)
  unfold Term.renderAtom argumentSymbols
  simp only [String.toList_append, String.toList_intercalate, List.map_map]
  exact hall

/-! ## Clauses and statements -/

/-- The symbols that a clause is written with. -/
def Clause.symbols (c : Clause α) : List Symbol :=
  (if c.negated then [(.negation, "not")] else []) ++
    (.identifier, c.relation) :: argumentSymbols c.terms

theorem Clause.spellsClosed {c : Clause α} (h : c.Printable) :
    SpellsClosed c.render.toList c.symbols := by
  have hatom := spellsClosed_atom h.relation h.terms
  have hword : ∀ d ∈ ['o', 't'], inWord d = true := List.all_eq_true.1 rfl
  have hspace : SpellsClosed [' '] [] := spellsClosed_layout (List.all_eq_true.1 rfl)
  have hnot : SpellsClosed ['n', 'o', 't', ' '] [(.negation, "not")] :=
    (spells_small (c := 'n') rfl hword).append_closed hspace (Lexes.stops_cons.2 rfl) (List.cons_ne_nil _ _)
  unfold Clause.render Clause.symbols
  rw [String.toList_append]
  cases c.negated with
  | true => exact hnot.append hatom
  | false => exact hatom

theorem Clause.ofClause {c : Clause α} (h : c.Printable) : Grammar.OfClause c c.symbols := by
  have hargs := ofArguments_symbols h.terms
  obtain ⟨relation, terms, negated⟩ := c
  cases negated with
  | true => exact .denied hargs
  | false => exact .plain hargs

/-- The symbols that a body is written with. -/
def Rule.symbols (rule : Rule α) : List Symbol :=
  List.intercalate [(.comma, ",")] (rule.map Clause.symbols)

theorem Rule.ofBody {rule : Rule α} (h : rule.Printable) : Grammar.OfBody rule rule.symbols := by
  obtain ⟨hne, hc⟩ := h
  induction rule with
  | nil => exact absurd rfl hne
  | cons c rule ih =>
    have hof := Clause.ofClause (hc c List.mem_cons_self)
    unfold Rule.symbols
    cases rule with
    | nil =>
      rw [List.map_singleton, List.intercalate_singleton]
      exact .last hof
    | cons d rule =>
      have hrest := ih (by simp) fun x hx => hc x (List.mem_cons_of_mem _ hx)
      rw [List.map_cons, List.map_cons, List.intercalate_cons_cons, List.append_assoc]
      exact .more hof hrest

namespace Statement

/-- The written form of a statement. -/
def render : Statement α → String
  | .fact name terms _ => Term.renderAtom name terms ++ "."
  | .rule name args body _ => Rule.render name args body

/-- The statement is one of a node that can be written. -/
def Printable : Statement α → Prop
  | .fact name terms _ => IsIdentifier name ∧ Term.Ground terms ∧ ∀ t ∈ terms, t.Printable
  | .rule name args body _ => IsIdentifier name ∧ (∀ x ∈ args, IsVariable x) ∧ body.Printable

/-- The symbols that a statement is written with. -/
def symbols : Statement α → List Symbol
  | .fact name terms _ => (.identifier, name) :: (argumentSymbols terms ++ [(.dot, ".")])
  | .rule name args body _ =>
    (.identifier, name) :: (argumentSymbols (α := α) (args.map .var) ++
      (.arrow, ":-") :: (body.symbols ++ [(.dot, ".")]))

theorem spellsClosed {s : Statement α} (h : s.Printable) :
    SpellsClosed s.render.toList s.symbols := by
  have hdot : SpellsClosed ['.'] [(.dot, ".")] := spellsClosed_mark (c := '.') rfl
  cases s with
  | fact name terms line =>
    obtain ⟨hn, _, ht⟩ := h
    unfold render symbols
    rw [String.toList_append]
    exact (spellsClosed_atom hn ht).append hdot
  | rule name args body line =>
    obtain ⟨hn, hargs, _, hbody⟩ := h
    have hvars : ∀ t ∈ args.map (.var : String → Term α), t.Printable := by
      intro t ht
      obtain ⟨x, hx, rfl⟩ := List.mem_map.1 ht
      exact hargs x hx
    have hspace : SpellsClosed [' '] [] := spellsClosed_layout (List.all_eq_true.1 rfl)
    have hindent : SpellsClosed ['\n', ' ', ' ', ' ', ' '] [] := spellsClosed_layout (List.all_eq_true.1 rfl)
    have hsep : SpellsClosed [',', '\n', ' ', ' ', ' ', ' '] [(.comma, ",")] :=
      spellsClosed_comma (List.all_eq_true.1 rfl)
    have hclauses : Spells (List.intercalate [',', '\n', ' ', ' ', ' ', ' ']
        (body.map (String.toList ∘ Clause.render))) body.symbols :=
      Spells.intercalate hsep (Lexes.stops_cons.2 rfl) (List.cons_ne_nil _ _)
        fun c hc => (Clause.spellsClosed (hbody c hc)).spells
    have hhead := (spellsClosed_atom hn hvars).append
      (hspace.append (spellsClosed_arrow.append hindent))
    have hall := (hhead.append_spells hclauses).append_closed hdot (Lexes.stops_cons.2 rfl)
      (List.cons_ne_nil _ _)
    unfold render symbols Rule.render
    simp only [String.toList_append, String.toList_intercalate, List.map_map, List.append_assoc] at hall ⊢
    exact hall

theorem ofStatement {s : Statement α} (h : s.Printable) : Grammar.OfStatement s s.symbols := by
  cases s with
  | fact name terms line => exact .fact (ofArguments_symbols h.2.2) h.2.1
  | rule name args body line =>
    obtain ⟨_, hargs, hbody⟩ := h
    refine .rule (ofArguments_symbols fun t ht => ?_) (Rule.ofBody hbody)
    obtain ⟨x, hx, rfl⟩ := List.mem_map.1 ht
    exact hargs x hx

theorem ofStatements {ss : List (Statement α)} (h : ∀ s ∈ ss, s.Printable) :
    Grammar.OfStatements ss (ss.flatMap symbols) := by
  induction ss with
  | nil => exact .nil
  | cons s ss ih =>
    rw [List.flatMap_cons]
    exact .cons (ofStatement (h s List.mem_cons_self))
      (ih fun x hx => h x (List.mem_cons_of_mem _ hx))

end Statement

/-! ## Programs -/

namespace Node

/-- The statements of a node. -/
def statements (name : String) : Node α → List (Statement α)
  | .relation r => r.facts.map (.fact name · 0)
  | .predicate p => p.rules.map (.rule name p.args · 0)

theorem render_eq (name : String) (node : Node α) :
    node.render name = (node.statements name).map Statement.render := by
  cases node with
  | relation r =>
    unfold Node.render statements
    rw [List.map_map]
    rfl
  | predicate p =>
    unfold Node.render statements
    rw [List.map_map]
    rfl

omit [Foreign α] in
theorem printable_statements {name : String} {node : Node α} (hn : IsIdentifier name)
    (h : node.Printable) : ∀ s ∈ node.statements name, s.Printable := by
  intro s hs
  cases node with
  | relation r =>
    obtain ⟨f, hf, rfl⟩ := List.mem_map.1 hs
    exact ⟨hn, h.2.1 f hf⟩
  | predicate p =>
    obtain ⟨rule, hr, rfl⟩ := List.mem_map.1 hs
    exact ⟨hn, h.1, h.2.2 rule hr⟩

omit [Foreign α] in
theorem statements_ne_nil {name : String} {node : Node α} (h : node.Printable) :
    node.statements name ≠ [] := by
  cases node with
  | relation r =>
    intro e
    exact h.1 (List.map_eq_nil_iff.1 e)
  | predicate p =>
    intro e
    exact h.2.1 (List.map_eq_nil_iff.1 e)

theorem spells {name : String} {node : Node α} (hn : IsIdentifier name) (h : node.Printable) :
    Spells ("\n".intercalate (node.render name)).toList
      ((node.statements name).flatMap Statement.symbols) := by
  have hline : SpellsClosed ['\n'] [] := spellsClosed_layout (List.all_eq_true.1 rfl)
  rw [render_eq, String.toList_intercalate, List.map_map]
  exact Spells.concat hline (Lexes.stops_cons.2 rfl) (List.cons_ne_nil _ _) fun s hs =>
    (Statement.spellsClosed (printable_statements hn h s hs)).spells

end Node

namespace Program

/-- The statements of a program, node by node. -/
def statements (p : Program α) : List (Statement α) :=
  p.nodes.entries.flatMap fun e => e.2.statements e.1

omit [Foreign α] in
theorem printable_statements {p : Program α} (h : p.Printable) :
    ∀ s ∈ p.statements, s.Printable := by
  intro s hs
  obtain ⟨e, he, hs⟩ := List.mem_flatMap.1 hs
  exact Node.printable_statements (h e he).1 (h e he).2 s hs

/-- The written forms of the statements, node by node. -/
def sections (p : Program α) : List (List String) :=
  p.nodes.entries.map fun e => e.2.render e.1

/-- Every node says something, so every node has a section. -/
theorem filter_sections_of_printable {p : Program α} (h : p.Printable) :
    p.sections.filter (fun lines => ! lines.isEmpty) = p.sections := by
  rw [List.filter_eq_self]
  intro lines hm
  obtain ⟨e, he, rfl⟩ := List.mem_map.1 hm
  rw [Node.render_eq]
  cases hs : e.2.statements e.1 with
  | nil => exact absurd hs (Node.statements_ne_nil (h e he).2)
  | cons s ss => rfl

theorem render_eq_of_printable {p : Program α} (h : p.Printable) :
    p.render false = "\n\n".intercalate (p.sections.map ("\n".intercalate ·)) ++ "\n" := by
  show "\n\n".intercalate ((List.filter (fun lines : List String => ! lines.isEmpty) p.sections ++
    []).map ("\n".intercalate ·)) ++ "\n" = _
  rw [filter_sections_of_printable h, List.append_nil]

/-- **The written form of a printable program comes to the symbols of its statements.** -/
theorem lexes_render {p : Program α} (h : p.Printable) :
    Lexes (p.render false).toList (p.statements.flatMap Statement.symbols) := by
  have hline : SpellsClosed ['\n'] [] := spellsClosed_layout (List.all_eq_true.1 rfl)
  have hgap : SpellsClosed ['\n', '\n'] [] := spellsClosed_layout (List.all_eq_true.1 rfl)
  have hnode : ∀ e ∈ p.nodes.entries, Spells ("\n".intercalate (e.2.render e.1)).toList
      ((e.2.statements e.1).flatMap Statement.symbols) :=
    fun e he => Node.spells (h e he).1 (h e he).2
  have hnodes := Spells.concat hgap (Lexes.stops_cons.2 rfl) (List.cons_ne_nil _ _) hnode
  have hall := (hnodes.append_closed hline (Lexes.stops_cons.2 rfl) (List.cons_ne_nil _ _)).spells.lexes
  rw [render_eq_of_printable h, String.toList_append, String.toList_intercalate, sections,
    List.map_map, List.map_map, statements, List.flatMap_assoc]
  rw [List.append_nil] at hall
  exact hall

end Program

end Written

end Verdict

import Verdict.Proofs.Syntax.Layout
import Verdict.Proofs.Syntax.RoundTrip

/-!
# Computed facts in print

What is computed is printed behind what is declared, as atoms without a dot. They begin no statement: an
atom that is not followed by a dot or an arrow is refused (`Grammar.exists_read_error`), whatever stands in
its quoted texts, and what follows a computed fact is the name of the next one or the end. So a print that
shows computed facts is no program text, and one that has none to show is read as what is declared
(`Program.parse_print_computed`).
-/

namespace Verdict

open Lexeme

variable {α : Type}

/-! ## What computed facts come to -/

/-- The computed facts with their names, in order. -/
def Store.atoms (s : Store α) : List (String × Fact α) :=
  s.entries.flatMap fun (name, r) => r.facts.map (name, ·)

/-- Each name is an identifier, and each fact a row of constants. -/
def Store.Printable (s : Store α) : Prop :=
  ∀ e ∈ s.entries, IsIdentifier e.1 ∧ ∀ f ∈ e.2.facts, Term.Ground f ∧ ∀ t ∈ f, t.Printable

instance (s : Store α) : Decidable s.Printable :=
  inferInstanceAs (Decidable (∀ e ∈ s.entries,
    IsIdentifier e.1 ∧ ∀ f ∈ e.2.facts, Term.Ground f ∧ ∀ t ∈ f, t.Printable))

namespace Store

theorem atoms_eq_nil_iff {s : Store α} : s.atoms = [] ↔ ∀ r ∈ s.values, r.facts = [] := by
  simp only [atoms, Table.values, List.flatMap_eq_nil_iff, List.map_eq_nil_iff, List.forall_mem_map]

theorem Printable.atoms {s : Store α} (h : s.Printable) :
    ∀ a ∈ s.atoms, IsIdentifier a.1 ∧ ∀ t ∈ a.2, t.Printable := by
  intro a ha
  obtain ⟨⟨name, r⟩, he, ha⟩ := List.mem_flatMap.1 ha
  obtain ⟨f, hf, rfl⟩ := List.mem_map.1 ha
  obtain ⟨hname, hfacts⟩ := h _ he
  exact ⟨hname, (hfacts f hf).2⟩

variable [Foreign α]

theorem render_eq (s : Store α) : s.render = s.atoms.map fun a => Term.renderAtom a.1 a.2 := by
  unfold Store.render Store.atoms
  simp only [List.map_flatMap, List.map_map]
  rfl

/-- The symbols that computed facts are written with. -/
def symbols (atoms : List (String × Fact α)) : List Symbol :=
  atoms.flatMap fun a => (.identifier, a.1) :: argumentSymbols a.2

end Store

/-! ## Atoms without a dot -/

namespace Grammar

open Statement

/-- An atom begins a statement only in front of a dot or an arrow. -/
theorem exists_read_error (stop : Position) {name : String} {ts : List (Term α)} {w v : List Symbol}
    (h : OfArguments ts w) (hv : NotFirst [.lparen, .dot, .arrow] v) {tokens : List Token}
    (e : tokens.map Token.symbol = (.identifier, name) :: (w ++ v)) :
    ∃ error, Statement.read (α := α) stop tokens = .error error := by
  have hopen : NotFirst [.lparen] v := fun s hs hmem =>
    hv s hs (List.mem_cons.2 (Or.inl (List.mem_singleton.1 hmem)))
  obtain ⟨n, more, hname, -, hmore⟩ := exists_expect stop e
  obtain ⟨args, rest, hargs, -, hrest⟩ := exists_readArguments stop h hopen hmore
  have hfirst (t : Token) (more : List Token) (ht : rest = t :: more) :
      t.kind ∉ [TokenKind.lparen, .dot, .arrow] := hv t.symbol (by rw [← hrest, ht]; rfl)
  obtain ⟨error, hexpect⟩ : ∃ error, expect stop .arrow rest = .error error := by
    cases rest with
    | nil => exact ⟨_, rfl⟩
    | cons t more => exact ⟨_, if_neg fun hk => hfirst t more rfl (by simp [hk])⟩
  have hrule : readRule stop n args rest = .error error := by
    rw [readRule, hexpect]
    rfl
  refine ⟨error, ?_⟩
  cases rest with
  | nil =>
    simp only [Statement.read, hname, hargs, bind, Except.bind]
    exact hrule
  | cons t more =>
    have hdot : t.kind ≠ .dot := fun hk => hfirst t more rfl (by simp [hk])
    simp only [Statement.read, hname, hargs, hdot, if_false, bind, Except.bind]
    exact hrule

/-- Atoms one behind the other are refused at the first of them. -/
theorem exists_readAll_error [Foreign α] (stop : Position) {atoms : List (String × Fact α)}
    (hatoms : ∀ a ∈ atoms, ∀ t ∈ a.2, t.Printable) (hne : atoms ≠ []) {tokens : List Token}
    (e : tokens.map Token.symbol = Store.symbols atoms) :
    ∃ error, readAll (α := α) stop tokens = ⟨[], some error⟩ := by
  cases atoms with
  | nil => exact absurd rfl hne
  | cons a rest =>
    have hfollow : NotFirst [.lparen, .dot, .arrow] (Store.symbols rest) := by
      cases rest with
      | nil => exact fun _ h => nomatch h
      | cons b rest => exact notFirst_cons (by decide)
    have hargs := ofArguments_symbols (hatoms a List.mem_cons_self)
    obtain ⟨error, herror⟩ := exists_read_error stop hargs hfollow e
    obtain ⟨t, more, rfl, -⟩ := List.map_eq_cons_iff.1 e
    exact ⟨error, readAll_of_error stop herror⟩

end Grammar

/-! ## Prints with computed facts -/

namespace Program

section Written

variable [Foreign α]

/-- The line over the computed facts. -/
def computedHeading : String := "% Inferred statements:"

/-- The text is cut behind each section of the declared nodes, and behind each line of the last one. -/
theorem toList_render_computed {p : Program α} (h : p.Printable) :
    (p.render true).toList =
      (p.nodes.entries.flatMap fun e => ("\n".intercalate (e.2.render e.1)).toList ++ ['\n', '\n']) ++
        ((computedHeading.toList ++ ['\n']) ++
          p.computed.atoms.flatMap fun a => (Term.renderAtom a.1 a.2).toList ++ ['\n']) := by
  have hrender : p.render true =
      "\n\n".intercalate (p.sections.map ("\n".intercalate ·) ++
        ["\n".intercalate (computedHeading :: p.computed.render)]) ++ "\n" := by
    show "\n\n".intercalate ((List.filter (fun lines : List String => ! lines.isEmpty) p.sections ++
      [computedHeading :: p.computed.render]).map ("\n".intercalate ·)) ++ "\n" = _
    rw [filter_sections_of_printable h, List.map_append, List.map_singleton]
  have hlines : ('\n' :: []).intercalate
      ((computedHeading :: p.computed.render).map String.toList) ++ ['\n'] =
        (computedHeading.toList ++ ['\n']) ++
          p.computed.atoms.flatMap fun a => (Term.renderAtom a.1 a.2).toList ++ ['\n'] := by
    rw [Text.intercalate_append_self _ (by simp), List.map_cons, List.flatMap_cons, Store.render_eq,
      List.map_map, List.flatMap_map]
    rfl
  rw [hrender, String.toList_append, String.toList_intercalate, List.map_append, List.map_singleton,
    String.toList_intercalate]
  show List.intercalate ['\n', '\n'] (_ ++ [List.intercalate ['\n'] _]) ++ ['\n'] = _
  rw [Text.intercalate_concat, List.append_assoc, hlines, sections, List.map_map, List.map_map,
    List.flatMap_map]
  rfl

/-- The print of what is declared and computed comes to the symbols of the statements, and then to those
of the computed facts. -/
theorem lexes_render_computed {p : Program α} (h : p.Printable) (hc : p.computed.Printable) :
    Lexes (p.render true).toList
      (p.statements.flatMap Statement.symbols ++ Store.symbols p.computed.atoms) := by
  have hline : SpellsClosed ['\n'] [] := spellsClosed_layout (List.all_eq_true.1 rfl)
  have hgap : SpellsClosed ['\n', '\n'] [] := spellsClosed_layout (List.all_eq_true.1 rfl)
  have hnodes : SpellsClosed
      (p.nodes.entries.flatMap fun e => ("\n".intercalate (e.2.render e.1)).toList ++ ['\n', '\n'])
      (p.nodes.entries.flatMap fun e => (e.2.statements e.1).flatMap Statement.symbols) := by
    refine SpellsClosed.flatMap fun e he => ?_
    have hnode := (Node.spells (h e he).1 (h e he).2).append_closed hgap (Lexes.stops_cons.2 rfl)
      (List.cons_ne_nil _ _)
    rw [List.append_nil] at hnode
    exact hnode
  have hheading : SpellsClosed (computedHeading.toList ++ ['\n']) [] :=
    Gap.spells (@Gap.comment " Inferred statements:".toList [] (by simp) .nil)
  have hfacts : SpellsClosed
      (p.computed.atoms.flatMap fun a => (Term.renderAtom a.1 a.2).toList ++ ['\n'])
      (Store.symbols p.computed.atoms) := by
    refine SpellsClosed.flatMap fun a ha => ?_
    have hatom := (spellsClosed_atom (hc.atoms a ha).1 (hc.atoms a ha).2).append hline
    rw [List.append_nil] at hatom
    exact hatom
  have hall := (hnodes.append (hheading.append hfacts)).spells.lexes
  rw [toList_render_computed h, statements, List.flatMap_assoc]
  exact hall

/-- What is computed can be printed as well. -/
theorem print_computed_eq_render {p : Program α} (h : p.Printable) (hc : p.computed.Printable) :
    p.print true = .ok (p.render true) := by
  refine Term.unlessForeign_of_printable (fun t ht => ?_) _
  rw [terms, if_pos rfl] at ht
  rcases List.mem_append.1 ht with ht | ht
  · exact printable_terms h t ht
  · obtain ⟨r, hr, ht⟩ := List.mem_flatMap.1 ht
    obtain ⟨e, he, rfl⟩ := List.mem_map.1 hr
    obtain ⟨f, hf, ht⟩ := List.mem_flatten.1 ht
    exact ((hc e he).2 f hf).2 t ht

end Written

variable [DecidableEq α] [Foreign α] {p : Program α}

/-- Without computed facts the heading is a comment behind the declared nodes. -/
theorem parse_render_of_no_facts (h : p.Printable) (hc : p.computed.Printable)
    (hnone : p.computed.atoms = []) : parse (p.render true) = .ok { nodes := p.nodes } := by
  have hlexes := lexes_render_computed h hc
  rw [hnone, Store.symbols, List.flatMap_nil, List.append_nil] at hlexes
  exact parse_eq_ok_iff.2 ⟨rfl, _, _, hlexes, Statement.ofStatements (printable_statements h),
    declareAll_statements h⟩

/-- The statements before the first computed fact make up the declared nodes, so it is the fact that is
reported. -/
theorem exists_parse_render_error (h : p.Printable) (hc : p.computed.Printable)
    (hsome : p.computed.atoms ≠ []) :
    ∃ e, parse (α := α) (p.render true) = .error (.form e) := by
  obtain ⟨tokens, htokens, hsymbols⟩ := Lexes.exists_tokenize_iff.2 (lexes_render_computed h hc)
  obtain ⟨ss, rest, hss, hrest, hread⟩ := Grammar.exists_readAll_append (Token.endOf tokens)
    (Statement.ofStatements (printable_statements h)) hsymbols
  obtain ⟨e, he⟩ := Grammar.exists_readAll_error (α := α) (Token.endOf tokens)
    (fun a ha => (hc.atoms a ha).2) hsome hrest
  have hreading : Reading.ofTokens tokens = ⟨ss, some e⟩ := by
    rw [Reading.ofTokens, hread _ he, List.append_nil]
  refine ⟨e, ?_⟩
  rw [parse, htokens]
  show ofReading (Reading.ofTokens tokens) = _
  rw [hreading, ofReading, declareAll_of_unplaced hss.symm (declareAll_statements h)]

/-- **Computed facts in print are never read as declared ones.** A print that shows what is computed is
read if there is nothing to show, and then as the declared nodes; otherwise it has an error of form. -/
theorem parse_print_computed (h : p.Printable) (hc : p.computed.Printable) :
    ∃ text, p.print true = .ok text ∧
      ((∃ q : Program α, parse text = .ok q) ↔ ∀ r ∈ p.computed.values, r.facts = []) ∧
      (∀ q : Program α, parse text = .ok q → q = { nodes := p.nodes }) ∧
      ∀ e, parse (α := α) text = .error e → ∃ e', e = .form e' := by
  refine ⟨p.render true, print_computed_eq_render h hc, ?_⟩
  rw [← Store.atoms_eq_nil_iff]
  by_cases hnone : p.computed.atoms = []
  · have hparse := parse_render_of_no_facts h hc hnone
    refine ⟨iff_of_true ⟨_, hparse⟩ hnone, fun q hq => ?_, fun e he => ?_⟩
    · rw [hparse] at hq
      exact (Except.ok.inj hq).symm
    · rw [hparse] at he
      cases he
  · obtain ⟨e, hparse⟩ := exists_parse_render_error h hc hnone
    rw [hparse]
    refine ⟨iff_of_false (fun hq => ?_) hnone, fun q hq => ?_, fun e' he => ?_⟩
    · obtain ⟨q, hq⟩ := hq
      cases hq
    · cases hq
    · exact ⟨e, (Except.error.inj he).symm⟩

/-- Computed facts whose texts hold what ends a statement, what goes on with one, and a comment. -/
def quotations : Program where
  nodes := .ofList
    [("entry", .relation (.ofRows [[.text "a"]])),
     ("open", .predicate { args := ["X"], rules := [[⟨"entry", [.var "X"], false⟩]] })]
  computed := .ofList
    [("open", .ofRows [[.text "a). entry(b)."], [.text " :- "], [.text "5%\nentry(b)."], [.truth true]])]

/-- The same nodes are read if nothing was found. -/
theorem parse_print_computed_quotations :
    quotations.Printable ∧ quotations.computed.Printable ∧
      (∃ text, quotations.print true = .ok text ∧ ∃ e, parse (α := Empty) text = .error (.form e)) ∧
      ∃ text, (quotations.withComputed (.ofList [("open", ∅)])).print true = .ok text ∧
        parse text = .ok { nodes := quotations.nodes } := by
  have hnodes : quotations.Printable := by decide
  have hfacts : quotations.computed.Printable := by decide
  refine ⟨hnodes, hfacts, ?_, ?_⟩
  · obtain ⟨text, hprint, hread, -, hform⟩ := parse_print_computed hnodes hfacts
    refine ⟨text, hprint, ?_⟩
    cases hp : parse (α := Empty) text with
    | ok q => exact absurd (hread.1 ⟨q, hp⟩) (by decide)
    | error e =>
      obtain ⟨e', rfl⟩ := hform e hp
      exact ⟨e', rfl⟩
  · obtain ⟨text, hprint, hread, hsame, -⟩ :=
      parse_print_computed (p := quotations.withComputed (.ofList [("open", ∅)])) hnodes (by decide)
    obtain ⟨q, hq⟩ := hread.2 (by decide)
    obtain rfl := hsame q hq
    exact ⟨text, hprint, hq⟩

end Program

end Verdict

import Verdict.Proofs.Syntax.Accepted

/-!
# Printing and reading back

The main statement about texts (`Program.parse_print`): what is printed reads back as the same nodes in
the same order, and every program that a text is read as can be printed, so that a text and its
reprint mean the same.
-/

namespace Verdict

variable {α : Type}

theorem Term.foreign?_of_printable {t : Term α} (h : t.Printable) : t.foreign? = none := by
  cases t with
  | var x => rfl
  | text s => rfl
  | truth b => rfl
  | foreign a => cases h

/-- Nothing is refused that holds no foreign value. -/
theorem Term.unlessForeign_of_printable {terms : List (Term α)} (h : ∀ t ∈ terms, t.Printable)
    (written : String) : Term.unlessForeign terms written = .ok written := by
  have hnone : terms.findSome? Term.foreign? = none := by
    rw [List.findSome?_eq_none_iff]
    exact fun t ht => Term.foreign?_of_printable (h t ht)
  rw [Term.unlessForeign, hnone]

theorem Node.printable_terms {node : Node α} (h : node.Printable) : ∀ t ∈ node.terms, t.Printable := by
  intro t ht
  cases node with
  | relation r =>
    obtain ⟨f, hf, ht⟩ := List.mem_flatten.1 ht
    exact (h.2.1 f hf).2 t ht
  | predicate p =>
    obtain ⟨rule, hr, ht⟩ := List.mem_flatMap.1 ht
    obtain ⟨c, hc, ht⟩ := List.mem_flatMap.1 ht
    exact ((h.2.2 rule hr).2 c hc).terms t ht

namespace Program

theorem printable_terms {p : Program α} (h : p.Printable) :
    ∀ t ∈ p.nodes.values.flatMap Node.terms, t.Printable := by
  intro t ht
  obtain ⟨node, hnode, ht⟩ := List.mem_flatMap.1 ht
  obtain ⟨e, he, rfl⟩ := List.mem_map.1 hnode
  exact Node.printable_terms (h e he).2 t ht

/-- The printer refuses nothing that can be written. -/
theorem print_eq_render [Foreign α] {p : Program α} (h : p.Printable) :
    p.print false = .ok (p.render false) := by
  refine Term.unlessForeign_of_printable ?_ _
  rw [terms, if_neg Bool.false_ne_true, List.append_nil]
  exact printable_terms h

variable [DecidableEq α] [Foreign α]

/-- The written form of a printable program is read as its nodes. -/
theorem parse_render {p : Program α} (h : p.Printable) :
    parse (p.render false) = .ok { nodes := p.nodes } :=
  parse_eq_ok_iff.2 ⟨rfl, _, _, lexes_render h, Statement.ofStatements (printable_statements h),
    declareAll_statements h⟩

/-- **Printing and reading are inverse to each other.** A printable program is printed, and what is
printed reads back as its nodes, in order. And the program that a text is read as is printable and
holds nothing computed; so it is printed as a text that is read as this program again. -/
theorem parse_print :
    (∀ p : Program α, p.Printable →
      ∃ text, p.print false = .ok text ∧ parse text = .ok { nodes := p.nodes }) ∧
    ∀ (source : String) (p : Program α), parse source = .ok p →
      p.Printable ∧ p.computed = ∅ ∧ ∃ text, p.print false = .ok text ∧ parse text = .ok p := by
  have print_parse (p : Program α) (h : p.Printable) :
      ∃ text, p.print false = .ok text ∧ parse text = .ok { nodes := p.nodes } :=
    ⟨_, print_eq_render h, parse_render h⟩
  refine ⟨print_parse, fun source p h => ?_⟩
  have hprintable := printable_of_parse h
  have hcomputed := (parse_eq_ok_iff.1 h).1
  obtain ⟨text, hprint, hparse⟩ := print_parse p hprintable
  obtain ⟨nodes, computed⟩ := p
  cases hcomputed
  exact ⟨hprintable, rfl, text, hprint, hparse⟩

/-- Keywords, quotes and line ends as constants, a fact and a head without arguments, a head that
repeats a variable, and a variable that looks like a renamed one. -/
def ledger : Program where
  nodes := .ofList
    [("entry", .relation (.ofRows
       [[.text "not", .truth true], [.text "true", .text "a\\\"\n"], [.text "", .text "été"]])),
     ("open", .relation (.ofRows [[]])),
     ("pair", .predicate
       { args := ["X", "X"]
         rules :=
           [[⟨"entry", [.var "X", .var "X_1"], false⟩, ⟨"open", [], true⟩],
            [⟨"entry", [.var "X", .text "Y"], false⟩]] }),
     ("any", .predicate { args := [], rules := [[⟨"pair", [.var "X", .truth false], false⟩]] })]

theorem parse_print_ledger :
    ledger.Printable ∧ (∃ text, ledger.print false = .ok text ∧ parse text = .ok ledger) ∧
      ∃ source, parse source = .ok ledger ∧
        ∃ text, ledger.print false = .ok text ∧ parse text = .ok ledger := by
  have h : ledger.Printable := by decide
  have hsource : parse (ledger.render false) = .ok ledger := parse_render h
  exact ⟨h, parse_print.1 ledger h, _, hsource, (parse_print.2 _ ledger hsource).2.2⟩

end Program

end Verdict

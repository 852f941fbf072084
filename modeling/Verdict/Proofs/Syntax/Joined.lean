import Verdict.Proofs.Syntax.Declarations
import Verdict.Proofs.Syntax.Lexemes

/-!
# Texts one behind the other

A line feed between two texts ends a comment, goes on no word and adds nothing itself, so the symbols of
the whole are those of the two texts (`Lexes.append_line`). Statements about other names are put
together behind the nodes that are there already as if there were none (`declareAll_behind`). So two programs
without a common name make up one (`parse_append`).
-/

namespace Verdict

open Lexeme

theorem Lexes.append_line {cs rest : List Char} {w v : List Symbol} (h : Lexes cs w)
    (h' : Lexes ('\n' :: rest) v) : Lexes (cs ++ '\n' :: rest) (w ++ v) := by
  have hfeed : Stops ('\n' :: rest) := stops_cons.2 rfl
  induction h with
  | done => exact h'
  | @skip cs text more kind w hscan hkind _ ih =>
    obtain ⟨rfl, hstands⟩ := scan_eq_some_iff.1 hscan
    rw [List.append_assoc]
    cases kind with
    | token k => exact absurd rfl (hkind k)
    | layout =>
      -- The layout may go on behind the line feed, so it is not the same lexeme as before.
      cases hstands with
      | layout _ htext _ => exact spellsClosed_layout htext _ _ ih
    | comment =>
      cases hstands with
      | comment hbody hstop =>
        have hend : ∀ c ∈ (more ++ '\n' :: rest).head?, c = '\n' := by
          cases more with
          | nil => simp
          | cons d more => simpa using hstop
        exact .skip (scan_of_stands (.comment hbody hend)) hkind ih
  | @token cs text more kind w hscan _ ih =>
    obtain ⟨rfl, hstands⟩ := scan_eq_some_iff.1 hscan
    rw [List.append_assoc, List.cons_append]
    exact .token (scan_of_stands (hstands.of_stops fun hstops => hstops.append hfeed)) ih

namespace Program

variable {α : Type} [DecidableEq α]

/-- Only what a table has at the name of a statement matters for it. -/
theorem exists_insert_of_declare {nodes next : Table String (Node α)} {s : Statement α}
    (h : declare nodes s = .ok next) :
    ∃ node, next = nodes.insert s.name node ∧ ∀ others : Table String (Node α),
      others.get? s.name = nodes.get? s.name → declare others s = .ok (others.insert s.name node) := by
  cases s with
  | fact name terms line =>
    rcases declare_fact_eq_ok_iff.1 h with ⟨hn, rfl⟩ | ⟨r, hr, hnil, rfl⟩ | ⟨r, f, fs, hr, hf, hl, rfl⟩
    · refine ⟨_, rfl, fun others e => declare_fact_eq_ok_iff.2 (Or.inl ⟨e.trans hn, rfl⟩)⟩
    · refine ⟨_, rfl, fun others e => declare_fact_eq_ok_iff.2 (Or.inr (Or.inl ?_))⟩
      exact ⟨r, e.trans hr, hnil, rfl⟩
    · refine ⟨_, rfl, fun others e => declare_fact_eq_ok_iff.2 (Or.inr (Or.inr ?_))⟩
      exact ⟨r, f, fs, e.trans hr, hf, hl, rfl⟩
  | rule name args body line =>
    rcases declare_rule_eq_ok_iff.1 h with ⟨hn, rfl⟩ | ⟨p, aligned, hp, ha, rfl⟩
    · exact ⟨_, rfl, fun others e => declare_rule_eq_ok_iff.2 (Or.inl ⟨e.trans hn, rfl⟩)⟩
    · refine ⟨_, rfl, fun others e => declare_rule_eq_ok_iff.2 (Or.inr ?_)⟩
      exact ⟨p, aligned, e.trans hp, ha, rfl⟩

/-- Statements about other names are declared behind the nodes that are there. -/
theorem declareAll_behind {front nodes both next : Table String (Node α)} {ss : List (Statement α)}
    (hss : ∀ s ∈ ss, s.name ∉ front.keys) (hboth : both.entries = front.entries ++ nodes.entries)
    (h : declareAll nodes ss = .ok next) :
    ∃ all, declareAll both ss = .ok all ∧ all.entries = front.entries ++ next.entries := by
  induction ss generalizing nodes both with
  | nil =>
    cases h
    exact ⟨both, rfl, hboth⟩
  | cons s ss ih =>
    obtain ⟨hs, hss⟩ := List.forall_mem_cons.1 hss
    obtain ⟨mid, hmid, h⟩ := bind_eq_ok_iff.1 h
    obtain ⟨node, rfl, hdeclare⟩ := exists_insert_of_declare hmid
    have hstep := hdeclare both (Table.get?_of_append hboth hs)
    rw [declareAll, hstep]
    exact ih hss (Table.insert_of_append hboth hs node) h

/-- **Texts are put together as programs are.** -/
theorem parse_append {a b : String} {p q : Program α} (ha : parse a = .ok p) (hb : parse b = .ok q)
    (hnames : ∀ name ∈ p.nodes.keys, name ∉ q.nodes.keys) :
    ∃ r : Program α, parse (a ++ "\n" ++ b) = .ok r ∧ r.computed = ∅ ∧
      r.nodes.entries = p.nodes.entries ++ q.nodes.entries := by
  obtain ⟨-, w, ss, hw, hss, hp⟩ := parse_eq_ok_iff.1 ha
  obtain ⟨-, v, ss', hv, hss', hq⟩ := parse_eq_ok_iff.1 hb
  have hkeys : ∀ s ∈ ss', s.name ∉ p.nodes.keys := by
    intro s hs hmem
    apply hnames s.name hmem
    rw [(declares_of_declareAll hq).keys, List.mem_eraseDups]
    exact List.mem_map_of_mem hs
  have hboth : p.nodes.entries = p.nodes.entries ++ (∅ : Table String (Node α)).entries :=
    (List.append_nil _).symm
  obtain ⟨all, hall, hentries⟩ := declareAll_behind hkeys hboth hq
  have htext : (a ++ "\n" ++ b).toList = a.toList ++ '\n' :: b.toList := by simp
  have hlexes : Lexes (a ++ "\n" ++ b).toList (w ++ v) := by
    rw [htext]
    exact hw.append_line (hv.layout rfl)
  have hdeclare : declareAll ∅ (ss ++ ss') = .ok all := by
    rw [declareAll_append hp]
    exact hall
  exact ⟨{ nodes := all }, parse_eq_ok_iff.2 ⟨rfl, _, _, hlexes, hss.append hss', hdeclare⟩, rfl,
    hentries⟩

/-- The first text ends in a comment without a line feed, and the second asks about its facts. -/
theorem parse_append_legs :
    ∃ p q r : Program, parse "leg(a, b). leg(b, c) .% legs" = .ok p ∧
      parse "reach(X, Y) :- leg(X, Y).\nfar(X) :- reach(X, Y), reach(Y, Z)." = .ok q ∧
        p.nodes.keys = ["leg"] ∧ q.nodes.keys = ["reach", "far"] ∧
          parse ("leg(a, b). leg(b, c) .% legs" ++ "\n" ++
            "reach(X, Y) :- leg(X, Y).\nfar(X) :- reach(X, Y), reach(Y, Z).") = .ok r ∧
          r.nodes.entries = p.nodes.entries ++ q.nodes.entries := by
  have hlegs : (parse (α := Empty) "leg(a, b). leg(b, c) .% legs").map (·.nodes.keys) =
      .ok ["leg"] := by decide +kernel
  have hreach : (parse (α := Empty)
      "reach(X, Y) :- leg(X, Y).\nfar(X) :- reach(X, Y), reach(Y, Z).").map (·.nodes.keys) =
      .ok ["reach", "far"] := by decide +kernel
  obtain ⟨p, hp, hpkeys⟩ := map_eq_ok_iff.1 hlegs
  obtain ⟨q, hq, hqkeys⟩ := map_eq_ok_iff.1 hreach
  have hnames : ∀ name ∈ p.nodes.keys, name ∉ q.nodes.keys := by
    rw [hpkeys, hqkeys]
    decide
  obtain ⟨r, hr, -, hentries⟩ := parse_append hp hq hnames
  exact ⟨p, q, r, hp, hq, hpkeys, hqkeys, hr, hentries⟩

end Program

end Verdict

import Verdict.Proofs.Syntax.Assembly
import Verdict.Proofs.Syntax.Lexemes

/-!
# What a text is read as can be written

Whatever program a text is read as, it is printable (`Program.printable_of_parse`). The names and
variables in it are the texts of tokens, and scanning lets only words through as such
(`Lexes.isWord`); the grammar and the rules for putting statements together do the rest. Only
alignment makes up names, and a number behind a variable leaves it a variable.
-/

namespace Verdict

open Lexeme

variable {α : Type}

/-! ## Words in texts -/

/-- The text of the symbol is a word of its kind. -/
def Symbol.IsWord (s : Symbol) : Prop :=
  (s.1 = .identifier → IsIdentifier s.2) ∧ (s.1 = .var → IsVariable s.2)

theorem wordKind_ne_var (word : List Char) : wordKind word ≠ .var := by
  unfold wordKind
  split
  · decide
  · split
    · decide
    · split <;> decide

theorem isWord_of_stands {kind : TokenKind} {text rest : List Char}
    (h : Stands (.token kind) text rest) : Symbol.IsWord (kind, String.ofList text) := by
  have other {k : TokenKind} (hk : k ≠ .identifier ∧ k ≠ .var) (s : String) : Symbol.IsWord (k, s) :=
    ⟨fun e => absurd e hk.1, fun e => absurd e hk.2⟩
  cases h with
  | mark hmark =>
    have hkind : ∀ m ∈ marks, m.1 ≠ .identifier ∧ m.1 ≠ .var := by decide
    exact other (hkind _ hmark) _
  | @capital c word rest hc hword =>
    constructor
    · intro e
      cases e
    · intro _
      exact ⟨c, word, String.toList_ofList, hc, hword⟩
  | @small c word rest hc hword =>
    constructor
    · intro e
      rw [← String.toList_ofList (l := c :: word)] at e
      exact ⟨⟨c, word, String.toList_ofList, hc, hword⟩, wordKind_eq_identifier_iff.1 e⟩
    · intro e
      exact absurd e (wordKind_ne_var _)
  | quoted => exact other (by decide) _

/-- **The symbols of a text are words of their kinds.** -/
theorem Lexes.isWord {cs : List Char} {w : List Symbol} (h : Lexes cs w) : ∀ s ∈ w, s.IsWord := by
  induction h with
  | done => exact List.forall_mem_nil _
  | skip _ _ _ ih => exact ih
  | token hscan _ ih =>
    intro s hs
    rcases List.mem_cons.1 hs with rfl | hs
    · exact isWord_of_stands (stands_of_scan hscan)
    · exact ih s hs

/-! ## Statements made of words -/

namespace Grammar

theorem printable_of_term? {s : Symbol} {t : Term α} (hs : Symbol.IsWord s)
    (h : Symbol.term? s = some t) : t.Printable := by
  obtain ⟨kind, text⟩ := s
  cases kind with
  | var =>
    cases h
    exact hs.2 rfl
  | identifier =>
    cases h
    exact trivial
  | text =>
    cases h
    exact trivial
  | truth b =>
    cases h
    exact trivial
  | arrow => cases h
  | comma => cases h
  | lparen => cases h
  | rparen => cases h
  | dot => cases h
  | negation => cases h

theorem OfTerms.printable {ts : List (Term α)} {w : List Symbol} (h : OfTerms ts w)
    (hw : ∀ s ∈ w, Symbol.IsWord s) : ∀ t ∈ ts, t.Printable := by
  induction h with
  | last hs =>
    intro t ht
    rw [List.mem_singleton.1 ht]
    exact printable_of_term? (hw _ List.mem_cons_self) hs
  | more hs _ ih =>
    rw [List.forall_mem_cons, List.forall_mem_cons] at hw
    intro t ht
    rcases List.mem_cons.1 ht with rfl | ht
    · exact printable_of_term? hw.1 hs
    · exact ih hw.2.2 t ht

theorem OfArguments.printable {ts : List (Term α)} {w : List Symbol} (h : OfArguments ts w)
    (hw : ∀ s ∈ w, Symbol.IsWord s) : ∀ t ∈ ts, t.Printable := by
  cases h with
  | absent => exact List.forall_mem_nil _
  | empty => exact List.forall_mem_nil _
  | some hterms => exact hterms.printable (List.forall_mem_cons.1 hw).2

theorem OfClause.printable {c : Clause α} {w : List Symbol} (h : OfClause c w)
    (hw : ∀ s ∈ w, Symbol.IsWord s) : c.Printable := by
  cases h with
  | plain hargs =>
    rw [List.forall_mem_cons] at hw
    exact ⟨hw.1.1 rfl, hargs.printable hw.2⟩
  | denied hargs =>
    rw [List.forall_mem_cons, List.forall_mem_cons] at hw
    exact ⟨hw.2.1.1 rfl, hargs.printable hw.2.2⟩

theorem OfBody.printable {rule : Rule α} {w : List Symbol} (h : OfBody rule w)
    (hw : ∀ s ∈ w, Symbol.IsWord s) : rule.Printable := by
  induction h with
  | last hc =>
    refine ⟨List.cons_ne_nil _ _, fun c hm => ?_⟩
    rw [List.mem_singleton.1 hm]
    exact hc.printable hw
  | more hc _ ih =>
    rw [List.forall_mem_append, List.forall_mem_cons] at hw
    refine ⟨List.cons_ne_nil _ _, fun c hm => ?_⟩
    rcases List.mem_cons.1 hm with rfl | hm
    · exact hc.printable hw.1
    · exact (ih hw.2.2).2 c hm

theorem OfStatement.printable {s : Statement α} {w : List Symbol} (h : OfStatement s w)
    (hw : ∀ s ∈ w, Symbol.IsWord s) : s.Printable := by
  cases h with
  | fact hargs hground =>
    rw [List.forall_mem_cons, List.forall_mem_append] at hw
    exact ⟨hw.1.1 rfl, hground, hargs.printable hw.2.1⟩
  | rule hargs hbody =>
    rw [List.forall_mem_cons, List.forall_mem_append, List.forall_mem_cons, List.forall_mem_append] at hw
    refine ⟨hw.1.1 rfl, fun x hx => ?_, hbody.printable hw.2.2.2.1⟩
    exact hargs.printable hw.2.1 (.var x) (List.mem_map.2 ⟨x, hx, rfl⟩)

theorem OfStatements.printable {ss : List (Statement α)} {w : List Symbol} (h : OfStatements ss w)
    (hw : ∀ s ∈ w, Symbol.IsWord s) : ∀ s ∈ ss, s.Printable := by
  induction h with
  | nil => exact List.forall_mem_nil _
  | cons hs _ ih =>
    rw [List.forall_mem_append] at hw
    intro s hm
    rcases List.mem_cons.1 hm with rfl | hm
    · exact hs.printable hw.1
    · exact ih hw.2 s hm

end Grammar

/-! ## Renamed rules -/

/-- A number behind a variable leaves it a variable. -/
theorem IsVariable.numbered {x : String} (h : IsVariable x) (n : Nat) : IsVariable s!"{x}_{n}" := by
  obtain ⟨c, word, e, hc, hw⟩ := h
  have hlist : (s!"{x}_{n}").toList = c :: (word ++ '_' :: Nat.toDigits 10 n) := by
    show (x ++ "_" ++ toString n).toList = _
    simp [e]
  refine ⟨c, _, hlist, hc, fun d hd => ?_⟩
  rcases List.mem_append.1 hd with hd | hd
  · exact hw d hd
  · rcases List.mem_cons.1 hd with rfl | hd
    · decide
    · have := Nat.isDigit_of_mem_toDigits (by decide) (by decide) hd
      simp only [Char.isDigit, Bool.and_eq_true, decide_eq_true_eq] at this
      simp only [inWord, Bool.or_eq_true, Bool.and_eq_true, decide_eq_true_eq]
      exact Or.inl (Or.inr ⟨this.1, this.2⟩)

namespace Rule.Renaming

theorem isVariable_fresh {x : String} (h : IsVariable x) (used : List String) :
    IsVariable (fresh used x) := by
  unfold fresh
  dsimp only
  cases hf : List.find? _ _ with
  | none => exact h
  | some y =>
    obtain ⟨n, _, rfl⟩ := List.mem_map.1 (List.mem_of_find?_eq_some hf)
    exact h.numbered n

theorem isVariable_ofHeads {m m' : Renaming} {l : List (String × String)}
    (hm : ∀ e ∈ m, IsVariable e.2) (hl : ∀ e ∈ l, IsVariable e.2) (h : ofHeads m l = .ok m') :
    ∀ e ∈ m', IsVariable e.2 := by
  induction l generalizing m with
  | nil =>
    cases h
    exact hm
  | cons e l ih =>
    obtain ⟨x, y⟩ := e
    have hrest := List.forall_mem_cons.1 hl
    unfold ofHeads at h
    split at h
    · refine ih (fun e he => ?_) hrest.2 h
      rcases List.mem_append.1 he with he | he
      · exact hm e he
      · rw [List.mem_singleton.1 he]
        exact hrest.1
    · split at h
      · exact ih hm hrest.2 h
      · cases h

theorem isVariable_addBody {taken used xs : List String} {m : Renaming}
    (hm : ∀ e ∈ m, IsVariable e.2) (hxs : ∀ x ∈ xs, IsVariable x) :
    ∀ e ∈ addBody taken used m xs, IsVariable e.2 := by
  induction xs generalizing used m with
  | nil => exact hm
  | cons x xs ih =>
    obtain ⟨hx, hxs⟩ := List.forall_mem_cons.1 hxs
    have add (y : String) (hy : IsVariable y) : ∀ e ∈ m ++ [(x, y)], IsVariable e.2 := by
      intro e he
      rcases List.mem_append.1 he with he | he
      · exact hm e he
      · rw [List.mem_singleton.1 he]
        exact hy
    unfold addBody
    split
    · exact ih hm hxs
    · split
      · exact ih (add _ (isVariable_fresh hx used)) hxs
      · exact ih (add x hx) hxs

theorem isVariable_apply {m : Renaming} (hm : ∀ e ∈ m, IsVariable e.2) {x : String}
    (hx : IsVariable x) : IsVariable (m.apply x) := by
  unfold apply
  cases hl : m.lookup x with
  | none => exact hx
  | some y =>
    obtain ⟨before, after, rfl, _⟩ := List.lookup_eq_some_iff.1 hl
    exact hm (x, y) (List.mem_append_right before List.mem_cons_self)

end Rule.Renaming

theorem Clause.Printable.rename {c : Clause α} (h : c.Printable) {f : String → String}
    (hf : ∀ x, IsVariable x → IsVariable (f x)) : (c.rename f).Printable where
  relation := h.relation
  terms := by
    intro t ht
    obtain ⟨u, hu, rfl⟩ := List.mem_map.1 ht
    have := h.terms u hu
    cases u with
    | var x => exact hf x this
    | text _ => exact trivial
    | truth _ => exact trivial
    | foreign _ => exact this

/-- Alignment leaves a rule printable. -/
theorem Rule.Printable.align {declared head : List String} {body aligned : Rule α}
    (hbody : body.Printable) (hdeclared : ∀ x ∈ declared, IsVariable x)
    (h : Rule.align declared head body = .ok aligned) : aligned.Printable := by
  unfold Rule.align at h
  split at h
  · cases h
    exact hbody
  · split at h
    · cases h
    · obtain ⟨heads, hheads, h⟩ := bind_eq_ok_iff.1 h
      have hvars : ∀ x ∈ Rule.vars body, IsVariable x := by
        intro x hx
        obtain ⟨c, hc, hx⟩ := Rule.mem_vars.1 hx
        exact (hbody.2 c hc).terms _ hx
      have hnone : ∀ e ∈ ([] : Renaming), IsVariable e.2 := List.forall_mem_nil _
      have hm := Renaming.isVariable_ofHeads hnone
        (fun e he => hdeclared _ (List.of_mem_zip he).2) hheads
      dsimp only at h
      split at h
      · cases h
      · cases h
        refine ⟨fun e => hbody.1 (List.map_eq_nil_iff.1 e), fun c hc => ?_⟩
        obtain ⟨d, hd, rfl⟩ := List.mem_map.1 hc
        exact (hbody.2 d hd).rename fun x hx =>
          Renaming.isVariable_apply (Renaming.isVariable_addBody hm hvars) hx

/-! ## Programs -/

variable [DecidableEq α]

theorem Relation.mem_facts_insert {r : Relation α} {f g : Fact α} :
    f ∈ (r.insert g).facts ↔ f ∈ r.facts ∨ f = g := by
  unfold Relation.insert
  split
  · next hg =>
    constructor
    · exact Or.inl
    · intro h
      rcases h with h | rfl
      · exact h
      · exact hg
  · rw [List.mem_append, List.mem_singleton]

namespace Program

/-- A statement that can be written leaves nodes that can be written. -/
theorem printable_of_declare {nodes nodes' : Table String (Node α)} {s : Statement α}
    (hnodes : ∀ e ∈ nodes.entries, IsIdentifier e.1 ∧ e.2.Printable) (hs : s.Printable)
    (h : declare nodes s = .ok nodes') :
    ∀ e ∈ nodes'.entries, IsIdentifier e.1 ∧ e.2.Printable := by
  have insert {name : String} {node : Node α} (hn : IsIdentifier name) (hp : node.Printable) :
      ∀ e ∈ (nodes.insert name node).entries, IsIdentifier e.1 ∧ e.2.Printable := by
    intro e he
    rcases Table.mem_entries_insert he with rfl | he
    · exact ⟨hn, hp⟩
    · exact hnodes e he
  cases s with
  | fact name terms line =>
    obtain ⟨hn, hterms⟩ := hs
    have single : (Node.relation (.ofRows [terms])).Printable := by
      have hone : (Relation.ofRows [terms]).facts = [terms] := by simp [Relation.ofRows, List.eraseDups_cons]
      refine ⟨by rw [hone]; exact List.cons_ne_nil _ _, fun f hf => ?_, fun f hf g hg => ?_⟩
      · rw [hone, List.mem_singleton] at hf
        rw [hf]
        exact hterms
      · rw [hone, List.mem_singleton] at hf hg
        rw [hf, hg]
    rcases declare_fact_eq_ok_iff.1 h with ⟨_, rfl⟩ | ⟨_, _, _, rfl⟩ | ⟨r, first, rest, hr, hf, hl, rfl⟩
    · exact insert hn single
    · exact insert hn single
    · refine insert hn ?_
      obtain ⟨hne, hground, hlength⟩ := (hnodes _ (Table.get?_eq_some_iff.1 hr)).2
      have hfirst : first ∈ r.facts := hf ▸ List.mem_cons_self
      have length (f : Fact α) (hm : f ∈ (r.insert terms).facts) : f.length = first.length := by
        rcases Relation.mem_facts_insert.1 hm with hm | rfl
        · exact hlength f hm first hfirst
        · exact hl
      refine ⟨List.ne_nil_of_mem (Relation.mem_facts_insert.2 (Or.inr rfl)), fun f hm => ?_,
        fun f hm g hm' => (length f hm).trans (length g hm').symm⟩
      rcases Relation.mem_facts_insert.1 hm with hm | rfl
      · exact hground f hm
      · exact hterms
  | rule name args body line =>
    obtain ⟨hn, hargs, hbody⟩ := hs
    rcases declare_rule_eq_ok_iff.1 h with ⟨_, rfl⟩ | ⟨p, aligned, hp, ha, rfl⟩
    · refine insert hn ⟨hargs, List.cons_ne_nil _ _, fun rule hr => ?_⟩
      rw [List.mem_singleton.1 hr]
      exact hbody
    · obtain ⟨hvars, hne, hrules⟩ := (hnodes _ (Table.get?_eq_some_iff.1 hp)).2
      refine insert hn ⟨hvars, by simp, fun rule hr => ?_⟩
      rcases List.mem_append.1 hr with hr | hr
      · exact hrules rule hr
      · rw [List.mem_singleton.1 hr]
        exact hbody.align hvars ha

theorem printable_of_declareAll {nodes nodes' : Table String (Node α)} {ss : List (Statement α)}
    (hnodes : ∀ e ∈ nodes.entries, IsIdentifier e.1 ∧ e.2.Printable) (hss : ∀ s ∈ ss, s.Printable)
    (h : declareAll nodes ss = .ok nodes') :
    ∀ e ∈ nodes'.entries, IsIdentifier e.1 ∧ e.2.Printable := by
  induction ss generalizing nodes with
  | nil =>
    cases h
    exact hnodes
  | cons s ss ih =>
    obtain ⟨hs, hss⟩ := List.forall_mem_cons.1 hss
    obtain ⟨next, hnext, h⟩ := bind_eq_ok_iff.1 h
    exact ih (printable_of_declare hnodes hs hnext) hss h

/-- **A program that a text is read as can be written.** -/
theorem printable_of_parse {source : String} {p : Program α} (h : parse source = .ok p) :
    p.Printable := by
  obtain ⟨_, w, ss, hw, hss, hdeclare⟩ := parse_eq_ok_iff.1 h
  have hnone : ∀ e ∈ ([] : List (String × Node α)), IsIdentifier e.1 ∧ e.2.Printable :=
    List.forall_mem_nil _
  exact printable_of_declareAll hnone (hss.printable hw.isWord) hdeclare

end Program

end Verdict

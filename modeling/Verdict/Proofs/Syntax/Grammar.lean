import Verdict.Proofs.Syntax.Lexing
import Verdict.Syntax.Source

/-!
# The grammar of program texts

The grammar, said of symbols and without a reader: which symbols a statement may be written with
(`Grammar.OfStatement`). The readers of the library are shown to read exactly this, in two halves for
each of them. Symbols of the grammar are read as what they are written for, whatever comes behind them
(`exists_read`, `exists_readAll`); and what a reader has read was written by the grammar
(`ofStatement_of_read`, `ofStatements_of_readAll`).

A statement remembers on which line it starts, and symbols have no place; so the two halves meet up to
the line (`Statement.unplaced`).
-/

namespace Verdict

variable {α : Type}

/-- The term that a symbol denotes. -/
def Symbol.term? (s : Symbol) : Option (Term α) :=
  Statement.term? { kind := s.1, text := s.2, position := .start }

theorem term?_symbol (t : Token) : Symbol.term? t.symbol = (Statement.term? t : Option (Term α)) :=
  rfl

/-- The statement without its line. -/
def Statement.unplaced : Statement α → Statement α
  | .fact name terms _ => .fact name terms 0
  | .rule name args body _ => .rule name args body 0

namespace Grammar

/-- Terms with commas between them, and the parenthesis behind the last. -/
inductive OfTerms : List (Term α) → List Symbol → Prop where
  | last {s : Symbol} {t : Term α} {close : String} :
    Symbol.term? s = some t → OfTerms [t] [s, (.rparen, close)]
  | more {s : Symbol} {t : Term α} {ts : List (Term α)} {comma : String} {w : List Symbol} :
    Symbol.term? s = some t → OfTerms ts w → OfTerms (t :: ts) (s :: (.comma, comma) :: w)

/-- The arguments of a name. -/
inductive OfArguments : List (Term α) → List Symbol → Prop where
  | absent : OfArguments [] []
  | empty {opening close : String} : OfArguments [] [(.lparen, opening), (.rparen, close)]
  | some {opening : String} {ts : List (Term α)} {w : List Symbol} :
    OfTerms ts w → OfArguments ts ((.lparen, opening) :: w)

inductive OfClause : Clause α → List Symbol → Prop where
  | plain {name : String} {ts : List (Term α)} {w : List Symbol} :
    OfArguments ts w → OfClause { relation := name, terms := ts } ((.identifier, name) :: w)
  | denied {word name : String} {ts : List (Term α)} {w : List Symbol} :
    OfArguments ts w → OfClause { relation := name, terms := ts, negated := true }
      ((.negation, word) :: (.identifier, name) :: w)

/-- Clauses with commas between them. -/
inductive OfBody : Rule α → List Symbol → Prop where
  | last {c : Clause α} {w : List Symbol} : OfClause c w → OfBody [c] w
  | more {c : Clause α} {rule : Rule α} {w v : List Symbol} {comma : String} :
    OfClause c w → OfBody rule v → OfBody (c :: rule) (w ++ (.comma, comma) :: v)

inductive OfStatement : Statement α → List Symbol → Prop where
  | fact {name dot : String} {ts : List (Term α)} {w : List Symbol} {line : Nat} :
    OfArguments ts w → Term.Ground ts →
      OfStatement (.fact name ts line) ((.identifier, name) :: (w ++ [(.dot, dot)]))
  | rule {name arrow dot : String} {args : List String} {body : Rule α} {w v : List Symbol}
      {line : Nat} :
    OfArguments (args.map (.var : String → Term α)) w → OfBody body v →
      OfStatement (.rule name args body line)
        ((.identifier, name) :: (w ++ (.arrow, arrow) :: (v ++ [(.dot, dot)])))

/-- Statements one after another. -/
inductive OfStatements : List (Statement α) → List Symbol → Prop where
  | nil : OfStatements [] []
  | cons {s : Statement α} {ss : List (Statement α)} {w v : List Symbol} :
    OfStatement s w → OfStatements ss v → OfStatements (s :: ss) (w ++ v)

theorem OfStatements.append {ss ss' : List (Statement α)} {w v : List Symbol}
    (h : OfStatements ss w) (h' : OfStatements ss' v) : OfStatements (ss ++ ss') (w ++ v) := by
  induction h with
  | nil => exact h'
  | cons hs _ ih =>
    rw [List.append_assoc]
    exact .cons hs ih

/-! ## What the grammar writes is read -/

section Complete

open Statement

variable (stop : Position)

/-- None of the given kinds comes first. -/
def NotFirst (kinds : List TokenKind) (w : List Symbol) : Prop :=
  ∀ s, w.head? = some s → s.1 ∉ kinds

theorem notFirst_cons {kinds : List TokenKind} {kind : TokenKind} {text : String} {w : List Symbol}
    (h : kind ∉ kinds) : NotFirst kinds ((kind, text) :: w) := by
  intro s e
  cases e
  exact h

theorem exists_expect {kind : TokenKind} {text : String} {tokens : List Token} {v : List Symbol}
    (e : tokens.map Token.symbol = (kind, text) :: v) :
    ∃ t rest, expect stop kind tokens = .ok (t, rest) ∧ t.text = text ∧ rest.map Token.symbol = v := by
  obtain ⟨t, rest, rfl, ht, hrest⟩ := List.map_eq_cons_iff.1 e
  cases ht
  exact ⟨t, rest, if_pos rfl, rfl, hrest⟩

theorem exists_readTerms {ts : List (Term α)} {w : List Symbol} (h : OfTerms ts w)
    {tokens : List Token} {v : List Symbol} (e : tokens.map Token.symbol = w ++ v) :
    ∃ args rest, readTerms stop tokens = .ok (args, rest) ∧ args.map Prod.snd = ts ∧
      rest.map Token.symbol = v := by
  induction h generalizing tokens with
  | @last s t close hs =>
    obtain ⟨t₁, more, rfl, h₁, e⟩ := List.map_eq_cons_iff.1 e
    obtain ⟨t₂, rest, rfl, h₂, e⟩ := List.map_eq_cons_iff.1 e
    have hterm : term? t₁ = some t := by rw [← term?_symbol, h₁, hs]
    have hkind : t₂.kind = .rparen := congrArg Prod.fst h₂
    refine ⟨[(t₁, t)], rest, ?_, rfl, e⟩
    simp [readTerms, hterm, hkind]
  | @more s t ts comma w hs _ ih =>
    obtain ⟨t₁, more, rfl, h₁, e⟩ := List.map_eq_cons_iff.1 e
    obtain ⟨t₂, more, rfl, h₂, e⟩ := List.map_eq_cons_iff.1 e
    have hterm : term? t₁ = some t := by rw [← term?_symbol, h₁, hs]
    have hkind : t₂.kind = .comma := congrArg Prod.fst h₂
    obtain ⟨args, rest, hread, hargs, hrest⟩ := ih e
    refine ⟨(t₁, t) :: args, rest, ?_, by rw [List.map_cons, hargs], hrest⟩
    simp [readTerms, hterm, hkind, hread, Except.map]

theorem exists_readArguments {ts : List (Term α)} {w : List Symbol} (h : OfArguments ts w)
    {tokens : List Token} {v : List Symbol} (hv : NotFirst [.lparen] v)
    (e : tokens.map Token.symbol = w ++ v) :
    ∃ args rest, readArguments stop tokens = .ok (args, rest) ∧ args.map Prod.snd = ts ∧
      rest.map Token.symbol = v := by
  cases h with
  | absent =>
    refine ⟨[], tokens, ?_, rfl, e⟩
    cases tokens with
    | nil => rfl
    | cons t rest =>
      have : t.kind ≠ .lparen := fun hk => hv t.symbol (by rw [← List.nil_append v, ← e]; rfl)
        (List.mem_singleton.2 hk)
      simp only [readArguments, this, if_false]
  | empty =>
    obtain ⟨t₁, more, rfl, h₁, e⟩ := List.map_eq_cons_iff.1 e
    obtain ⟨t₂, rest, rfl, h₂, e⟩ := List.map_eq_cons_iff.1 e
    have hl : t₁.kind = .lparen := congrArg Prod.fst h₁
    have hr : t₂.kind = .rparen := congrArg Prod.fst h₂
    refine ⟨[], rest, ?_, rfl, e⟩
    simp only [readArguments, hl, hr, if_true]
  | @some opening _ w hterms =>
    obtain ⟨t₁, more, rfl, h₁, e⟩ := List.map_eq_cons_iff.1 e
    have hl : t₁.kind = .lparen := congrArg Prod.fst h₁
    obtain ⟨args, rest, hread, hargs, hrest⟩ := exists_readTerms stop hterms e
    refine ⟨args, rest, ?_, hargs, hrest⟩
    cases more with
    | nil => cases hread
    | cons u more =>
      -- A term comes first, so this is not the closing parenthesis.
      have hu : u.kind ≠ .rparen := by
        intro hk
        simp [readTerms, term?, hk] at hread
      simp only [readArguments, hl, hu, if_true, if_false]
      exact hread

/-- Behind the word of negation, or where it is absent, a clause is a name with arguments. -/
theorem readClause_of_readNegation {tokens more : List Token} {negated : Bool}
    (hneg : readNegation tokens = (negated, more)) {name : String} {ts : List (Term α)}
    {w v : List Symbol} (h : OfArguments ts w) (hv : NotFirst [.lparen] v)
    (e : more.map Token.symbol = (.identifier, name) :: (w ++ v)) :
    ∃ rest, readClause stop tokens = .ok ({ relation := name, terms := ts, negated }, rest) ∧
      rest.map Token.symbol = v := by
  obtain ⟨t, after, hname, rfl, hafter⟩ := exists_expect stop e
  obtain ⟨args, rest, hread, rfl, hrest⟩ := exists_readArguments stop h hv hafter
  refine ⟨rest, ?_, hrest⟩
  simp only [readClause, hneg, hname, hread, bind, Except.bind, pure, Except.pure]

theorem exists_readClause {c : Clause α} {w : List Symbol} (h : OfClause c w)
    {tokens : List Token} {v : List Symbol} (hv : NotFirst [.lparen] v)
    (e : tokens.map Token.symbol = w ++ v) :
    ∃ rest, readClause stop tokens = .ok (c, rest) ∧ rest.map Token.symbol = v := by
  cases h with
  | @plain name ts w hargs =>
    obtain ⟨t, more, rfl, ht, _⟩ := List.map_eq_cons_iff.1 e
    have hkind : t.kind = .identifier := congrArg Prod.fst ht
    have hneg : readNegation (t :: more) = (false, t :: more) :=
      if_neg (by rw [hkind]; exact TokenKind.noConfusion)
    exact readClause_of_readNegation stop hneg hargs hv e
  | @denied word name ts w hargs =>
    obtain ⟨n, more, rfl, hn, e⟩ := List.map_eq_cons_iff.1 e
    have hneg : readNegation (n :: more) = (true, more) := if_pos (congrArg Prod.fst hn)
    exact readClause_of_readNegation stop hneg hargs hv e

theorem readBody_of_readClause {tokens rest : List Token} {c : Clause α}
    (h : readClause stop tokens = .ok (c, rest)) :
    readBody stop tokens =
      match rest with
      | [] => .ok ([c], [])
      | t :: more =>
        if t.kind = .comma then (readBody stop more).map fun (cs, rest) => (c :: cs, rest)
        else .ok ([c], t :: more) := by
  rw [readBody]
  split
  · next h' =>
    rw [h] at h'
    cases h'
  · next h' =>
    rw [h] at h'
    cases h'
    cases rest <;> rfl

theorem readBody_of_error {tokens : List Token} {e : FormError}
    (h : readClause (α := α) stop tokens = .error e) :
    readBody (α := α) stop tokens = .error e := by
  rw [readBody]
  split
  · next h' =>
    rw [h] at h'
    cases h'
    rfl
  · next h' =>
    rw [h] at h'
    cases h'

theorem exists_readBody {rule : Rule α} {w : List Symbol} (h : OfBody rule w)
    {tokens : List Token} {v : List Symbol} (hv : NotFirst [.lparen, .comma] v)
    (e : tokens.map Token.symbol = w ++ v) :
    ∃ rest, readBody stop tokens = .ok (rule, rest) ∧ rest.map Token.symbol = v := by
  induction h generalizing tokens with
  | last hc =>
    have hl : NotFirst [.lparen] v := fun s hs hmem =>
      hv s hs (List.mem_cons.2 (Or.inl (List.mem_singleton.1 hmem)))
    obtain ⟨rest, hread, hrest⟩ := exists_readClause stop hc hl e
    refine ⟨rest, ?_, hrest⟩
    rw [readBody_of_readClause stop hread]
    cases rest with
    | nil => rfl
    | cons t more =>
      have : t.kind ≠ .comma := fun hk =>
        hv t.symbol (by rw [← hrest]; rfl) (List.mem_cons_of_mem _ (List.mem_singleton.2 hk))
      exact if_neg this
  | @more c rule w u comma hc _ ih =>
    rw [List.append_assoc] at e
    obtain ⟨rest, hread, hrest⟩ := exists_readClause stop hc (notFirst_cons (by decide)) e
    obtain ⟨t, more, rfl, ht, hmore⟩ := List.map_eq_cons_iff.1 hrest
    have hkind : t.kind = .comma := congrArg Prod.fst ht
    obtain ⟨rest, hbody, hrest⟩ := ih hmore
    refine ⟨rest, ?_, hrest⟩
    rw [readBody_of_readClause stop hread]
    simp only [hkind, if_true, hbody]
    rfl

theorem factOf_of_ground {name : Token} {args : List (Argument α)}
    (h : Term.Ground (args.map Prod.snd)) :
    factOf name args = .ok (.fact name.text (args.map Prod.snd) name.position.line) := by
  unfold factOf
  split
  · next hvar =>
    obtain ⟨⟨t, term⟩, hm, hvar⟩ := List.exists_of_findSome?_eq_some hvar
    have hground : term.var? = none := h term (List.mem_map.2 ⟨_, hm, rfl⟩)
    dsimp only at hvar
    rw [hground] at hvar
    cases hvar
  · rfl

theorem headOf_of_vars {name : Token} {args : List (Argument α)} {head : List String}
    (h : args.map Prod.snd = head.map .var) : headOf name args = .ok head := by
  induction args generalizing head with
  | nil =>
    cases head with
    | nil => rfl
    | cons x head => cases h
  | cons a args ih =>
    obtain ⟨t, term⟩ := a
    cases head with
    | nil => cases h
    | cons x head =>
      obtain ⟨hterm, hrest⟩ := List.cons.inj h
      cases hterm
      simp only [headOf, Term.var?, ih hrest]
      rfl

theorem exists_read {s : Statement α} {w : List Symbol} (h : OfStatement s w)
    {tokens : List Token} {v : List Symbol} (e : tokens.map Token.symbol = w ++ v) :
    ∃ s' rest, read stop tokens = .ok (s', rest) ∧ s'.unplaced = s.unplaced ∧
      rest.map Token.symbol = v := by
  cases h with
  | @fact name dot ts w line hargs hground =>
    rw [List.cons_append, List.append_assoc, List.singleton_append] at e
    obtain ⟨n, more, hname, rfl, hmore⟩ := exists_expect stop e
    have hfollow : NotFirst [.lparen] ((TokenKind.dot, dot) :: v) := notFirst_cons (by decide)
    obtain ⟨args, rest, hread, rfl, hrest⟩ := exists_readArguments stop hargs hfollow hmore
    obtain ⟨d, rest, rfl, hd, hrest⟩ := List.map_eq_cons_iff.1 hrest
    have hdot : d.kind = .dot := congrArg Prod.fst hd
    refine ⟨.fact n.text (args.map Prod.snd) n.position.line, rest, ?_, rfl, hrest⟩
    simp only [Statement.read, hname, hread, hdot, if_true, factOf_of_ground hground, bind, Except.bind]
    rfl
  | @rule name arrow dot head body w u line hargs hbody =>
    rw [List.cons_append, List.append_assoc, List.cons_append, List.append_assoc,
      List.singleton_append] at e
    obtain ⟨n, more, hname, rfl, hmore⟩ := exists_expect stop e
    have hfollow : NotFirst [.lparen] ((TokenKind.arrow, arrow) :: (u ++ (.dot, dot) :: v)) :=
      notFirst_cons (by decide)
    obtain ⟨args, rest, hread, hhead, hrest⟩ := exists_readArguments stop hargs hfollow hmore
    obtain ⟨a, rest, rfl, ha, hrest⟩ := List.map_eq_cons_iff.1 hrest
    have harrow : a.kind = .arrow := congrArg Prod.fst ha
    have hexpect : expect stop .arrow (a :: rest) = .ok (a, rest) := if_pos harrow
    obtain ⟨rest, hb, hrest⟩ := exists_readBody stop hbody (notFirst_cons (by decide)) hrest
    obtain ⟨d, rest, hdot, -, hrest⟩ := exists_expect stop hrest
    refine ⟨.rule n.text head body n.position.line, rest, ?_, rfl, hrest⟩
    simp only [Statement.read, readRule, hname, hread, harrow, reduceCtorEq, if_false, hexpect,
      headOf_of_vars hhead, hb, hdot, bind, Except.bind, pure, Except.pure]

theorem readAll_of_read {tokens rest : List Token} {s : Statement α} {r : Reading α}
    (h : read stop tokens = .ok (s, rest)) (hr : readAll stop rest = r) :
    readAll stop tokens = { r with statements := s :: r.statements } := by
  cases tokens with
  | nil => cases h
  | cons t more =>
    rw [readAll]
    split
    · next h' =>
      rw [h] at h'
      cases h'
    · next h' =>
      rw [h] at h'
      cases h'
      rw [hr]

theorem readAll_of_error {t : Token} {more : List Token} {e : FormError}
    (h : Statement.read (α := α) stop (t :: more) = .error e) :
    readAll (α := α) stop (t :: more) = ⟨[], some e⟩ := by
  rw [readAll]
  split
  · next h' =>
    rw [h] at h'
    cases h'
    rfl
  · next h' =>
    rw [h] at h'
    cases h'

/-- Symbols of the grammar are read first, and then what is behind them. -/
theorem exists_readAll_append {ss : List (Statement α)} {w : List Symbol} (h : OfStatements ss w)
    {tokens : List Token} {v : List Symbol} (e : tokens.map Token.symbol = w ++ v) :
    ∃ ss' rest, ss'.map Statement.unplaced = ss.map Statement.unplaced ∧ rest.map Token.symbol = v ∧
      ∀ r : Reading α, readAll stop rest = r →
        readAll stop tokens = { r with statements := ss' ++ r.statements } := by
  induction h generalizing tokens with
  | nil => exact ⟨[], tokens, rfl, e, fun _ hr => hr⟩
  | cons hs _ ih =>
    rw [List.append_assoc] at e
    obtain ⟨s', more, hread, hs', hmore⟩ := exists_read stop hs e
    obtain ⟨ss', rest, hss', hrest, hall⟩ := ih hmore
    refine ⟨s' :: ss', rest, by rw [List.map_cons, List.map_cons, hs', hss'], hrest, fun r hr => ?_⟩
    exact readAll_of_read stop hread (hall r hr)

/-- **Symbols of the grammar are read as the statements they are written for.** -/
theorem exists_readAll {ss : List (Statement α)} {tokens : List Token}
    (h : OfStatements ss (tokens.map Token.symbol)) :
    ∃ ss', readAll stop tokens = ⟨ss', none⟩ ∧
      ss'.map Statement.unplaced = ss.map Statement.unplaced := by
  obtain ⟨ss', rest, hss', hrest, hall⟩ := exists_readAll_append stop h (List.append_nil _).symm
  rw [List.map_eq_nil_iff] at hrest
  subst hrest
  refine ⟨ss', ?_, hss'⟩
  have := hall ⟨[], none⟩ (by rw [readAll])
  rw [List.append_nil] at this
  exact this

end Complete

/-! ## What is read was written by the grammar -/

section Sound

open Statement

variable {stop : Position} {tokens rest : List Token}

theorem symbols_of_expect {kind : TokenKind} {t : Token}
    (h : expect stop kind tokens = .ok (t, rest)) :
    tokens.map Token.symbol = (kind, t.text) :: rest.map Token.symbol := by
  unfold expect at h
  split at h
  · cases h
  · split at h
    · next hk =>
      cases h
      rw [List.map_cons, Token.symbol, hk]
    · cases h

theorem ofTerms_of_readTerms {args : List (Argument α)}
    (h : readTerms stop tokens = .ok (args, rest)) :
    ∃ w, tokens.map Token.symbol = w ++ rest.map Token.symbol ∧ OfTerms (args.map Prod.snd) w := by
  fun_induction readTerms stop tokens generalizing args with
  | case1 => cases h
  | case2 => cases h
  | case3 => cases h
  | case4 t sep more term hsep hterm ih =>
    obtain ⟨⟨args', rest'⟩, hread, e⟩ := map_eq_ok_iff.1 h
    cases e
    obtain ⟨w, hw, hargs⟩ := ih hread
    refine ⟨t.symbol :: (.comma, sep.text) :: w, ?_, .more hterm hargs⟩
    rw [List.map_cons, List.map_cons, hw, Token.symbol, Token.symbol, hsep]
    rfl
  | case5 t sep more term _ hsep hterm =>
    cases h
    refine ⟨[t.symbol, (.rparen, sep.text)], ?_, .last hterm⟩
    rw [List.map_cons, List.map_cons, Token.symbol, Token.symbol, hsep]
    rfl
  | case6 => cases h

theorem ofArguments_of_readArguments {args : List (Argument α)}
    (h : readArguments stop tokens = .ok (args, rest)) :
    ∃ w, tokens.map Token.symbol = w ++ rest.map Token.symbol ∧
      OfArguments (args.map Prod.snd) w := by
  unfold readArguments at h
  split at h
  · cases h
    exact ⟨[], rfl, .absent⟩
  · next t more =>
    split at h
    · next hl =>
      have terms (hread : readTerms stop more = .ok (args, rest)) :
          ∃ w, (t :: more).map Token.symbol = w ++ rest.map Token.symbol ∧
            OfArguments (args.map Prod.snd) w := by
        obtain ⟨w, hw, hargs⟩ := ofTerms_of_readTerms hread
        refine ⟨(.lparen, t.text) :: w, ?_, .some hargs⟩
        rw [List.map_cons, hw, Token.symbol, hl]
        rfl
      split at h
      · exact terms h
      · next u more =>
        split at h
        · next hr =>
          cases h
          refine ⟨[(.lparen, t.text), (.rparen, u.text)], ?_, .empty⟩
          rw [List.map_cons, List.map_cons, Token.symbol, Token.symbol, hl, hr]
          rfl
        · exact terms h
    · cases h
      exact ⟨[], rfl, .absent⟩

theorem exists_of_readClause {more : List Token} {negated : Bool} {c : Clause α}
    (hneg : readNegation tokens = (negated, more)) (h : readClause stop tokens = .ok (c, rest)) :
    ∃ name ts w, more.map Token.symbol = (.identifier, name) :: (w ++ rest.map Token.symbol) ∧
      OfArguments ts w ∧ c = { relation := name, terms := ts, negated } := by
  unfold readClause at h
  rw [hneg] at h
  obtain ⟨⟨name, ts⟩, hname, h⟩ := bind_eq_ok_iff.1 h
  obtain ⟨⟨args, ts'⟩, hargs, h⟩ := bind_eq_ok_iff.1 h
  cases h
  obtain ⟨w, hw, hof⟩ := ofArguments_of_readArguments hargs
  refine ⟨name.text, args.map Prod.snd, w, ?_, hof, rfl⟩
  rw [symbols_of_expect hname, hw]

theorem ofClause_of_readClause {c : Clause α} (h : readClause stop tokens = .ok (c, rest)) :
    ∃ w, tokens.map Token.symbol = w ++ rest.map Token.symbol ∧ OfClause c w := by
  cases tokens with
  | nil => cases h
  | cons t more =>
    by_cases hk : t.kind = .negation
    · have hneg : readNegation (t :: more) = (true, more) := if_pos hk
      obtain ⟨name, ts, w, hw, hof, rfl⟩ := exists_of_readClause hneg h
      refine ⟨(.negation, t.text) :: (.identifier, name) :: w, ?_, .denied hof⟩
      rw [List.map_cons, hw, Token.symbol, hk]
      rfl
    · have hneg : readNegation (t :: more) = (false, t :: more) := if_neg hk
      obtain ⟨name, ts, w, hw, hof, rfl⟩ := exists_of_readClause hneg h
      exact ⟨(.identifier, name) :: w, hw, .plain hof⟩

theorem ofBody_of_readBody {rule : Rule α} (h : readBody stop tokens = .ok (rule, rest)) :
    ∃ w, tokens.map Token.symbol = w ++ rest.map Token.symbol ∧ OfBody rule w := by
  fun_induction readBody (α := α) stop tokens generalizing rule with
  | case1 => cases h
  | case2 tokens c hc =>
    cases h
    obtain ⟨w, hw, hof⟩ := ofClause_of_readClause hc
    exact ⟨w, hw, .last hof⟩
  | case3 tokens c t more _ hsep hc ih =>
    obtain ⟨⟨rule', rest'⟩, hread, e⟩ := map_eq_ok_iff.1 h
    cases e
    obtain ⟨w, hw, hof⟩ := ofClause_of_readClause hc
    obtain ⟨v, hv, hbody⟩ := ih hread
    refine ⟨w ++ (.comma, t.text) :: v, ?_, .more hof hbody⟩
    rw [hw, List.map_cons, hv, Token.symbol, hsep, List.append_assoc]
    rfl
  | case4 tokens c t more _ _ hc =>
    cases h
    obtain ⟨w, hw, hof⟩ := ofClause_of_readClause hc
    exact ⟨w, hw, .last hof⟩

theorem ground_of_factOf {name : Token} {args : List (Argument α)} {s : Statement α}
    (h : factOf name args = .ok s) :
    Term.Ground (args.map Prod.snd) ∧
      s = .fact name.text (args.map Prod.snd) name.position.line := by
  unfold factOf at h
  split at h
  · cases h
  · next hnone =>
    cases h
    refine ⟨fun t ht => ?_, rfl⟩
    obtain ⟨⟨tok, term⟩, hm, rfl⟩ := List.mem_map.1 ht
    have := List.findSome?_eq_none_iff.1 hnone (tok, term) hm
    exact Option.map_eq_none_iff.1 this

theorem vars_of_headOf {name : Token} {args : List (Argument α)} {head : List String}
    (h : headOf name args = .ok head) : args.map Prod.snd = head.map .var := by
  induction args generalizing head with
  | nil =>
    cases h
    rfl
  | cons a args ih =>
    obtain ⟨t, term⟩ := a
    cases term with
    | var x =>
      obtain ⟨head', hhead, rfl⟩ := map_eq_ok_iff.1 h
      rw [List.map_cons, List.map_cons, ih hhead]
    | text _ => cases h
    | truth _ => cases h
    | foreign _ => cases h

theorem ofStatement_of_read {s : Statement α} (h : Statement.read stop tokens = .ok (s, rest)) :
    ∃ w, tokens.map Token.symbol = w ++ rest.map Token.symbol ∧ OfStatement s w := by
  unfold Statement.read at h
  obtain ⟨⟨name, ts⟩, hname, h⟩ := bind_eq_ok_iff.1 h
  obtain ⟨⟨args, ts'⟩, hargs, h⟩ := bind_eq_ok_iff.1 h
  obtain ⟨w, hw, hof⟩ := ofArguments_of_readArguments hargs
  have rule (hr : readRule stop name args ts' = .ok (s, rest)) :
      ∃ w, tokens.map Token.symbol = w ++ rest.map Token.symbol ∧ OfStatement s w := by
    unfold readRule at hr
    obtain ⟨⟨arrow, ts₁⟩, harrow, hr⟩ := bind_eq_ok_iff.1 hr
    obtain ⟨head, hhead, hr⟩ := bind_eq_ok_iff.1 hr
    obtain ⟨⟨body, ts₂⟩, hbody, hr⟩ := bind_eq_ok_iff.1 hr
    obtain ⟨⟨dot, ts₃⟩, hdot, hr⟩ := bind_eq_ok_iff.1 hr
    cases hr
    rw [vars_of_headOf hhead] at hof
    obtain ⟨v, hv, hb⟩ := ofBody_of_readBody hbody
    refine ⟨(.identifier, name.text) :: (w ++ (.arrow, arrow.text) :: (v ++ [(.dot, dot.text)])), ?_,
      .rule hof hb⟩
    rw [symbols_of_expect hname, hw, symbols_of_expect harrow, hv, symbols_of_expect hdot]
    simp only [List.cons_append, List.append_assoc, List.nil_append]
  cases ts' with
  | nil => exact rule h
  | cons t more =>
    dsimp only at h
    split at h
    · next hdot =>
      obtain ⟨s', hs, e⟩ := map_eq_ok_iff.1 h
      cases e
      obtain ⟨hground, rfl⟩ := ground_of_factOf hs
      refine ⟨(.identifier, name.text) :: (w ++ [(.dot, t.text)]), ?_, .fact hof hground⟩
      rw [symbols_of_expect hname, hw, List.map_cons, Token.symbol, hdot]
      simp only [List.cons_append, List.append_assoc, List.nil_append]
    · exact rule h

/-- **What is read to the end without an error was written by the grammar.** -/
theorem ofStatements_of_readAll {ss : List (Statement α)} (h : readAll stop tokens = ⟨ss, none⟩) :
    OfStatements ss (tokens.map Token.symbol) := by
  fun_induction readAll (α := α) stop tokens generalizing ss with
  | case1 =>
    cases h
    exact .nil
  | case2 => cases h
  | case3 t more s rest hread r =>
    rename_i ih
    have herror : r.error? = none := congrArg Reading.error? h
    have hstatements : s :: r.statements = ss := congrArg Reading.statements h
    have hrest : readAll stop rest = ⟨r.statements, none⟩ := by rw [← herror]
    obtain ⟨w, hw, hs⟩ := ofStatement_of_read hread
    rw [hw, ← hstatements]
    exact .cons hs (ih hrest)

end Sound

end Grammar

end Verdict

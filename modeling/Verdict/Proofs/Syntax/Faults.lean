import Verdict.Proofs.Syntax.Assembly
import Verdict.Proofs.Syntax.Drafts
import Verdict.Proofs.Syntax.Lexemes

/-!
# Where errors of form are reported

An error of form is reported at the first character that starts no lexeme, at the first token that
cannot stand where it stands or does not fit its statement, or, where the text ends too soon, behind its
last token (`FaultAt`). The first two are places of the text. So is the third, unless the last token runs
over several lines: its end is reckoned as if it stood on one (`Token.stop`), and no place of the text is
there (`Token.stop_ne_behind`). `parse_fault` says all of this of every text that is not well formed.
-/

namespace Verdict

open Lexeme
open scoped Computability

/-! ## Places of tokens -/

namespace Position

theorem advance_of_line {cs : List Char} (h : '\n' ∉ cs) (p : Position) :
    p.advance cs = { p with column := p.column + cs.length } := by
  induction cs generalizing p with
  | nil => rfl
  | cons c cs ih =>
    obtain ⟨hc, hcs⟩ := not_or.1 (mt List.mem_cons.2 h)
    have hstep : p.next c = { p with column := p.column + 1 } := if_neg (Ne.symm hc)
    show (p.next c).advance cs = _
    rw [ih hcs, hstep, List.length_cons]
    simp only [Position.mk.injEq, true_and]
    omega

theorem behind_append_of_line {ds : List Char} (h : '\n' ∉ ds) (cs : List Char) :
    behind (cs ++ ds) = { behind cs with column := (behind cs).column + ds.length } := by
  rw [behind_append, advance_of_line h]

theorem line_behind_append (cs ds : List Char) :
    (behind (cs ++ ds)).line = (behind cs).line + ds.count '\n' := by
  simp only [behind, List.count_append]
  omega

end Position

theorem text_of_token? {l : Lexeme} {t : Token} (h : l.token? = some t) :
    t.text.toList = l.text ∧ t.position = l.position := by
  unfold token? at h
  split at h
  · cases h
    exact ⟨String.toList_ofList, rfl⟩
  · cases h

/-- A token stands in the text at its place, and what is behind it comes to the tokens behind it. -/
theorem exists_place_of_tokenize {source : String} {before after : List Token} {t : Token}
    (h : tokenize source = .ok (before ++ t :: after)) :
    ∃ front back, source.toList = front ++ t.text.toList ++ back ∧ t.position = .behind front ∧
      Lexes back (after.map Token.symbol) := by
  obtain ⟨ls, hcut, e⟩ := tokenize_eq_ok_iff.1 h
  obtain ⟨first, more, rfl, -, hmore⟩ := List.filterMap_eq_append_iff.1 e.symm
  obtain ⟨gap, l, last, rfl, -, hl, rfl⟩ := List.filterMap_eq_cons_iff.1 hmore
  rw [← List.append_assoc] at hcut
  obtain ⟨rest, hrest, -, hposition, hlast⟩ := (hcut.drop (first ++ gap)).tail
  obtain ⟨htext, hplace⟩ := text_of_token? hl
  refine ⟨(first ++ gap).flatMap Lexeme.text, rest, ?_, hplace.trans hposition, ?_⟩
  · rw [hcut.concat, List.flatMap_append, List.append_assoc, hrest, htext, List.append_assoc]
  · exact Lexes.of_lexemesFrom (lexemesFrom_eq_ok_iff.2 hlast)

namespace Token

variable {t : Token} {front : List Char}

/-- The end of a token on one line. -/
theorem stop_eq_behind (ht : t.position = .behind front) (h : '\n' ∉ t.text.toList) :
    t.stop = .behind (front ++ t.text.toList) := by
  rw [Position.behind_append_of_line h, stop, ht, String.length_toList]

/-- For a token with a line feed, the place is too far to the right on its first line. -/
theorem stop_ne_behind {back front' back' : List Char} (ht : t.position = .behind front)
    (h : '\n' ∈ t.text.toList) (hcs : front' ++ back' = front ++ t.text.toList ++ back) :
    t.stop ≠ .behind front' := by
  intro e
  obtain ⟨line, more, htext, hline⟩ := List.eq_append_cons_of_mem h
  have hlength : line.length < t.text.length := by
    rw [← String.length_toList, htext, List.length_append, List.length_cons]
    omega
  have hcut : front' ++ back' = (front ++ line) ++ '\n' :: (more ++ back) := by
    rw [hcs, htext]
    simp
  have hstopLine : (Position.behind front').line = (Position.behind front).line := by
    rw [← e, stop, ht]
  have hstopColumn : (Position.behind front').column =
      (Position.behind front).column + t.text.length := by
    rw [← e, stop, ht]
  -- The line of the place is that of the token, so the place is not behind the line feed.
  have onLine (gap : List Char) (hgap : front ++ line = front' ++ gap) : False := by
    have hlines := congrArg (fun cs => (Position.behind cs).line) hgap
    simp only [Position.line_behind_append, List.count_eq_zero.2 hline, hstopLine] at hlines
    have hfeeds : '\n' ∉ gap := List.count_eq_zero.1 (by omega)
    have hcolumns := congrArg (fun cs => (Position.behind cs).column) hgap
    simp only [Position.behind_append_of_line hline, Position.behind_append_of_line hfeeds,
      hstopColumn] at hcolumns
    omega
  rcases List.append_eq_append_iff.1 hcut with ⟨gap, hgap, -⟩ | ⟨gap, rfl, hgap⟩
  · exact onLine gap hgap
  · cases gap with
    | nil => exact onLine [] (by rw [List.append_nil, List.append_nil])
    | cons c gap =>
      obtain ⟨rfl, -⟩ := List.cons.inj hgap
      simp only [Position.line_behind_append, List.count_eq_zero.2 hline,
        List.count_cons_self] at hstopLine
      omega

end Token

/-! ## Faults -/

section Faults

open Grammar

/-- The symbols can go on to a row of drafts. -/
def Viable (α : Type) (w : List Symbol) : Prop := ∃ v, w ++ v ∈ (drafts α)∗

/-- What is wrong with a symbol, between those in front of it and those behind it. -/
inductive Offends (α : Type) : FormFault → List Symbol → Symbol → List Symbol → Prop
  /-- It cannot stand there, and another symbol can. -/
  | shape {fault : FormFault} {wanted s : Symbol} {w v : List Symbol} : fault.Wants s.2 wanted →
    Viable α (w ++ [wanted]) → ¬ Viable α (w ++ [s]) → Offends α fault w s v
  /-- It is the first variable among the arguments of a fact. -/
  | fact {ss : List (Statement α)} {name x dot : String} {u w v rest : List Symbol} :
    OfStatements ss u → w ++ (.var, x) :: v ∈ arguments α → (∀ s ∈ w, s.1 ≠ .var) →
      Offends α (.factNotGround name x) (u ++ (.identifier, name) :: w) (.var, x)
        (v ++ (.dot, dot) :: rest)
  /-- It is the first constant among the arguments of a rule head. -/
  | head {ss : List (Statement α)} {name arrow : String} {s : Symbol} {u w v rest : List Symbol} :
    OfStatements ss u → w ++ s :: v ∈ arguments α → (∀ s ∈ w, ¬ s.1.IsConstant) → s.1.IsConstant →
      Offends α (.headNotVariable name s.2) (u ++ (.identifier, name) :: w) s
        (v ++ (.arrow, arrow) :: rest)

/-- What is wrong with a text, and where it is reported. -/
inductive FaultAt (α : Type) (source : String) : FormError → Prop
  /-- At the first character at which no lexeme stands. -/
  | character {ls : List Lexeme} {c : Char} {rest : List Char} :
    CutInto [] source.toList ls (c :: rest) → NoneStands (c :: rest) →
      FaultAt α source ⟨.unexpectedCharacter c, .behind (ls.flatMap Lexeme.text)⟩
  /-- At the start of the token at fault. -/
  | token {before after : List Token} {t : Token} {fault : FormFault} {front back : List Char} :
    tokenize source = .ok (before ++ t :: after) → source.toList = front ++ t.text.toList ++ back →
    t.position = .behind front →
    Offends α fault (before.map Token.symbol) t.symbol (after.map Token.symbol) →
      FaultAt α source ⟨fault, .behind front⟩
  /-- Behind the last token, if it stands on one line. -/
  | ending {before : List Token} {t : Token} {front back : List Char} :
    tokenize source = .ok (before ++ [t]) → source.toList = front ++ t.text.toList ++ back →
    t.position = .behind front → Lexes back [] →
    ('\n' ∉ t.text.toList → t.stop = .behind (front ++ t.text.toList)) →
    Viable α ((before ++ [t]).map Token.symbol) → (before ++ [t]).map Token.symbol ∉ (drafts α)∗ →
      FaultAt α source ⟨.unexpectedEnd, t.stop⟩

/-- One of the tokens is at fault, and the error is reported there. -/
def AtToken (α : Type) (tokens : List Token) (e : FormError) : Prop :=
  ∃ before t after, tokens = before ++ t :: after ∧ e.position = t.position ∧
    Offends α e.fault (before.map Token.symbol) t.symbol (after.map Token.symbol)

variable {α : Type}

theorem Offends.fault_ne {fault : FormFault} {w v : List Symbol} {s : Symbol}
    (h : Offends α fault w s v) : fault ≠ .unexpectedEnd := by
  intro e
  cases h with
  | shape hwants =>
    rw [e] at hwants
    exact hwants
  | fact => cases e
  | head => cases e

section Refusals

variable {front rest : List Token} {ss : List (Statement α)} {e : FormError}

/-- What is refused for its shape behind statements is unfinished, or at fault at a token. -/
theorem atToken_of_draft_error {stop : Position} (hss : OfStatements ss (front.map Token.symbol))
    (hne : rest ≠ []) (h : draft α stop rest = .error e) :
    (e = ⟨.unexpectedEnd, stop⟩ ∧ Viable α ((front ++ rest).map Token.symbol) ∧
      (front ++ rest).map Token.symbol ∉ (drafts α)∗) ∨ AtToken α (front ++ rest) e := by
  cases (reads_draft rest).error stop e h with
  | @ended s v hv =>
    refine Or.inl ⟨rfl, ⟨s :: v, ?_⟩, ?_⟩
    · rw [List.map_append, List.append_assoc, append_mem_kstar_iff hss]
      exact mem_kstar_of_mem_drafts hv
    · rw [List.map_append, append_mem_kstar_iff hss]
      exact not_mem_kstar_of_draft_error hne h
  | @met before after t fault wanted v hrest hwants hv hsame =>
    refine Or.inr ⟨front ++ before, t, after, by rw [hrest, List.append_assoc], rfl, ?_⟩
    refine .shape hwants ⟨v, ?_⟩ fun hviable => ?_
    · rw [List.map_append, List.append_assoc, List.append_assoc, append_mem_kstar_iff hss]
      exact mem_kstar_of_mem_drafts hv
    · -- Whatever comes behind the token, it is refused all the same.
      obtain ⟨u, hu⟩ := hviable
      rw [List.map_append, List.append_assoc, List.append_assoc, append_mem_kstar_iff hss] at hu
      have hall : (before ++ t :: u.map Symbol.token).map Token.symbol ∈ (drafts α)∗ := by
        rw [List.map_append, List.map_cons, symbols_tokens]
        exact hu
      exact not_mem_kstar_of_draft_error (by simp) (hsame stop _) hall

/-- An argument that does not fit behind statements is at fault. -/
theorem atToken_of_misfit (hss : OfStatements ss (front.map Token.symbol)) (h : Misfit α rest e) :
    AtToken α (front ++ rest) e := by
  cases h with
  | @fact name t dot f g more hname hdot hrest hargs hf ht =>
    refine ⟨front ++ name :: f, t, g ++ dot :: more, by simp [hrest], rfl, ?_⟩
    simp only [List.map_append, List.map_cons, Token.symbol_of_kind ht, Token.symbol_of_kind hname,
      Token.symbol_of_kind hdot] at hargs ⊢
    exact .fact hss hargs (List.forall_mem_map.2 hf)
  | @head name t arrow f g more hname harrow hrest hargs hf ht =>
    refine ⟨front ++ name :: f, t, g ++ arrow :: more, by simp [hrest], rfl, ?_⟩
    simp only [List.map_append, List.map_cons, Token.symbol_of_kind hname,
      Token.symbol_of_kind harrow] at hargs ⊢
    exact .head hss hargs (List.forall_mem_map.2 hf) ht

end Refusals

theorem faultAt_of_atToken {source : String} {tokens : List Token} {e : FormError}
    (htokens : tokenize source = .ok tokens) (h : AtToken α tokens e) : FaultAt α source e := by
  obtain ⟨before, t, after, rfl, hposition, hoffends⟩ := h
  obtain ⟨front, back, hsource, hplace, -⟩ := exists_place_of_tokenize htokens
  have he : e = ⟨e.fault, .behind front⟩ := by rw [← hplace, ← hposition]
  rw [he]
  exact .token htokens hsource hplace hoffends

theorem faultAt_of_unfinished {source : String} {tokens : List Token} (hne : tokens ≠ [])
    (htokens : tokenize source = .ok tokens) (hviable : Viable α (tokens.map Token.symbol))
    (hopen : tokens.map Token.symbol ∉ (drafts α)∗) :
    FaultAt α source ⟨.unexpectedEnd, Token.endOf tokens⟩ := by
  obtain ⟨before, t, rfl⟩ := (List.eq_nil_or_concat' tokens).resolve_left hne
  obtain ⟨front, back, hsource, hplace, hback⟩ := exists_place_of_tokenize htokens
  have hstop : Token.endOf (before ++ [t]) = t.stop := by simp [Token.endOf]
  rw [hstop]
  exact .ending htokens hsource hplace hback (Token.stop_eq_behind hplace) hviable hopen

namespace Program

variable [DecidableEq α]

theorem error?_of_ofReading_error {r : Reading α} {e : FormError}
    (h : ofReading r = .error (.form e)) : r.error? = some e := by
  unfold ofReading at h
  split at h
  · cases h
  · next he =>
    cases h
    exact he
  · cases h

theorem faultAt_of_parse_error {source : String} {e : FormError}
    (h : parse (α := α) source = .error (.form e)) : FaultAt α source e := by
  unfold parse at h
  split at h
  · next htokens =>
    cases h
    obtain ⟨ls, c, rest, hcut, hnone, rfl⟩ := tokenize_eq_error_iff.1 htokens
    exact .character hcut hnone
  · next tokens htokens =>
    obtain ⟨front, rest, ss, rfl, hne, hss, hread⟩ :=
      exists_of_readAll_error (error?_of_ofReading_error h)
    rcases draft_of_read_error hread with hdraft | hmisfit
    · rcases atToken_of_draft_error hss hne hdraft with ⟨rfl, hviable, hopen⟩ | hat
      · exact faultAt_of_unfinished (by simp [hne]) htokens hviable hopen
      · exact faultAt_of_atToken htokens hat
    · exact faultAt_of_atToken htokens (atToken_of_misfit hss hmisfit)

/-- **Errors of form are reported in the text**, at what is at fault there, with one exception: behind a
last token that holds a line feed the reported place is none of the text. -/
theorem parse_fault {source : String} {e : FormError}
    (h : parse (α := α) source = .error (.form e)) :
    FaultAt α source e ∧
      ((∃ front back, source.toList = front ++ back ∧ e.position = .behind front) ↔
        ¬ (e.fault = .unexpectedEnd ∧
          ∃ before t, tokenize source = .ok (before ++ [t]) ∧ '\n' ∈ t.text.toList)) := by
  have hfault := faultAt_of_parse_error h
  refine ⟨hfault, ?_⟩
  cases hfault with
  | @character ls c rest hcut _ => exact iff_of_true ⟨_, c :: rest, hcut.concat, rfl⟩ (by simp)
  | @token before after t fault front back _ hsource _ hoffends =>
    rw [List.append_assoc] at hsource
    exact iff_of_true ⟨front, _, hsource, rfl⟩ fun hend => hoffends.fault_ne hend.1
  | @ending before t front back htokens hsource hplace _ hstop _ _ =>
    constructor
    · intro hinside hend
      obtain ⟨front', back', hsplit, hstop⟩ := hinside
      obtain ⟨-, before', t', htokens', hfeed⟩ := hend
      rw [htokens] at htokens'
      obtain ⟨-, ht⟩ := List.append_inj' (Except.ok.inj htokens') rfl
      cases ht
      exact Token.stop_ne_behind hplace hfeed (hsplit.symm.trans hsource) hstop
    · intro hend
      have hline : '\n' ∉ t.text.toList := fun hfeed => hend ⟨rfl, before, t, htokens, hfeed⟩
      exact ⟨_, back, hsource, hstop hline⟩

/-- The arguments are not closed, and the last of them runs over two lines. -/
def unclosedNote : String := "p(\"a\nb\""

/-- The end is reported in the eighth column of the first line, which has five. -/
theorem unclosedNote_misplaced :
    ∃ e, parse (α := Empty) unclosedNote = .error (.form e) ∧ e.fault = .unexpectedEnd ∧
      Position.behind unclosedNote.toList = { line := 2, column := 3 } ∧
        ¬ ∃ front back, unclosedNote.toList = front ++ back ∧ e.position = .behind front := by
  have hparse : parse (α := Empty) unclosedNote =
      .error (.form ⟨.unexpectedEnd, { line := 1, column := 8 }⟩) := by decide +kernel
  have hnowhere : ∀ front ∈ unclosedNote.toList.inits,
      Position.behind front ≠ { line := 1, column := 8 } := by decide +kernel
  refine ⟨_, hparse, rfl, by decide +kernel, fun hinside => ?_⟩
  obtain ⟨front, back, hsource, hposition⟩ := hinside
  exact hnowhere front ((List.mem_inits _ _).2 ⟨back, hsource.symm⟩) hposition.symm

/-- Between the head and the body of the second statement the arrow is missing. -/
theorem parse_fault_reach :
    ∃ e, parse (α := Empty) "leg(a, b).\nreach(X, Y) leg(X, Y)." = .error (.form e) ∧
      FaultAt Empty "leg(a, b).\nreach(X, Y) leg(X, Y)." e ∧
        ∃ front back, "leg(a, b).\nreach(X, Y) leg(X, Y).".toList = front ++ back ∧
          e.position = .behind front := by
  have hparse : parse (α := Empty) "leg(a, b).\nreach(X, Y) leg(X, Y)." =
      .error (.form ⟨.expected .arrow "leg", { line := 2, column := 13 }⟩) := by decide +kernel
  obtain ⟨hfault, hinside⟩ := parse_fault hparse
  exact ⟨_, hparse, hfault, hinside.2 fun hend => nomatch hend.1⟩

end Program

end Faults

end Verdict

import Verdict.Proofs.Syntax.Lexemes
import Verdict.Proofs.Syntax.Unplaced

/-!
# Layout between tokens

The text of a token is that token wherever it stands, as long as nothing behind it goes on its word
(`Lexes.spells_of_mem`). Layout and ended comments go on no word and come to no token (`Gap`), so token
texts with gaps between them come to the symbols they were taken from (`Spaced.spells`). With what is
known of places (`parse_unplaced`), a text that is laid out anew is the same program, or has the same
error at another place (`parse_respaced`).
-/

namespace Verdict

open Lexeme

/-! ## Tokens by themselves -/

theorem Lexeme.Stands.spells {kind : TokenKind} {text rest : List Char}
    (h : Stands (.token kind) text rest) : Spells text [(kind, String.ofList text)] :=
  fun _ _ hstops hrest => .token (scan_of_stands (h.of_stops fun _ => hstops)) hrest

/-- The text of each token comes to its symbol again. -/
theorem Lexes.spells_of_mem {cs : List Char} {w : List Symbol} (h : Lexes cs w) :
    ∀ s ∈ w, Spells s.2.toList [s] := by
  induction h with
  | done => exact List.forall_mem_nil _
  | skip _ _ _ ih => exact ih
  | @token cs text rest kind w hscan _ ih =>
    intro s hs
    rcases List.mem_cons.1 hs with rfl | hs
    · show Spells (String.ofList text).toList _
      rw [String.toList_ofList]
      exact (stands_of_scan hscan).spells
    · exact ih s hs

/-! ## Gaps -/

/-- Layout, and comments with the line feed that ends them. -/
inductive Gap : List Char → Prop
  | nil : Gap []
  | layout {c : Char} {cs : List Char} : isLayout c = true → Gap cs → Gap (c :: cs)
  | comment {body cs : List Char} : (∀ c ∈ body, c ≠ '\n') → Gap cs →
    Gap ('%' :: (body ++ '\n' :: cs))

theorem not_inWord_of_isLayout {c : Char} (h : isLayout c = true) : inWord c = false := by
  simp only [isLayout, Bool.or_eq_true, beq_iff_eq] at h
  rcases h with ((rfl | rfl) | rfl) | rfl <;> rfl

theorem Gap.stops {cs : List Char} (h : Gap cs) : Lexes.Stops cs := by
  cases h with
  | nil => exact Lexes.stops_nil
  | layout hc _ => exact Lexes.stops_cons.2 (not_inWord_of_isLayout hc)
  | comment _ _ => exact Lexes.stops_cons.2 rfl

/-- A gap comes to no symbol. -/
theorem Gap.spells {cs : List Char} (h : Gap cs) : SpellsClosed cs [] := by
  intro rest w hrest
  induction h with
  | nil => exact hrest
  | layout hc _ ih => exact ih.layout hc
  | @comment body cs hbody _ ih =>
    have hline : Lexes ('\n' :: (cs ++ rest)) w := ih.layout rfl
    have hcomment : Stands .comment ('%' :: body) ('\n' :: (cs ++ rest)) := by
      refine .comment hbody fun c hc => ?_
      cases hc
      rfl
    have hscan := scan_of_stands hcomment
    have htext : '%' :: (body ++ '\n' :: cs) ++ rest = '%' :: body ++ '\n' :: (cs ++ rest) := by simp
    rw [htext]
    exact .skip hscan (fun _ e => nomatch e) hline

/-! ## Texts with gaps between them -/

/-- The texts in their order, with a gap between any two. -/
inductive Spaced : List String → List Char → Prop
  | nil : Spaced [] []
  | single {text : String} : Spaced [text] text.toList
  | cons {text next : String} {texts : List String} {gap cs : List Char} : Gap gap → gap ≠ [] →
    Spaced (next :: texts) cs → Spaced (text :: next :: texts) (text.toList ++ gap ++ cs)

/-- The text is made of the given ones, with gaps between them; at its ends there may be gaps, too. -/
inductive Respaced (texts : List String) : List Char → Prop
  | mk {front body back : List Char} : Gap front → Spaced texts body → Gap back →
    Respaced texts (front ++ body ++ back)

theorem Spaced.spells {w : List Symbol} {cs : List Char} (hw : ∀ s ∈ w, Spells s.2.toList [s])
    (h : Spaced (w.map Prod.snd) cs) : Spells cs w := by
  induction w generalizing cs with
  | nil =>
    cases h
    exact fun _ _ _ hrest => hrest
  | cons s w ih =>
    obtain ⟨hs, hw⟩ := List.forall_mem_cons.1 hw
    cases w with
    | nil =>
      cases h
      exact hs
    | cons s' w =>
      cases h with
      | cons hgap hne hrest =>
        exact (hs.append_closed hgap.spells hgap.stops hne).append_spells (ih hw hrest)

theorem Respaced.lexes {w : List Symbol} {cs : List Char} (hw : ∀ s ∈ w, Spells s.2.toList [s])
    (h : Respaced (w.map Prod.snd) cs) : Lexes cs w := by
  obtain ⟨hfront, hbody, hback⟩ := h
  have hend : Lexes _ [] := hback.spells [] [] .done
  rw [List.append_nil] at hend
  have hall := hfront.spells.append_spells (hbody.spells hw)
  have := hall _ _ hback.stops hend
  rw [List.append_nil] at this
  exact this

namespace Program

variable {α : Type} [DecidableEq α]

/-- **Layout does not matter.** When the tokens of a text are laid out anew, the text has the same
tokens, and it is the same program, or it has the same error but for the place. -/
theorem parse_respaced {source source' : String} {tokens : List Token}
    (h : tokenize source = .ok tokens) (h' : Respaced (tokens.map Token.text) source'.toList) :
    (∃ tokens', tokenize source' = .ok tokens' ∧
        tokens'.map Token.symbol = tokens.map Token.symbol) ∧
      ((∃ p : Program α, parse source = .ok p ∧ parse source' = .ok p) ∨
        ∃ e e', parse (α := α) source = .error e ∧ parse (α := α) source' = .error e' ∧
          e'.unplaced = e.unplaced) := by
  have hlexes : Lexes source.toList (tokens.map Token.symbol) :=
    Lexes.exists_tokenize_iff.1 ⟨tokens, h, rfl⟩
  have htexts : tokens.map Token.text = (tokens.map Token.symbol).map Prod.snd := by
    rw [List.map_map]
    rfl
  rw [htexts] at h'
  have hlexes' := h'.lexes hlexes.spells_of_mem
  refine ⟨Lexes.exists_tokenize_iff.2 hlexes', ?_⟩
  have hsame := (parse_unplaced (α := α) hlexes').trans (parse_unplaced hlexes).symm
  cases hp : parse (α := α) source with
  | ok p =>
    rw [hp] at hsame
    exact Or.inl ⟨p, rfl, mapError_eq_ok_iff.1 hsame⟩
  | error e =>
    rw [hp] at hsame
    obtain ⟨e', he', hunplaced⟩ := mapError_eq_error_iff.1 hsame
    exact Or.inr ⟨e, e', rfl, he', hunplaced⟩

/-- A quoted text that holds a percent sign, an escaped quote and a line feed. -/
def note : String := "note(\"5% \\\" of\n it\"). % done"

def notePulledApart : String := "%(\nnote\t(%\n\"5% \\\" of\n it\"\r\n) ."

theorem respaced_note :
    Respaced ["note", "(", "\"5% \\\" of\n it\"", ")", "."] notePulledApart.toList := by
  have layout (c : Char) (hc : isLayout c = true) : Gap [c] := .layout hc .nil
  have hfront : Gap ['%', '(', '\n'] := @Gap.comment ['('] [] (by simp) .nil
  have hbody : Spaced ["note", "(", "\"5% \\\" of\n it\"", ")", "."] _ :=
    .cons (layout '\t' rfl) (by simp) <| .cons (@Gap.comment [] [] (by simp) .nil) (by simp) <|
      .cons (.layout (c := '\r') rfl (layout '\n' rfl)) (by simp) <|
        .cons (layout ' ' rfl) (by simp) .single
  exact .mk hfront hbody .nil

theorem parse_respaced_note :
    ∃ tokens, tokenize note = .ok tokens ∧
      Respaced (tokens.map Token.text) notePulledApart.toList ∧
        ∃ p : Program, parse note = .ok p ∧ parse notePulledApart = .ok p := by
  have htexts : (tokenize note).map (·.map Token.text) =
      .ok ["note", "(", "\"5% \\\" of\n it\"", ")", "."] := by decide +kernel
  obtain ⟨tokens, htokens, e⟩ := map_eq_ok_iff.1 htexts
  have hrespaced : Respaced (tokens.map Token.text) notePulledApart.toList := e ▸ respaced_note
  have hparse : (parse (α := Empty) note).isOk = true := by decide +kernel
  refine ⟨tokens, htokens, hrespaced, ?_⟩
  rcases (parse_respaced (α := Empty) htokens hrespaced).2 with hp | ⟨e, e', he, -⟩
  · exact hp
  · rw [he] at hparse
    cases hparse

end Program

end Verdict

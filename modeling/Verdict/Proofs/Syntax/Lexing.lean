import Verdict.Proofs.Result
import Verdict.Proofs.Text
import Verdict.Syntax.Token

/-!
# The symbols of a text

A symbol is a token without its place. Which symbols a text comes to can be said without positions
(`Lexes`), and `exists_tokenize_iff` says that this is what the tokens of a text are. What a printer
writes is put together from pieces, and a piece comes to the same symbols wherever it stands, provided
that what follows it does not go on its last word:

> **a piece spells its symbols**: `Spells cs w → Lexes rest v → Lexes (cs ++ rest) (w ++ v)` for every
> `rest` that does not start inside a word.

Words need the condition; a piece that ends in a mark or in layout does not (`SpellsClosed`).
-/

namespace Verdict

/-- A token without its place. -/
abbrev Symbol := TokenKind × String

def Token.symbol (t : Token) : Symbol := (t.kind, t.text)

theorem Token.symbol_of_kind {t : Token} {kind : TokenKind} (h : t.kind = kind) :
    t.symbol = (kind, t.text) := by
  rw [symbol, h]

open Lexeme

/-- The tokens of the text are the given symbols. -/
inductive Lexes : List Char → List Symbol → Prop where
  | done : Lexes [] []
  | skip {cs text rest : List Char} {kind : Kind} {w : List Symbol} :
    scan cs = some (kind, text, rest) → (∀ k, kind ≠ .token k) → Lexes rest w → Lexes cs w
  | token {cs text rest : List Char} {kind : TokenKind} {w : List Symbol} :
    scan cs = some (.token kind, text, rest) → Lexes rest w →
      Lexes cs ((kind, String.ofList text) :: w)

namespace Lexes

/-! ## The tokens of a text -/

theorem lexemesFrom_of_scan {cs text rest : List Char} {kind : Kind}
    (h : scan cs = some (kind, text, rest)) (p : Position) :
    lexemesFrom p cs =
      (lexemesFrom (p.advance text) rest).map ({ kind, text, position := p } :: ·) := by
  rw [lexemesFrom]
  split
  · next h' =>
    rw [h] at h'
    cases h'
    rfl
  · next h' =>
    rw [h] at h'
    cases h'

theorem exists_lexemesFrom {cs : List Char} {w : List Symbol} (h : Lexes cs w) (p : Position) :
    ∃ ls, lexemesFrom p cs = .ok ls ∧ (ls.filterMap token?).map Token.symbol = w := by
  induction h generalizing p with
  | done =>
    refine ⟨[], ?_, rfl⟩
    rw [lexemesFrom]
    rfl
  | @skip cs text rest kind w hscan hkind _ ih =>
    obtain ⟨ls, hls, hw⟩ := ih (p.advance text)
    refine ⟨{ kind, text, position := p } :: ls, ?_, ?_⟩
    · rw [lexemesFrom_of_scan hscan, hls]
      rfl
    · cases kind with
      | layout => exact hw
      | comment => exact hw
      | token k => exact absurd rfl (hkind k)
  | @token cs text rest kind w hscan _ ih =>
    obtain ⟨ls, hls, hw⟩ := ih (p.advance text)
    refine ⟨{ kind := .token kind, text, position := p } :: ls, ?_, ?_⟩
    · rw [lexemesFrom_of_scan hscan, hls]
      rfl
    · rw [← hw]
      rfl

theorem of_lexemesFrom {p : Position} {cs : List Char} {ls : List Lexeme}
    (h : lexemesFrom p cs = .ok ls) : Lexes cs ((ls.filterMap token?).map Token.symbol) := by
  fun_induction lexemesFrom p cs generalizing ls with
  | case1 p cs kind text rest hscan ih =>
    obtain ⟨ls', hls', rfl⟩ := map_eq_ok_iff.1 h
    have hrest := ih hls'
    cases kind with
    | layout => exact .skip hscan (fun _ e => nomatch e) hrest
    | comment => exact .skip hscan (fun _ e => nomatch e) hrest
    | token k => exact .token hscan hrest
  | case2 =>
    cases h
    exact .done
  | case3 => cases h

/-- **The symbols of a text are its tokens without their places.** -/
theorem exists_tokenize_iff {source : String} {w : List Symbol} :
    (∃ ts, tokenize source = .ok ts ∧ ts.map Token.symbol = w) ↔ Lexes source.toList w := by
  unfold tokenize lexemes
  constructor
  · intro h
    obtain ⟨ts, hts, hw⟩ := h
    obtain ⟨ls, hls, rfl⟩ := map_eq_ok_iff.1 hts
    rw [← hw]
    exact of_lexemesFrom hls
  · intro h
    obtain ⟨ls, hls, hw⟩ := h.exists_lexemesFrom .start
    exact ⟨_, map_eq_ok_iff.2 ⟨ls, hls, rfl⟩, hw⟩

/-! ## Layout -/

theorem scan_of_layout {c : Char} (h : isLayout c = true) (cs : List Char) :
    scan (c :: cs) = some (.layout, c :: cs.takeWhile isLayout, cs.dropWhile isLayout) := by
  have ho : opening? c = some .layout := by
    unfold opening?
    rw [if_pos h]
  rw [scan, ho]

/-- Layout in front may be dropped. -/
theorem dropLayout {cs : List Char} {w : List Symbol} (h : Lexes cs w) :
    Lexes (cs.dropWhile isLayout) w := by
  cases cs with
  | nil => exact h
  | cons c cs =>
    by_cases hc : isLayout c = true
    · rw [List.dropWhile_cons_of_pos hc]
      cases h with
      | skip hscan _ hrest =>
        rw [scan_of_layout hc] at hscan
        cases hscan
        exact hrest
      | token hscan _ =>
        rw [scan_of_layout hc] at hscan
        cases hscan
    · rw [List.dropWhile_cons_of_neg hc]
      exact h

/-- Layout in front adds nothing. -/
theorem layout {c : Char} {cs : List Char} {w : List Symbol} (hc : isLayout c = true)
    (h : Lexes cs w) : Lexes (c :: cs) w :=
  .skip (scan_of_layout hc cs) (fun _ e => nomatch e) h.dropLayout

/-! ## Words and marks -/

theorem opening?_of_capital {c : Char} (h : isCapital c = true) : opening? c = some .capital := by
  have hl : ¬ isLayout c = true := by
    intro hl
    simp only [isLayout, Bool.or_eq_true, beq_iff_eq] at hl
    rcases hl with ((rfl | rfl) | rfl) | rfl <;> exact absurd h (by decide)
  unfold opening?
  rw [if_neg hl, if_pos h]

theorem opening?_of_small {c : Char} (h : isSmall c = true) : opening? c = some .small := by
  have hl : ¬ isLayout c = true := by
    intro hl
    simp only [isLayout, Bool.or_eq_true, beq_iff_eq] at hl
    rcases hl with ((rfl | rfl) | rfl) | rfl <;> exact absurd h (by decide)
  have hc : ¬ isCapital c = true := by
    simp only [isSmall, isCapital, Bool.and_eq_true, decide_eq_true_eq, Char.le_def,
      UInt32.le_iff_toNat_le] at h ⊢
    intro hc
    have : 'a'.val.toNat ≤ 'Z'.val.toNat := Nat.le_trans h.1 hc.2
    exact absurd this (by decide)
  unfold opening?
  rw [if_neg hl, if_neg hc, if_pos h]

/-- What follows a piece does not go on a word. -/
def Stops (cs : List Char) : Prop := ∀ c, cs.head? = some c → inWord c = false

theorem stops_nil : Stops [] := fun _ h => nomatch h

theorem stops_cons {c : Char} {cs : List Char} : Stops (c :: cs) ↔ inWord c = false := by
  constructor
  · intro h
    exact h c rfl
  · intro h d e
    cases e
    exact h

theorem Stops.append {cs ds : List Char} (hc : Stops cs) (hd : Stops ds) : Stops (cs ++ ds) := by
  cases cs with
  | nil => exact hd
  | cons c cs => exact stops_cons.2 (stops_cons.1 hc)

theorem scan_of_small {c : Char} {word rest : List Char} (hc : isSmall c = true)
    (h : ∀ d ∈ word, inWord d = true) (hr : Stops rest) :
    scan (c :: word ++ rest) = some (.token (wordKind (c :: word)), c :: word, rest) := by
  rw [List.cons_append, scan, opening?_of_small hc]
  show some (Kind.token (wordKind (c :: (word ++ rest).takeWhile inWord)), _, _) = _
  rw [Text.takeWhile_run_append h hr, Text.dropWhile_run_append h hr]

theorem scan_of_capital {c : Char} {word rest : List Char} (hc : isCapital c = true)
    (h : ∀ d ∈ word, inWord d = true) (hr : Stops rest) :
    scan (c :: word ++ rest) = some (.token .var, c :: word, rest) := by
  rw [List.cons_append, scan, opening?_of_capital hc]
  show some (Kind.token .var, c :: (word ++ rest).takeWhile inWord, _) = _
  rw [Text.takeWhile_run_append h hr, Text.dropWhile_run_append h hr]

theorem mark {c : Char} {kind : TokenKind} {rest : List Char} {w : List Symbol}
    (hc : opening? c = some (.mark kind)) (h : Lexes rest w) :
    Lexes (c :: rest) ((kind, String.ofList [c]) :: w) := by
  have hscan : scan (c :: rest) = some (.token kind, [c], rest) := by rw [scan, hc]
  exact .token hscan h

theorem arrow {rest : List Char} {w : List Symbol} (h : Lexes rest w) :
    Lexes (':' :: '-' :: rest) ((.arrow, ":-") :: w) := by
  have hscan : scan (':' :: '-' :: rest) = some (.token .arrow, [':', '-'], rest) := rfl
  exact .token hscan h

end Lexes

/-! ## Pieces of text -/

/-- In front of whatever does not go on a word, the piece comes to the symbols. -/
def Spells (cs : List Char) (w : List Symbol) : Prop :=
  ∀ rest v, Lexes.Stops rest → Lexes rest v → Lexes (cs ++ rest) (w ++ v)

/-- In front of anything, the piece comes to the symbols. -/
def SpellsClosed (cs : List Char) (w : List Symbol) : Prop :=
  ∀ rest v, Lexes rest v → Lexes (cs ++ rest) (w ++ v)

section Pieces

variable {cs ds : List Char} {w v : List Symbol}

theorem SpellsClosed.spells (h : SpellsClosed cs w) : Spells cs w :=
  fun rest v _ hr => h rest v hr

theorem SpellsClosed.append (h : SpellsClosed cs w) (h' : SpellsClosed ds v) :
    SpellsClosed (cs ++ ds) (w ++ v) := by
  intro rest u hr
  rw [List.append_assoc, List.append_assoc]
  exact h _ _ (h' _ _ hr)

theorem SpellsClosed.append_spells (h : SpellsClosed cs w) (h' : Spells ds v) :
    Spells (cs ++ ds) (w ++ v) := by
  intro rest u hs hr
  rw [List.append_assoc, List.append_assoc]
  exact h _ _ (h' _ _ hs hr)

theorem Spells.append_closed (h : Spells cs w) (h' : SpellsClosed ds v) (hs : Lexes.Stops ds)
    (hne : ds ≠ []) : SpellsClosed (cs ++ ds) (w ++ v) := by
  intro rest u hr
  rw [List.append_assoc, List.append_assoc]
  refine h _ _ ?_ (h' _ _ hr)
  cases ds with
  | nil => exact absurd rfl hne
  | cons d ds => exact Lexes.stops_cons.2 (Lexes.stops_cons.1 hs)

/-- A text that is one piece comes to its symbols. -/
theorem Spells.lexes (h : Spells cs w) : Lexes cs w := by
  have := h [] [] Lexes.stops_nil .done
  rw [List.append_nil, List.append_nil] at this
  exact this

theorem spellsClosed_layout (h : ∀ c ∈ cs, Lexeme.isLayout c = true) : SpellsClosed cs [] := by
  intro rest v hr
  induction cs with
  | nil => exact hr
  | cons c cs ih =>
    exact (ih fun d hd => h d (List.mem_cons_of_mem _ hd)).layout (h c List.mem_cons_self)

/-- Closed pieces spell their symbols one after another. -/
theorem SpellsClosed.flatMap {β : Type} {f : β → List Char} {g : β → List Symbol} {l : List β}
    (h : ∀ x ∈ l, SpellsClosed (f x) (g x)) : SpellsClosed (l.flatMap f) (l.flatMap g) := by
  induction l with
  | nil => exact fun _ _ hr => hr
  | cons x l ih =>
    rw [List.flatMap_cons, List.flatMap_cons]
    exact (h x List.mem_cons_self).append (ih fun y hy => h y (List.mem_cons_of_mem _ hy))

theorem spellsClosed_mark {c : Char} {kind : TokenKind} (h : opening? c = some (.mark kind)) :
    SpellsClosed [c] [(kind, String.ofList [c])] :=
  fun _ _ hr => hr.mark h

theorem spellsClosed_arrow : SpellsClosed [':', '-'] [(.arrow, ":-")] :=
  fun _ _ hr => hr.arrow

theorem spells_small {c : Char} {word : List Char} (hc : isSmall c = true)
    (h : ∀ d ∈ word, inWord d = true) :
    Spells (c :: word) [(wordKind (c :: word), String.ofList (c :: word))] :=
  fun _ _ hs hr => .token (Lexes.scan_of_small hc h hs) hr

theorem spells_capital {c : Char} {word : List Char} (hc : isCapital c = true)
    (h : ∀ d ∈ word, inWord d = true) :
    Spells (c :: word) [(.var, String.ofList (c :: word))] :=
  fun _ _ hs hr => .token (Lexes.scan_of_capital hc h hs) hr

/-- Pieces with a separator between them spell their symbols with those of the separator between
them. -/
theorem Spells.intercalate {β : Type} {f : β → List Char} {g : β → List Symbol}
    (hsep : SpellsClosed cs w) (hs : Lexes.Stops cs) (hne : cs ≠ []) {l : List β}
    (h : ∀ x ∈ l, Spells (f x) (g x)) :
    Spells (cs.intercalate (l.map f)) (w.intercalate (l.map g)) := by
  induction l with
  | nil => exact fun _ _ _ hr => hr
  | cons x l ih =>
    have hx := h x List.mem_cons_self
    have hl := ih fun y hy => h y (List.mem_cons_of_mem _ hy)
    cases l with
    | nil =>
      simp only [List.map_cons, List.map_nil, List.intercalate_singleton]
      exact hx
    | cons y l =>
      simp only [List.map_cons, List.intercalate_cons_cons, List.append_assoc] at hl ⊢
      have := (hx.append_closed hsep hs hne).append_spells hl
      rw [List.append_assoc, List.append_assoc] at this
      exact this

/-- With layout between them, pieces spell their symbols one after another. -/
theorem Spells.concat {β : Type} {f : β → List Char} {g : β → List Symbol}
    (hsep : SpellsClosed cs []) (hs : Lexes.Stops cs) (hne : cs ≠ []) {l : List β}
    (h : ∀ x ∈ l, Spells (f x) (g x)) : Spells (cs.intercalate (l.map f)) (l.flatMap g) := by
  have hflat : List.intercalate [] (l.map g) = l.flatMap g := by
    induction l with
    | nil => rfl
    | cons x l ih =>
      have hl := ih fun y hy => h y (List.mem_cons_of_mem _ hy)
      cases l with
      | nil =>
        rw [List.map_singleton, List.intercalate_singleton, List.flatMap_cons, List.flatMap_nil,
          List.append_nil]
      | cons y l =>
        rw [List.map_cons, List.map_cons, List.intercalate_cons_cons, List.append_nil,
          List.flatMap_cons, ← hl, List.map_cons]
  rw [← hflat]
  exact Spells.intercalate hsep hs hne h

end Pieces

end Verdict

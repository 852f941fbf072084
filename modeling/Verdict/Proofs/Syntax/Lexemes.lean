import Mathlib.Data.List.TakeWhile
import Verdict.Proofs.Syntax.Lexing

/-!
# What a text is cut into

The kinds of lexeme, said without a scanner: `Stands kind text rest` says that `text` is a lexeme when
`rest` comes behind it. Layout and words are as long as they can be, a comment goes on to the end of its
line, and a quoted text ends at the first quote that is not escaped. Scanning takes off just what stands
first (`scan_eq_some_iff`), so a text is cut in one way only.

Places are said without counting along, too: `Position.behind` reads line and column off the whole text
in front. The main statement is `tokenize_exact`: the tokens are those of the lexemes that a text is cut
into, each at its place, and a text that cannot be cut to its end is refused at the place where no
lexeme stands.
-/

namespace Verdict

namespace Position

/-- The place behind a text: one line for each line feed in it, and one column for each character since
the last one. -/
def behind (cs : List Char) : Position where
  line := 1 + cs.count '\n'
  column := 1 + (cs.reverse.takeWhile (· != '\n')).length

theorem behind_concat (cs : List Char) (c : Char) : behind (cs ++ [c]) = (behind cs).next c := by
  unfold next
  by_cases h : c = '\n'
  · simp [behind, h, Nat.add_assoc]
  · simp [behind, h, Nat.add_assoc]

theorem behind_append (cs ds : List Char) : behind (cs ++ ds) = (behind cs).advance ds := by
  induction ds generalizing cs with
  | nil => rw [List.append_nil, advance_nil]
  | cons d ds ih =>
    have hstep := ih (cs ++ [d])
    rw [List.append_assoc, List.singleton_append, behind_concat] at hstep
    exact hstep

end Position

namespace Lexeme

/-! ## Kinds of lexeme -/

/-- The marks, with their kinds. -/
def marks : List (TokenKind × List Char) :=
  [(.arrow, [':', '-']), (.comma, [',']), (.lparen, ['(']), (.rparen, [')']), (.dot, ['.'])]

/-- What can stand between two quotes. A backslash takes the next character along, whatever it is but a
line feed. -/
inductive Quotable (mark : Char) : List Char → Prop
  | nil : Quotable mark []
  | plain {c : Char} {cs : List Char} : c ≠ mark → c ≠ '\\' → Quotable mark cs → Quotable mark (c :: cs)
  | escaped {c : Char} {cs : List Char} : c ≠ '\n' → Quotable mark cs → Quotable mark ('\\' :: c :: cs)

/-- With `rest` behind it, `text` is a lexeme of the given kind. -/
inductive Stands : Kind → List Char → List Char → Prop
  | layout {text rest : List Char} : text ≠ [] → (∀ c ∈ text, isLayout c = true) →
    (∀ c ∈ rest.head?, isLayout c = false) → Stands .layout text rest
  | comment {body rest : List Char} : (∀ c ∈ body, c ≠ '\n') → (∀ c ∈ rest.head?, c = '\n') →
    Stands .comment ('%' :: body) rest
  | mark {kind : TokenKind} {text rest : List Char} : (kind, text) ∈ marks →
    Stands (.token kind) text rest
  | capital {c : Char} {word rest : List Char} : isCapital c = true →
    (∀ d ∈ word, inWord d = true) → Lexes.Stops rest → Stands (.token .var) (c :: word) rest
  | small {c : Char} {word rest : List Char} : isSmall c = true →
    (∀ d ∈ word, inWord d = true) → Lexes.Stops rest →
      Stands (.token (wordKind (c :: word))) (c :: word) rest
  | quoted {mark : Char} {body rest : List Char} : mark = '"' ∨ mark = '\'' → Quotable mark body →
    Stands (.token .text) (mark :: (body ++ [mark])) rest

/-- Only of a word does it matter what comes behind it. -/
theorem Stands.of_stops {kind : TokenKind} {text rest rest' : List Char}
    (h : Stands (.token kind) text rest) (hrest : Lexes.Stops rest → Lexes.Stops rest') :
    Stands (.token kind) text rest' := by
  cases h with
  | mark hmark => exact .mark hmark
  | capital hc hword hstops => exact .capital hc hword (hrest hstops)
  | small hc hword hstops => exact .small hc hword (hrest hstops)
  | quoted hmark hbody => exact .quoted hmark hbody

/-! ## Scanning takes off what stands first -/

theorem closeQuote_append {mark : Char} (hmark : mark ≠ '\\') {body : List Char}
    (h : Quotable mark body) (rest : List Char) :
    closeQuote mark (body ++ mark :: rest) = some (body ++ [mark], rest) := by
  induction h with
  | nil =>
    rw [List.nil_append, closeQuote, if_pos rfl]
    · rfl
    · intro _ _ e _
      exact hmark e
  | plain hc hslash _ ih =>
    rw [List.cons_append, closeQuote, if_neg hc, if_neg hslash, ih]
    · rfl
    · intro _ _ e _
      exact hslash e
  | escaped hc _ ih =>
    rw [List.cons_append, List.cons_append, closeQuote, if_neg hc, ih]
    rfl

theorem quotable_of_closeQuote {mark : Char} {cs text rest : List Char}
    (h : closeQuote mark cs = some (text, rest)) :
    ∃ body, text = body ++ [mark] ∧ Quotable mark body := by
  fun_induction closeQuote mark cs generalizing text with
  | case1 => cases h
  | case2 => cases h
  | case3 c cs hc ih =>
    obtain ⟨⟨text, rest⟩, htext, e⟩ := Option.map_eq_some_iff.1 h
    cases e
    obtain ⟨body, rfl, hbody⟩ := ih htext
    exact ⟨'\\' :: c :: body, rfl, .escaped hc hbody⟩
  | case4 =>
    cases h
    exact ⟨[], rfl, .nil⟩
  | case5 => cases h
  | case6 c cs _ hc hslash ih =>
    obtain ⟨⟨text, rest⟩, htext, e⟩ := Option.map_eq_some_iff.1 h
    cases e
    obtain ⟨body, rfl, hbody⟩ := ih htext
    exact ⟨c :: body, rfl, .plain hc hslash hbody⟩

theorem scan_of_stands {kind : Kind} {text rest : List Char} (h : Stands kind text rest) :
    scan (text ++ rest) = some (kind, text, rest) := by
  cases h with
  | layout hne htext hrest =>
    obtain ⟨c, run, rfl⟩ := List.exists_cons_of_ne_nil hne
    obtain ⟨hc, hrun⟩ := List.forall_mem_cons.1 htext
    rw [List.cons_append, Lexes.scan_of_layout hc, Text.takeWhile_run_append hrun hrest,
      Text.dropWhile_run_append hrun hrest]
  | @comment body rest hbody hrest =>
    have hrun : ∀ c ∈ body, (c != '\n') = true := fun c hc => bne_iff_ne.2 (hbody c hc)
    have hend : ∀ c ∈ rest.head?, (c != '\n') = false := by
      intro c hc
      simp [hrest c hc]
    show some (Kind.comment, '%' :: (body ++ rest).takeWhile (· != '\n'),
      (body ++ rest).dropWhile (· != '\n')) = _
    rw [Text.takeWhile_run_append hrun hend, Text.dropWhile_run_append hrun hend]
  | mark hmark =>
    simp only [marks, List.mem_cons, List.not_mem_nil, or_false, Prod.mk.injEq] at hmark
    rcases hmark with ⟨rfl, rfl⟩ | ⟨rfl, rfl⟩ | ⟨rfl, rfl⟩ | ⟨rfl, rfl⟩ | ⟨rfl, rfl⟩ <;> rfl
  | capital hc hword hrest => exact Lexes.scan_of_capital hc hword hrest
  | small hc hword hrest => exact Lexes.scan_of_small hc hword hrest
  | @quoted mark body rest hmark hbody =>
    have hopen : opening? mark = some .quote := by
      rcases hmark with rfl | rfl <;> rfl
    have hslash : mark ≠ '\\' := by
      rcases hmark with rfl | rfl <;> decide
    rw [List.cons_append, List.append_assoc, List.singleton_append, scan, hopen]
    show (closeQuote mark (body ++ mark :: rest)).map _ = _
    rw [closeQuote_append hslash hbody]
    rfl

/-- The character can begin a lexeme that opens so. -/
def Opening.Suits (c : Char) : Opening → Prop
  | layout => isLayout c = true
  | comment => c = '%'
  | arrow => c = ':'
  | mark kind => (kind, [c]) ∈ marks
  | capital => isCapital c = true
  | small => isSmall c = true
  | quote => c = '"' ∨ c = '\''

theorem suits_of_opening? {c : Char} {o : Opening} (h : opening? c = some o) : o.Suits c := by
  unfold opening? at h
  split at h
  · cases h
    assumption
  · split at h
    · cases h
      assumption
    · split at h
      · cases h
        assumption
      · split at h <;> cases h
        all_goals simp [Opening.Suits, marks]

theorem stands_of_scan {cs text rest : List Char} {kind : Kind}
    (h : scan cs = some (kind, text, rest)) : Stands kind text rest := by
  cases cs with
  | nil => cases h
  | cons c cs =>
    rw [scan] at h
    cases ho : opening? c with
    | none =>
      rw [ho] at h
      cases h
    | some o =>
      have hsuits := suits_of_opening? ho
      rw [ho] at h
      cases o with
      | layout =>
        cases h
        refine .layout (List.cons_ne_nil _ _) ?_ (Text.head?_dropWhile _ cs)
        exact List.forall_mem_cons.2 ⟨hsuits, fun d hd => List.mem_takeWhile_imp hd⟩
      | comment =>
        cases h
        cases hsuits
        refine .comment (fun d hd => ?_) (fun d hd => ?_)
        · have hrun : (d != '\n') = true := List.mem_takeWhile_imp (p := (· != '\n')) hd
          exact bne_iff_ne.1 hrun
        · simpa using Text.head?_dropWhile _ cs d hd
      | arrow =>
        dsimp only at h
        split at h
        · cases h
          cases hsuits
          exact .mark (by decide)
        · cases h
      | mark k =>
        cases h
        exact .mark hsuits
      | capital =>
        cases h
        exact .capital hsuits (fun d hd => List.mem_takeWhile_imp hd) (Text.head?_dropWhile _ cs)
      | small =>
        cases h
        exact .small hsuits (fun d hd => List.mem_takeWhile_imp hd) (Text.head?_dropWhile _ cs)
      | quote =>
        obtain ⟨⟨text, rest⟩, htext, e⟩ := Option.map_eq_some_iff.1 h
        cases e
        obtain ⟨body, rfl, hbody⟩ := quotable_of_closeQuote htext
        exact .quoted hsuits hbody

/-- **Scanning takes off the lexeme that stands first.** -/
theorem scan_eq_some_iff {cs text rest : List Char} {kind : Kind} :
    scan cs = some (kind, text, rest) ↔ cs = text ++ rest ∧ Stands kind text rest := by
  constructor
  · intro h
    exact ⟨(scan_eq_append h).1, stands_of_scan h⟩
  · intro h
    obtain ⟨rfl, h⟩ := h
    exact scan_of_stands h

/-! ## Cutting a text -/

/-- The text begins with the lexemes, one behind the other, and goes on with `rest`; `before` is what
comes in front of the text. -/
structure CutInto (before cs : List Char) (ls : List Lexeme) (rest : List Char) : Prop where
  concat : cs = ls.flatMap Lexeme.text ++ rest
  stands : ∀ front l back, ls = front ++ l :: back →
    Stands l.kind l.text (back.flatMap Lexeme.text ++ rest)
  position : ∀ front l back, ls = front ++ l :: back →
    l.position = .behind (before ++ front.flatMap Lexeme.text)

/-- The text does not begin with a lexeme. -/
def NoneStands (cs : List Char) : Prop :=
  ∀ kind text rest, cs = text ++ rest → ¬ Stands kind text rest

theorem scan_eq_none_iff {cs : List Char} : scan cs = none ↔ NoneStands cs := by
  constructor
  · intro h kind text rest e hstands
    have hscan := scan_eq_some_iff.2 ⟨e, hstands⟩
    rw [h] at hscan
    cases hscan
  · intro h
    cases hscan : scan cs with
    | none => rfl
    | some r =>
      obtain ⟨e, hstands⟩ := scan_eq_some_iff.1 hscan
      exact absurd hstands (h _ _ _ e)

section Cutting

variable {before cs rest : List Char} {l : Lexeme} {ls : List Lexeme}

theorem cutInto_nil : CutInto before cs [] cs where
  concat := rfl
  stands := by simp
  position := by simp

theorem cutInto_cons {more : List Char} (hstands : Stands l.kind l.text more)
    (hposition : l.position = .behind before) (h : CutInto (before ++ l.text) more ls rest) :
    CutInto before (l.text ++ more) (l :: ls) rest where
  concat := by rw [List.flatMap_cons, List.append_assoc, ← h.concat]
  stands := by
    intro front m back e
    cases front with
    | nil =>
      cases e
      rw [← h.concat]
      exact hstands
    | cons _ front =>
      cases e
      exact h.stands front m back rfl
  position := by
    intro front m back e
    cases front with
    | nil =>
      cases e
      rw [List.flatMap_nil, List.append_nil]
      exact hposition
    | cons _ front =>
      cases e
      rw [List.flatMap_cons, ← List.append_assoc]
      exact h.position front m back rfl

/-- What is behind some of the lexemes is cut into the others. -/
theorem CutInto.drop (first : List Lexeme) (h : CutInto before cs (first ++ ls) rest) :
    CutInto (before ++ first.flatMap Lexeme.text) (ls.flatMap Lexeme.text ++ rest) ls rest where
  concat := rfl
  stands := by
    intro front l back e
    exact h.stands (first ++ front) l back (by rw [e, List.append_assoc])
  position := by
    intro front l back e
    rw [h.position (first ++ front) l back (by rw [e, List.append_assoc]), List.flatMap_append,
      List.append_assoc]

theorem CutInto.tail (h : CutInto before cs (l :: ls) rest) :
    ∃ more, cs = l.text ++ more ∧ Stands l.kind l.text more ∧ l.position = .behind before ∧
      CutInto (before ++ l.text) more ls rest := by
  have hmore := CutInto.drop [l] h
  rw [List.flatMap_singleton] at hmore
  refine ⟨ls.flatMap Lexeme.text ++ rest, ?_, h.stands [] l ls rfl, ?_, hmore⟩
  · rw [h.concat, List.flatMap_cons, List.append_assoc]
  · rw [h.position [] l ls rfl, List.flatMap_nil, List.append_nil]

/-- Every text is cut into lexemes, to its end or to where none stands. -/
theorem exists_cutInto (before cs : List Char) :
    ∃ ls rest, CutInto before cs ls rest ∧ scan rest = none := by
  induction hn : cs.length using Nat.strong_induction_on generalizing before cs with
  | _ n ih =>
    subst hn
    cases hscan : scan cs with
    | none => exact ⟨[], cs, cutInto_nil, hscan⟩
    | some r =>
      obtain ⟨kind, text, more⟩ := r
      obtain ⟨ls, rest, hcut, hnone⟩ :=
        ih more.length (length_scan_lt hscan) (before ++ text) more rfl
      obtain ⟨rfl, hstands⟩ := scan_eq_some_iff.1 hscan
      let l : Lexeme := { kind, text, position := .behind before }
      have hfirst : Stands l.kind l.text more := hstands
      exact ⟨l :: ls, rest, cutInto_cons hfirst rfl hcut, hnone⟩

/-- The lexemes of a text are those that it is cut into, and those of the rest. -/
theorem CutInto.lexemesFrom_eq (h : CutInto before cs ls rest) :
    lexemesFrom (.behind before) cs =
      (lexemesFrom (.behind (before ++ ls.flatMap Lexeme.text)) rest).map (ls ++ ·) := by
  induction ls generalizing before cs with
  | nil =>
    have hcs : cs = rest := h.concat
    rw [hcs, List.flatMap_nil, List.append_nil]
    cases lexemesFrom (.behind before) rest <;> rfl
  | cons l ls ih =>
    obtain ⟨more, rfl, hstands, hposition, hmore⟩ := h.tail
    rw [Lexes.lexemesFrom_of_scan (scan_of_stands hstands), ← Position.behind_append, ih hmore,
      ← hposition, List.flatMap_cons, List.append_assoc]
    cases lexemesFrom _ rest <;> rfl

theorem lexemesFrom_nil (p : Position) : lexemesFrom p [] = .ok [] := by
  rw [lexemesFrom]
  rfl

theorem lexemesFrom_of_scan_eq_none {c : Char} (h : scan (c :: rest) = none) (p : Position) :
    lexemesFrom p (c :: rest) = .error ⟨.unexpectedCharacter c, p⟩ := by
  rw [lexemesFrom]
  split
  · next h' =>
    rw [h] at h'
    cases h'
  · rfl

theorem lexemesFrom_eq_ok_iff :
    lexemesFrom (.behind before) cs = .ok ls ↔ CutInto before cs ls [] := by
  constructor
  · intro h
    obtain ⟨ls', rest, hcut, hnone⟩ := exists_cutInto before cs
    rw [hcut.lexemesFrom_eq] at h
    cases rest with
    | nil =>
      rw [lexemesFrom_nil] at h
      cases h
      show CutInto before cs (ls' ++ []) []
      rw [List.append_nil]
      exact hcut
    | cons c rest =>
      rw [lexemesFrom_of_scan_eq_none hnone] at h
      cases h
  · intro h
    rw [h.lexemesFrom_eq, lexemesFrom_nil]
    exact congrArg Except.ok (List.append_nil ls)

theorem lexemesFrom_eq_error_iff {e : FormError} :
    lexemesFrom (.behind before) cs = .error e ↔
      ∃ ls c rest, CutInto before cs ls (c :: rest) ∧ NoneStands (c :: rest) ∧
        e = ⟨.unexpectedCharacter c, .behind (before ++ ls.flatMap Lexeme.text)⟩ := by
  constructor
  · intro h
    obtain ⟨ls, rest, hcut, hnone⟩ := exists_cutInto before cs
    rw [hcut.lexemesFrom_eq] at h
    cases rest with
    | nil =>
      rw [lexemesFrom_nil] at h
      cases h
    | cons c rest =>
      rw [lexemesFrom_of_scan_eq_none hnone] at h
      cases h
      exact ⟨ls, c, rest, hcut, scan_eq_none_iff.1 hnone, rfl⟩
  · intro h
    obtain ⟨ls, c, rest, hcut, hnone, rfl⟩ := h
    rw [hcut.lexemesFrom_eq, lexemesFrom_of_scan_eq_none (scan_eq_none_iff.2 hnone)]
    rfl

end Cutting

end Lexeme

open Lexeme

theorem tokenize_eq_ok_iff {source : String} {tokens : List Token} :
    tokenize source = .ok tokens ↔
      ∃ ls, CutInto [] source.toList ls [] ∧ tokens = ls.filterMap token? := by
  have hstart : lexemes source = lexemesFrom (.behind []) source.toList := rfl
  rw [tokenize, map_eq_ok_iff]
  simp only [hstart, lexemesFrom_eq_ok_iff]
  exact exists_congr fun ls => and_congr_right fun _ => eq_comm

theorem tokenize_eq_error_iff {source : String} {e : FormError} :
    tokenize source = .error e ↔
      ∃ ls c rest, CutInto [] source.toList ls (c :: rest) ∧ NoneStands (c :: rest) ∧
        e = ⟨.unexpectedCharacter c, .behind (ls.flatMap Lexeme.text)⟩ := by
  have hstart : lexemes source = lexemesFrom (.behind []) source.toList := rfl
  rw [tokenize, map_eq_error_iff, hstart, lexemesFrom_eq_error_iff]
  rfl

/-- **The tokens of a text.** They are those among the lexemes that the text is cut into to its end, in
order and each with its place. A text that cannot be cut to its end is refused where it stops, at the
first place where no lexeme stands. -/
theorem tokenize_exact (source : String) :
    (∀ tokens, tokenize source = .ok tokens ↔
      ∃ ls, CutInto [] source.toList ls [] ∧ tokens = ls.filterMap token?) ∧
    ∀ e, tokenize source = .error e ↔
      ∃ ls c rest, CutInto [] source.toList ls (c :: rest) ∧ NoneStands (c :: rest) ∧
        e = ⟨.unexpectedCharacter c, .behind (ls.flatMap Lexeme.text)⟩ :=
  ⟨fun _ => tokenize_eq_ok_iff, fun _ => tokenize_eq_error_iff⟩

end Verdict

import Verdict.Proofs.Document.Reading
import Verdict.Proofs.Numeral
import Verdict.Proofs.Text

/-!
# What a dependency expression holds

An expression is cut at its ampersands, and each part that is not blank stands for one dependency: for a
document, for a number, or for an id as it is (`Dependency.Denotes`). Not every part stands for one.
Among the digits are some without a decimal value, such as superscripts, and a part that consists of
digits is taken for a numeral in any case; so it is refused if one of those is among them, or if there
are too many (`Dependency.Refused`).

> An expression is read iff none of its parts is refused, and then as what its parts denote. Otherwise
> the first refused part decides. An outline is refused for its numerals iff the expression of one of its
> inferences is, and the first of these decides (`Dependency.read_exact`).
-/

namespace Verdict

open Text

namespace Dependency

/-- The dependency that a part denotes. -/
inductive Denotes : List Char → Id → Prop where
  | document (name : List Char) : Denotes ('$' :: name) (.text (String.ofList name))
  | number {part : List Char} {values : List Nat} :
    part ≠ [] → part.length ≤ Numeral.maxDigits → Numeral.Digits part values →
      Denotes part (.number (Nat.ofDigits 10 values.reverse : Nat))
  | item {part : List Char} :
    part.head? ≠ some '$' → (∃ c ∈ part, isDigit c = false) → Denotes part (.text (String.ofList part))

/-- A part that consists of digits and is no numeral. -/
inductive Refused : List Char → NumeralError → Prop where
  | tooLong {part : List Char} :
    (∀ c ∈ part, isDigit c = true) → Numeral.maxDigits < (Numeral.leading part).length →
      Refused part (.tooLong (Numeral.leading part).length)
  | notDecimal {part : List Char} :
    (∀ c ∈ part, isDigit c = true) → (Numeral.leading part).length ≤ Numeral.maxDigits →
      (∃ c ∈ part, decimalValue? c = none) → Refused part (.notDecimal (String.ofList part))

/-- The first part that is refused is so with this error. -/
def FirstRefused (parts : List (List Char)) (e : NumeralError) : Prop :=
  ∃ before part after, parts = before ++ part :: after ∧ (∀ p ∈ before, ∃ id, Denotes p id) ∧
    Refused part e

variable {part : List Char} {id : Id} {e : NumeralError}

/-! ## One part -/

theorem ofPart_dollar (name : List Char) : ofPart ('$' :: name) = .ok (.text (String.ofList name)) :=
  rfl

theorem ofPart_of_head (h : part.head? ≠ some '$') :
    ofPart part = if part.all isDigit then (Numeral.read part).map fun n : Nat => .number n
      else .ok (.text (String.ofList part)) := by
  rw [ofPart.eq_def]
  split
  · exact absurd rfl h
  · split
    · cases Numeral.read part <;> rfl
    · rfl

theorem head_of_digits (h : ∀ c ∈ part, isDigit c = true) : part.head? ≠ some '$' := by
  intro hhead
  have hdollar := h '$' (List.mem_of_mem_head? hhead)
  revert hdollar
  decide

theorem ofPart_of_digits (h : ∀ c ∈ part, isDigit c = true) :
    ofPart part = (Numeral.read part).map fun n : Nat => .number n := by
  rw [ofPart_of_head (head_of_digits h), if_pos (List.all_eq_true.2 h)]

theorem ofPart_of_denotes (h : Denotes part id) : ofPart part = .ok id := by
  cases h with
  | document name => exact ofPart_dollar name
  | number hne hlen hdigits =>
    rw [ofPart_of_digits hdigits.isDigit, Numeral.read_of_digits hdigits hne hlen]
    rfl
  | item hhead hother =>
    obtain ⟨c, hc, hno⟩ := hother
    rw [ofPart_of_head hhead, if_neg]
    intro hall
    rw [List.all_eq_true.1 hall c hc] at hno
    cases hno

theorem ofPart_of_refused (h : Refused part e) : ofPart part = .error e := by
  cases h with
  | tooLong hdigits hlen =>
    rw [ofPart_of_digits hdigits, Numeral.read_of_long hlen]
    rfl
  | notDecimal hdigits hlen hbad =>
    rw [ofPart_of_digits hdigits, Numeral.read_of_not_decimal hlen hbad]
    rfl

/-- **A part that is not empty denotes a dependency or is refused.** -/
theorem denotes_or_refused (hne : part ≠ []) : (∃ id, Denotes part id) ∨ ∃ e, Refused part e := by
  by_cases hdigits : ∀ c ∈ part, isDigit c = true
  · rcases Numeral.read_cases hne with ⟨hlen, values, hvalues, -⟩ | ⟨hlen, -⟩ | ⟨hlen, hbad, -⟩
    · exact Or.inl ⟨_, .number hne hlen hvalues⟩
    · exact Or.inr ⟨_, .tooLong hdigits hlen⟩
    · exact Or.inr ⟨_, .notDecimal hdigits hlen hbad⟩
  · by_cases hhead : part.head? = some '$'
    · obtain ⟨name, rfl⟩ := List.head?_eq_some_iff.1 hhead
      exact Or.inl ⟨_, .document name⟩
    · simp only [not_forall, Bool.not_eq_true] at hdigits
      obtain ⟨c, hc, hno⟩ := hdigits
      exact Or.inl ⟨_, .item hhead ⟨c, hc, hno⟩⟩

theorem ofPart_eq_ok_iff (hne : part ≠ []) : ofPart part = .ok id ↔ Denotes part id := by
  refine ⟨fun h => ?_, ofPart_of_denotes⟩
  rcases denotes_or_refused hne with ⟨id', hid⟩ | ⟨e, he⟩
  · rw [ofPart_of_denotes hid] at h
    cases h
    exact hid
  · rw [ofPart_of_refused he] at h
    cases h

theorem ofPart_eq_error_iff (hne : part ≠ []) : ofPart part = .error e ↔ Refused part e := by
  refine ⟨fun h => ?_, ofPart_of_refused⟩
  rcases denotes_or_refused hne with ⟨id, hid⟩ | ⟨e', he⟩
  · rw [ofPart_of_denotes hid] at h
    cases h
  · rw [ofPart_of_refused he] at h
    cases h
    exact he

/-! ## Whole expressions -/

variable {expression : List Char}

theorem ne_nil_of_mem_parts (h : part ∈ parts expression) : part ≠ [] := by
  have hfilter := List.of_mem_filter h
  rintro rfl
  cases hfilter

theorem parts_of_not_mem (h : '&' ∉ expression) :
    parts expression = [trim expression].filter (! ·.isEmpty) := by
  rw [parts, split_of_not_mem h, List.map_singleton]

theorem parts_append (h : '&' ∉ expression) (rest : List Char) :
    parts (expression ++ '&' :: rest) = parts expression ++ parts rest := by
  rw [parts_of_not_mem h, parts, split_append_sep h, List.map_cons, parts, ← List.filter_append,
    List.singleton_append]

/-- A piece that can stand between ampersands. -/
structure Piece (piece : List Char) : Prop where
  trimmed : Trimmed piece
  ne_nil : piece ≠ []
  unseparated : '&' ∉ piece

theorem Piece.not_mem {piece ds es : List Char} (h : Piece piece) (hds : ∀ d ∈ ds, isBlank d = true)
    (hes : ∀ d ∈ es, isBlank d = true) : '&' ∉ ds ++ (piece ++ es) := by
  have hblank : ∀ {l : List Char}, (∀ d ∈ l, isBlank d = true) → '&' ∉ l := fun hl hmem => by
    cases hl '&' hmem
  simp only [List.mem_append, not_or]
  exact ⟨hblank hds, h.unseparated, hblank hes⟩

/-- A piece is found between blanks. -/
theorem Piece.parts_eq {piece ds es : List Char} (h : Piece piece) (hds : ∀ d ∈ ds, isBlank d = true)
    (hes : ∀ d ∈ es, isBlank d = true) : parts (ds ++ (piece ++ es)) = [piece] := by
  rw [parts_of_not_mem (h.not_mem hds hes), h.trimmed.trim_append h.ne_nil hds hes,
    List.filter_cons_of_pos, List.filter_nil]
  rw [Bool.not_eq_true', ← Bool.not_eq_true, List.isEmpty_iff]
  exact h.ne_nil

/-- Behind an ampersand there are blanks in front of the next piece. -/
theorem parts_append_join {ds piece : List Char} {pieces : List (List Char)}
    (hds : ∀ d ∈ ds, isBlank d = true) (h : ∀ p ∈ piece :: pieces, Piece p) :
    parts (ds ++ [' ', '&', ' '].intercalate (piece :: pieces)) = piece :: pieces := by
  induction pieces generalizing ds piece with
  | nil =>
    have hpiece := h piece List.mem_cons_self
    have hjoin : [' ', '&', ' '].intercalate [piece] = piece ++ [] := by simp
    rw [hjoin]
    exact hpiece.parts_eq hds (List.forall_mem_nil _)
  | cons piece' pieces ih =>
    obtain ⟨hpiece, hpieces⟩ := List.forall_mem_cons.1 h
    have hspace : ∀ d ∈ [' '], isBlank d = true := by simp [isBlank]
    have hjoin : ds ++ [' ', '&', ' '].intercalate (piece :: piece' :: pieces) =
        (ds ++ (piece ++ [' '])) ++
          '&' :: ([' '] ++ [' ', '&', ' '].intercalate (piece' :: pieces)) := by
      rw [List.intercalate_cons_cons]
      simp
    rw [hjoin, parts_append (hpiece.not_mem hds hspace), hpiece.parts_eq hds hspace, ih hspace hpieces,
      List.singleton_append]

/-- **The pieces that an expression is joined of are its parts.** -/
theorem parts_join {pieces : List (List Char)} (h : ∀ piece ∈ pieces, Piece piece) :
    parts ([' ', '&', ' '].intercalate pieces) = pieces := by
  cases pieces with
  | nil => rfl
  | cons piece pieces => exact parts_append_join (List.forall_mem_nil _) h

/-- **An expression is read as what its parts denote.** -/
theorem read_eq_ok_iff {ids : List Id} :
    read expression = .ok ids ↔ List.Forall₂ Denotes (parts expression) ids := by
  rw [read, mapM_eq_ok_iff]
  have hparts : ∀ part ∈ parts expression, part ≠ [] := fun _ => ne_nil_of_mem_parts
  generalize parts expression = l at hparts ⊢
  induction l generalizing ids with
  | nil => rw [List.forall₂_nil_left_iff, List.forall₂_nil_left_iff]
  | cons part l ih =>
    obtain ⟨hne, hl⟩ := List.forall_mem_cons.1 hparts
    simp only [List.forall₂_cons_left_iff, ofPart_eq_ok_iff hne, ih hl]

/-- **The first part that is refused decides.** -/
theorem read_eq_error_iff : read expression = .error e ↔ FirstRefused (parts expression) e := by
  have hne {before part after} (h : parts expression = before ++ part :: after) : part ≠ [] :=
    ne_nil_of_mem_parts (h ▸ List.mem_append_cons_self)
  rw [read, mapM_eq_error_iff, FirstRefused]
  constructor
  · rintro ⟨before, part, after, hparts, hbefore, hpart⟩
    refine ⟨before, part, after, hparts, fun p hp => ?_, (ofPart_eq_error_iff (hne hparts)).1 hpart⟩
    have hmem : p ∈ parts expression := hparts ▸ List.mem_append_left _ hp
    obtain ⟨id, hid⟩ := hbefore p hp
    exact ⟨id, (ofPart_eq_ok_iff (ne_nil_of_mem_parts hmem)).1 hid⟩
  · rintro ⟨before, part, after, hparts, hbefore, hpart⟩
    refine ⟨before, part, after, hparts, fun p hp => ?_, ofPart_of_refused hpart⟩
    obtain ⟨id, hid⟩ := hbefore p hp
    exact ⟨id, ofPart_of_denotes hid⟩

end Dependency

/-! ## Outlines -/

namespace Outline

variable {hs : List Heading} {k : Nat} {e : NumeralError}

theorem inferencesOf_eq_error_iff :
    inferencesOf hs k = .error e ↔ hs.mapM Heading.dependsOn = .error e := by
  induction hs generalizing k with
  | nil => simp [inferencesOf, pure, Except.pure]
  | cons h hs ih =>
    have hhead : h.inference k = .error e ↔ h.dependsOn = .error e := by
      rw [Heading.inference, bind_eq_error_iff]
      simp [pure, Except.pure]
    have hsome : (∃ i, h.inference k = .ok i) ↔ ∃ deps, h.dependsOn = .ok deps := exists_map_eq_ok_iff
    simp only [inferencesOf_cons, List.mapM_cons, bind_eq_error_iff, hhead, ih, pure, Except.pure,
      reduceCtorEq, and_false, exists_false, or_false, exists_and_right, hsome]

theorem Heading.dependsOn_eq_error_iff {h : Heading} :
    h.dependsOn = .error e ↔
      ∃ code, h.expression = some code ∧ Dependency.FirstRefused (Dependency.parts code) e := by
  rw [dependsOn]
  cases h.expression with
  | none => simp
  | some code => simp [Dependency.read_eq_error_iff]

end Outline

open Outline

/-- **An expression is read iff no part is refused**, and an outline is refused for its numerals iff one
of its expressions is. -/
theorem Dependency.read_exact (expression : List Char) (text path : String) :
    (∃ pieces : List (List Char),
      ['&'].intercalate pieces = expression ∧ (∀ piece ∈ pieces, '&' ∉ piece) ∧
      parts expression = (pieces.map trim).filter (! ·.isEmpty) ∧
      (∀ ids, read expression = .ok ids ↔ List.Forall₂ Denotes (parts expression) ids) ∧
      ∀ e, read expression = .error e ↔ FirstRefused (parts expression) e) ∧
    ∀ e, Document.ofOutline text path = .error (.numeral e) ↔
      ∃ before h after code, headings [] (linesOf text) = before ++ h :: after ∧
        (∀ h' ∈ before, ∃ ids, h'.dependsOn = .ok ids) ∧
        h.expression = some code ∧ FirstRefused (parts code) e := by
  constructor
  · exact ⟨split '&' expression, intercalate_split '&' expression, fun _ => not_mem_of_mem_split, rfl,
      fun _ => read_eq_ok_iff, fun _ => read_eq_error_iff⟩
  · intro e
    rw [Document.ofOutline_eq_numeral_iff, reading, bind_eq_error_iff, inferencesOf_eq_error_iff,
      mapM_eq_error_iff]
    simp only [Heading.dependsOn_eq_error_iff, pure, Except.pure, reduceCtorEq, and_false, exists_false,
      or_false, exists_and_left]

/-- A superscript is a digit without a decimal value. -/
theorem Dependency.superscript_refused :
    Dependency.read ['²'] = .error (.notDecimal "²") ∧
      Document.ofOutline "- Area\n  - `²`\n" "doc.md" = .error (.numeral (.notDecimal "²")) := by
  constructor <;> rfl

end Verdict

import Verdict.Document.Outline
import Verdict.Proofs.Text

/-!
# Single lines of an outline

What a line says is decided by how it starts. An import starts with that word, and what stands between
the quotes is the name of a file; so the name of the document may itself look like that of a file
(`Line.ofText_import`). A bullet makes the line an item, and the text behind it is taken as it is
(`Line.ofText_bullet`, `Line.ofText_nested`), whatever it looks like, unless it starts with the box of a
task (`Content.ofText_eq_plain_iff`).
-/

namespace Verdict.Outline

open Text

/-! ## Characters -/

/-- A character that the name of an imported document may hold. -/
def inFileName (c : Char) : Bool :=
  isAsciiAlnum c || c == '_' || c == '.' || c == '-'

section Characters

variable {c : Char}

theorem isWord_of_isAsciiAlnum (h : isAsciiAlnum c = true) : isWord c = true := by
  have hsmall : c.toNat < 128 := by
    simp only [isAsciiAlnum, Bool.or_eq_true, Bool.and_eq_true, decide_eq_true_eq, Char.le_def,
      UInt32.le_iff_toNat_le] at h
    rcases h with (⟨-, h⟩ | ⟨-, h⟩) | ⟨-, h⟩ <;> exact Nat.lt_of_le_of_lt h (by decide)
  rw [isWord, if_pos hsmall, h, Bool.true_or]

theorem isLineBreak_of_inFileName (h : inFileName c = true) : isLineBreak c = false := by
  by_contra hbreak
  simp only [isLineBreak, Bool.not_eq_false, Bool.or_eq_true, beq_iff_eq, or_assoc] at hbreak
  rcases hbreak with rfl | rfl | rfl | rfl | rfl | rfl | rfl | rfl | rfl | rfl <;>
    exact absurd h (by decide)

theorem inFileName_of_isDigit (h : c.isDigit = true) : inFileName c = true := by
  have halnum : isAsciiAlnum c = true := by
    simp only [Char.isDigit, Bool.and_eq_true, decide_eq_true_eq] at h
    simp only [isAsciiAlnum, Bool.or_eq_true, Bool.and_eq_true, decide_eq_true_eq]
    exact Or.inr h
  rw [inFileName, halnum, Bool.true_or, Bool.true_or, Bool.true_or]

theorem isBlank_of_isDigit (h : c.isDigit = true) : isBlank c = false := by
  simp only [Char.isDigit, Bool.and_eq_true, decide_eq_true_eq, ge_iff_le, UInt32.le_iff_toNat_le] at h
  have hle : 48 ≤ c.toNat ∧ c.toNat ≤ 57 := h
  rw [← Bool.not_eq_true]
  simp only [isBlank, Bool.or_eq_true, Bool.and_eq_true, decide_eq_true_eq, beq_iff_eq]
  omega

end Characters

/-! ## Imports -/

theorem takeRun?_append {p : Char → Bool} {run rest : List Char} (h : ∀ c ∈ run, p c = true)
    (hne : run ≠ []) (hstop : ∀ c ∈ rest.head?, p c = false) :
    takeRun? p (run ++ rest) = some (run, rest) := by
  have htake := takeWhile_run_append h hstop
  have hdrop := dropWhile_run_append h hstop
  obtain ⟨c, run, rfl⟩ := List.exists_cons_of_ne_nil hne
  rw [takeRun?, htake, hdrop]

theorem dropExtension?_append (stem : List Char) : dropExtension? (stem ++ ".md".toList) = some stem :=
  List.isSuffixOf?_eq_some_iff_append_eq.2 rfl

/-- An import gives its name, whatever ends the name looks like. -/
theorem importName?_of_name {name : List Char} (hne : name ≠ []) (h : ∀ c ∈ name, inFileName c = true) :
    importName? ("import x from './".toList ++ (name ++ ".md';".toList)) = some name := by
  have hword : ∀ c ∈ name ++ ".md".toList, (isWord c || c == '.' || c == '-') = true := by
    rw [List.forall_mem_append]
    refine ⟨fun c hc => ?_, List.all_eq_true.1 rfl⟩
    have hname := h c hc
    simp only [inFileName, Bool.or_eq_true, beq_iff_eq] at hname ⊢
    rcases hname with ((hname | rfl) | rfl) | rfl
    · exact Or.inl (Or.inl (isWord_of_isAsciiAlnum hname))
    all_goals decide
  have hrun : takeRun? (fun c => isWord c || c == '.' || c == '-')
      (name ++ ".md';".toList) = some (name ++ ".md".toList, ['\'', ';']) := by
    have hsplit : name ++ ".md';".toList = (name ++ ".md".toList) ++ ['\'', ';'] := by simp
    rw [hsplit]
    apply takeRun?_append hword
    · simp
    · rintro c hc
      cases hc
      rfl
  -- Everything in front of the name is the same in each import.
  show (takeRun? (fun c => isWord c || c == '.' || c == '-') (name ++ ".md';".toList) >>= _) = _
  rw [hrun]
  show (dropExtension? (name ++ ".md".toList) >>= _) = _
  rw [dropExtension?_append]
  exact if_pos ⟨rfl, hne⟩

theorem Line.ofText_import {name : List Char} (hne : name ≠ []) (h : ∀ c ∈ name, inFileName c = true) :
    Line.ofText ("import x from './".toList ++ (name ++ ".md';".toList)) = .importOf name := by
  rw [ofText, importName?_of_name hne h]

/-! ## Items -/

section Items

/-- A text that may stand on a line behind a bullet. -/
structure IsItemText (text : List Char) : Prop where
  ne_nil : text ≠ []
  trimmed : Trimmed text
  unbroken : ∀ c ∈ text, isLineBreak c = false

theorem isItemText_iff {text : List Char} :
    IsItemText text ↔ text ≠ [] ∧ Trimmed text ∧ text.all (! isLineBreak ·) = true := by
  simp only [List.all_eq_true, Bool.not_eq_true']
  exact ⟨fun h => ⟨h.ne_nil, h.trimmed, h.unbroken⟩, fun h => ⟨h.1, h.2.1, h.2.2⟩⟩

instance (text : List Char) : Decidable (IsItemText text) :=
  decidable_of_iff _ isItemText_iff.symm

variable {text : List Char}

theorem importName?_of_bullet (text : List Char) : importName? ('-' :: text) = none :=
  rfl

theorem importName?_of_nested (text : List Char) : importName? (' ' :: ' ' :: '-' :: text) = none :=
  rfl

theorem item?_of_bullet (h : Trimmed text) : item? ('-' :: ' ' :: text) = some (0, text) := by
  show some (0, trim text) = _
  rw [h.trim_eq]

theorem item?_of_nested (h : Trimmed text) :
    item? (' ' :: ' ' :: '-' :: ' ' :: text) = some (2, text) := by
  show some (2, trim text) = _
  rw [h.trim_eq]

theorem Line.ofText_bullet (h : Trimmed text) :
    Line.ofText ('-' :: ' ' :: text) = .item 0 (.ofText text) := by
  rw [ofText, importName?_of_bullet, item?_of_bullet h]

theorem Line.ofText_nested (h : Trimmed text) :
    Line.ofText (' ' :: ' ' :: '-' :: ' ' :: text) = .item 2 (.ofText text) := by
  rw [ofText, importName?_of_nested, item?_of_nested h]

/-! ## Tasks -/

/-- A text that starts with the box of a task. -/
def IsTask (text : List Char) : Prop :=
  ∃ mark c rest, text = '[' :: mark :: ']' :: c :: rest ∧ mark ∈ [' ', 'x', 'X'] ∧ isBlank c = true

theorem Content.ofText_box (ticked : Bool) (h : Trimmed text) :
    Content.ofText ('[' :: (if ticked then 'x' else ' ') :: ']' :: ' ' :: text) = .task ticked text := by
  cases ticked with
  | true =>
    show Content.task true (trim text) = _
    rw [h.trim_eq]
  | false =>
    show Content.task false (trim text) = _
    rw [h.trim_eq]

/-- Text is plain iff it does not look like a task. -/
theorem Content.ofText_eq_plain_iff : Content.ofText text = .plain text ↔ ¬ IsTask text := by
  constructor
  · rintro h ⟨mark, c, rest, rfl, hmark, hblank⟩
    rw [ofText, if_pos ⟨by simpa using hmark, hblank⟩] at h
    cases h
  · intro h
    rw [ofText.eq_def]
    split
    · next mark c rest =>
      rw [if_neg]
      rintro ⟨hmark, hblank⟩
      exact h ⟨mark, c, rest, rfl, by simpa using hmark, hblank⟩
    · rfl

instance (text : List Char) : Decidable (IsTask text) :=
  decidable_of_iff (Content.ofText text ≠ .plain text) <| by
    rw [ne_eq, Content.ofText_eq_plain_iff, not_not]

end Items

/-! ## Code spans -/

theorem codeSpan?_quoted {code : List Char} (h : '`' ∉ code) :
    codeSpan? ('`' :: (code ++ ['`'])) = some code := by
  have hpos : ∀ c ∈ code, (c != '`') = true := fun c hc => by
    rw [bne_iff_ne]
    rintro rfl
    exact h hc
  show (if (code ++ ['`']).contains '`' then some ((code ++ ['`']).takeWhile (· != '`')) else none) = _
  rw [if_pos (by simp), List.takeWhile_append_of_pos hpos, List.takeWhile_cons_of_neg (by simp),
    List.append_nil]

end Verdict.Outline

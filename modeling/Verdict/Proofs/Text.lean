import Mathlib.Data.List.Basic
import Verdict.Text.Blank
import Verdict.Text.Line

/-!
# Cutting texts and putting them together

Cutting at a separator is undone by joining with it, and no part holds the separator. Texts that are
joined are texts with the separator behind each of them, but for the last one. A run of
characters is found again in front of what does not go on with it. Lines that hold no break are the lines
of the text that is made of them, whether or not the last one is ended as well. A text is *trimmed* when
it has no blank at either end; trimming leaves such a text alone, and finds it again between blanks.
-/

namespace Verdict.Text

/-! ## Separators -/

section Separators

variable {sep : Char} {cs : List Char}

theorem consFirst_eq_modifyHead {c : Char} {parts : List (List Char)} (h : parts ≠ []) :
    consFirst c parts = parts.modifyHead (c :: ·) := by
  cases parts with
  | nil => exact absurd rfl h
  | cons first rest => rfl

theorem split_eq_splitOn (sep : Char) (cs : List Char) : split sep cs = cs.splitOn sep := by
  induction cs with
  | nil => exact (List.splitOn_nil sep).symm
  | cons c cs ih =>
    rw [split, List.splitOn, List.splitOnP_cons_eq_if_modifyHead, ← List.splitOn, ← ih,
      consFirst_eq_modifyHead (split_ne_nil sep cs)]
    simp only [beq_iff_eq]

theorem intercalate_split (sep : Char) (cs : List Char) : [sep].intercalate (split sep cs) = cs := by
  rw [split_eq_splitOn, List.intercalate_splitOn]

theorem not_mem_of_mem_split {part : List Char} (h : part ∈ split sep cs) : sep ∉ part := by
  induction cs generalizing part with
  | nil =>
    rw [split, List.mem_singleton] at h
    rw [h]
    exact List.not_mem_nil
  | cons c cs ih =>
    rw [split] at h
    split at h
    · rcases List.mem_cons.1 h with rfl | h
      · exact List.not_mem_nil
      · exact ih h
    · next hc =>
      cases hparts : split sep cs with
      | nil => exact absurd hparts (split_ne_nil sep cs)
      | cons first rest =>
        rw [hparts, consFirst] at h
        rw [hparts] at ih
        rcases List.mem_cons.1 h with rfl | h
        · rw [List.mem_cons, not_or]
          exact ⟨Ne.symm hc, ih List.mem_cons_self⟩
        · exact ih (List.mem_cons_of_mem _ h)

theorem intercalate_concat (sep : List Char) (parts : List (List Char)) (last : List Char) :
    sep.intercalate (parts ++ [last]) = parts.flatMap (· ++ sep) ++ last := by
  induction parts with
  | nil => exact List.intercalate_singleton
  | cons part parts ih =>
    have hne : parts ++ [last] ≠ [] := by simp
    rw [List.cons_append, List.intercalate_cons_of_ne_nil hne, ih, List.flatMap_cons]
    simp only [List.append_assoc]

theorem intercalate_append_self (sep : List Char) {parts : List (List Char)} (h : parts ≠ []) :
    sep.intercalate parts ++ sep = parts.flatMap (· ++ sep) := by
  obtain ⟨front, last, rfl⟩ := (List.eq_nil_or_concat' parts).resolve_left h
  rw [intercalate_concat, List.flatMap_append, List.flatMap_singleton, List.append_assoc]

end Separators

/-! ## Runs -/

section Runs

variable {p : Char → Bool} {run rest : List Char}

theorem takeWhile_run_append (h : ∀ c ∈ run, p c = true) (hstop : ∀ c ∈ rest.head?, p c = false) :
    (run ++ rest).takeWhile p = run := by
  rw [List.takeWhile_append_of_pos h]
  cases rest with
  | nil => exact List.append_nil run
  | cons c rest => rw [List.takeWhile_cons_of_neg (by simp [hstop c rfl]), List.append_nil]

theorem dropWhile_run_append (h : ∀ c ∈ run, p c = true) (hstop : ∀ c ∈ rest.head?, p c = false) :
    (run ++ rest).dropWhile p = rest := by
  rw [List.dropWhile_append_of_pos h]
  cases rest with
  | nil => rfl
  | cons c rest => rw [List.dropWhile_cons_of_neg (by simp [hstop c rfl])]

theorem head?_dropWhile (p : Char → Bool) (cs : List Char) :
    ∀ c ∈ (cs.dropWhile p).head?, p c = false := by
  intro c hc
  have hstop := List.head?_dropWhile_not p cs
  rw [Option.mem_def.1 hc] at hstop
  exact hstop

end Runs

/-! ## Lines -/

section Lines

variable {line : List Char} {ls : List (List Char)}

/-- The text of the lines, each ended by a line feed. -/
def unlines (ls : List (List Char)) : List Char :=
  ls.flatMap (· ++ ['\n'])

theorem lines_cons {c : Char} (h : isLineBreak c = false) (cs : List Char) :
    lines (c :: cs) = consFirst c (lines cs) := by
  rw [lines.eq_def]
  split
  · contradiction
  · next heq =>
    cases heq
    cases h
  · next heq =>
    cases heq
    rw [if_neg (by simp [h])]

theorem lines_append_feed (h : ∀ c ∈ line, isLineBreak c = false) (rest : List Char) :
    lines (line ++ '\n' :: rest) = line :: lines rest := by
  induction line with
  | nil => rfl
  | cons c cs ih =>
    obtain ⟨hc, hcs⟩ := List.forall_mem_cons.1 h
    rw [List.cons_append, lines_cons hc, ih hcs, consFirst]

theorem lines_unlines_append (h : ∀ line ∈ ls, ∀ c ∈ line, isLineBreak c = false)
    (rest : List Char) : lines (unlines ls ++ rest) = ls ++ lines rest := by
  induction ls with
  | nil => rfl
  | cons line ls ih =>
    obtain ⟨hline, hls⟩ := List.forall_mem_cons.1 h
    rw [unlines, List.flatMap_cons, List.append_assoc, List.append_assoc, List.singleton_append,
      ← unlines, lines_append_feed hline, ih hls, List.cons_append]

theorem lines_unlines (h : ∀ line ∈ ls, ∀ c ∈ line, isLineBreak c = false) :
    lines (unlines ls) = ls := by
  have hnil : lines [] = [] := rfl
  have happend := lines_unlines_append h []
  rwa [List.append_nil, hnil, List.append_nil] at happend

/-- The last line feed makes no difference. -/
theorem lines_dropLast_unlines (h : ∀ line ∈ ls, line ≠ [] ∧ ∀ c ∈ line, isLineBreak c = false) :
    lines (unlines ls).dropLast = ls := by
  rcases List.eq_nil_or_concat ls with rfl | ⟨front, last, rfl⟩
  · rfl
  · rw [List.concat_eq_append, List.forall_mem_append] at h
    obtain ⟨hne, hlast⟩ := h.2 last (List.mem_singleton_self last)
    have htext : (unlines (front.concat last)).dropLast = unlines front ++ last := by
      simp [unlines]
    rw [htext, lines_unlines_append fun line hline => (h.1 line hline).2, lines_eq_singleton hne hlast,
      List.concat_eq_append]

end Lines

/-! ## Blanks at the ends -/

section Blanks

variable {cs ds : List Char}

/-- The text has no blank at either end. -/
structure Trimmed (cs : List Char) : Prop where
  head : ∀ c ∈ cs.head?, isBlank c = false
  last : ∀ c ∈ cs.getLast?, isBlank c = false

theorem trimmed_iff :
    Trimmed cs ↔ cs.head?.all (! isBlank ·) = true ∧ cs.getLast?.all (! isBlank ·) = true := by
  simp only [Option.all_eq_true, Bool.not_eq_true']
  exact ⟨fun h => ⟨h.head, h.last⟩, fun h => ⟨h.1, h.2⟩⟩

instance (cs : List Char) : Decidable (Trimmed cs) :=
  decidable_of_iff _ trimmed_iff.symm

theorem trimStart_of_head (h : ∀ c ∈ cs.head?, isBlank c = false) : trimStart cs = cs := by
  cases cs with
  | nil => rfl
  | cons c cs => exact List.dropWhile_cons_of_neg (by simp [h c rfl])

theorem trimEnd_of_last (h : ∀ c ∈ cs.getLast?, isBlank c = false) : trimEnd cs = cs := by
  rw [← List.head?_reverse] at h
  show (trimStart cs.reverse).reverse = cs
  rw [trimStart_of_head h, List.reverse_reverse]

theorem Trimmed.trim_eq (h : Trimmed cs) : trim cs = cs := by
  rw [trim, trimStart_of_head h.head, trimEnd_of_last h.last]

theorem trimStart_append (h : ∀ c ∈ ds, isBlank c = true) : trimStart (ds ++ cs) = trimStart cs :=
  List.dropWhile_append_of_pos h

theorem trimEnd_append (h : ∀ c ∈ ds, isBlank c = true) : trimEnd (cs ++ ds) = trimEnd cs := by
  show (trimStart (cs ++ ds).reverse).reverse = (trimStart cs.reverse).reverse
  rw [List.reverse_append, trimStart_append fun c hc => h c (List.mem_reverse.1 hc)]

/-- Trimming takes away what blanks stand around a text. -/
theorem Trimmed.trim_append {es : List Char} (h : Trimmed cs) (hne : cs ≠ [])
    (hds : ∀ c ∈ ds, isBlank c = true) (hes : ∀ c ∈ es, isBlank c = true) :
    trim (ds ++ (cs ++ es)) = cs := by
  have hhead : ∀ c ∈ (cs ++ es).head?, isBlank c = false := by
    rw [List.head?_append_of_ne_nil _ hne]
    exact h.head
  rw [trim, trimStart_append hds, trimStart_of_head hhead, trimEnd_append hes, trimEnd_of_last h.last]

theorem trimmed_cons {c : Char} (hc : isBlank c = false) (h : ∀ d ∈ cs.getLast?, isBlank d = false) :
    Trimmed (c :: cs) where
  head := by
    rintro d hd
    cases hd
    exact hc
  last := by
    cases cs with
    | nil =>
      rintro d hd
      cases hd
      exact hc
    | cons c' cs => exact h

end Blanks

end Verdict.Text

import Verdict.Proofs.Document.Expression
import Verdict.Proofs.Document.Line

/-!
# Outlines in plain form

The content of a document can be written down so that it is read back as it is. In plain form an outline
has a line such as `import x from './backlog.md';` for each import, then one for each assumption, then
one for each inference, and below an inference that depends on something one more line with its
dependencies:

    - [x] Postgres is an open source database
    - [ ] Postgres works with Node.js
    - We decided to go for Postgres
      - `1 & 2 & $backlog`

Texts may hold almost anything, bullets, boxes, imports and code spans among it. A line is told by how
it starts, the text behind it is taken whole, and only what is below an inference is searched for code.
What a text may not have are line breaks and blanks at its ends, and the text of an inference may not
look like a task (`Script.WellFormed`).

> The outline of a well-formed script is read as a document with this content. The assumptions are
> numbered first and the inferences behind them (`Document.ofOutline_script`).
-/

namespace Verdict.Outline

open Text

/-! ## Scripts -/

/-- What an inference in a script depends on. -/
inductive Reference where
  | number (n : Nat)
  | document (name : String)
deriving DecidableEq, Repr

/-- The content of a document: what it imports, its assumptions with their values, and its inferences
with what they depend on. -/
structure Script where
  imports : List String
  assumptions : List (Bool × String)
  inferences : List (String × List Reference)
deriving DecidableEq, Repr

namespace Reference

def id : Reference → Id
  | number n => .number n
  | document name => .text name

def written : Reference → List Char
  | number n => Nat.toDigits 10 n
  | document name => '$' :: name.toList

/-- A number is short enough to be read, and a name holds nothing that ends it. -/
def WellFormed : Reference → Prop
  | number n => (Nat.toDigits 10 n).length ≤ Numeral.maxDigits
  | document name => Trimmed name.toList ∧
      ∀ c ∈ name.toList, c ≠ '&' ∧ c ≠ '`' ∧ isLineBreak c = false

theorem wellFormed_document_iff {name : String} :
    (document name).WellFormed ↔ Trimmed name.toList ∧
      name.toList.all (fun c => c != '&' && c != '`' && ! isLineBreak c) = true := by
  simp [WellFormed, and_assoc]

instance : (reference : Reference) → Decidable reference.WellFormed
  | number n => inferInstanceAs (Decidable ((Nat.toDigits 10 n).length ≤ Numeral.maxDigits))
  | document _ => decidable_of_iff _ wellFormed_document_iff.symm

end Reference

namespace Script

/-- The text of an expression with these references. -/
def expression (references : List Reference) : List Char :=
  [' ', '&', ' '].intercalate (references.map Reference.written)

def importLine (name : String) : List Char :=
  "import x from './".toList ++ (name.toList ++ ".md';".toList)

def boxed (assumption : Bool × String) : List Char :=
  '[' :: (if assumption.1 then 'x' else ' ') :: ']' :: ' ' :: assumption.2.toList

def assumptionLine (assumption : Bool × String) : List Char :=
  '-' :: ' ' :: boxed assumption

def quoted (references : List Reference) : List Char :=
  '`' :: (expression references ++ ['`'])

/-- The line of an inference, and the one below it if the inference depends on something. -/
def inferenceLines : String × List Reference → List (List Char)
  | (text, []) => ['-' :: ' ' :: text.toList]
  | (text, reference :: references) =>
    ['-' :: ' ' :: text.toList, ' ' :: ' ' :: '-' :: ' ' :: quoted (reference :: references)]

/-- The outline of a script in plain form. -/
def lines (s : Script) : List (List Char) :=
  s.imports.map importLine ++ (s.assumptions.map assumptionLine ++ s.inferences.flatMap inferenceLines)

/-- The document with this content. -/
def document (s : Script) (name : String) : Document where
  name
  imports := s.imports
  assumptions := (s.assumptions.zipIdx 1).map fun e =>
    { id := .number e.2, value := e.1.1, text := e.1.2 }
  inferences := (s.inferences.zipIdx (s.assumptions.length + 1)).map fun e =>
    { id := .number e.2, text := e.1.1, dependsOn := e.1.2.map Reference.id }

structure WellFormed (s : Script) : Prop where
  imports : ∀ name ∈ s.imports, name ≠ "" ∧ ∀ c ∈ name.toList, inFileName c = true
  assumptions : ∀ a ∈ s.assumptions, IsItemText a.2.toList
  inferences : ∀ i ∈ s.inferences, IsItemText i.1.toList ∧ ¬ IsTask i.1.toList ∧
    ∀ reference ∈ i.2, reference.WellFormed

end Script

/-! ## References -/

namespace Reference

variable {reference : Reference}

theorem written_ne_nil (reference : Reference) : reference.written ≠ [] := by
  cases reference with
  | number n => exact Nat.toDigits_ne_nil
  | document name => exact List.cons_ne_nil _ _

/-- What is written of a reference ends neither its line nor its expression nor the code span. -/
theorem WellFormed.of_mem_written (h : reference.WellFormed) {c : Char} (hc : c ∈ reference.written) :
    c ≠ '&' ∧ c ≠ '`' ∧ isLineBreak c = false := by
  cases reference with
  | number n =>
    have hname := inFileName_of_isDigit (Numeral.isDigit_of_mem_decimal hc)
    refine ⟨?_, ?_, isLineBreak_of_inFileName hname⟩
    all_goals
      rintro rfl
      revert hname
      decide
  | document name =>
    rcases List.mem_cons.1 hc with rfl | hc
    · decide
    · exact h.2 c hc

theorem WellFormed.trimmed (h : reference.WellFormed) : Trimmed reference.written := by
  cases reference with
  | number n =>
    have hdigit : ∀ c ∈ Nat.toDigits 10 n, isBlank c = false := fun c hc =>
      isBlank_of_isDigit (Numeral.isDigit_of_mem_decimal hc)
    exact ⟨fun c hc => hdigit c (List.mem_of_mem_head? hc), fun c hc =>
      hdigit c (List.mem_of_mem_getLast? hc)⟩
  | document name => exact trimmed_cons rfl h.1.last

theorem WellFormed.piece (h : reference.WellFormed) : Dependency.Piece reference.written :=
  ⟨h.trimmed, reference.written_ne_nil, fun hmem => (h.of_mem_written hmem).1 rfl⟩

theorem WellFormed.ofPart_written (h : reference.WellFormed) :
    Dependency.ofPart reference.written = .ok reference.id := by
  cases reference with
  | number n =>
    have hread : Numeral.read (number n).written = .ok n := Numeral.read_toDigits h
    have hdigits : ∀ c ∈ (number n).written, isDigit c = true := (Numeral.digits_toDigits n).isDigit
    rw [Dependency.ofPart_of_digits hdigits, hread]
    rfl
  | document name =>
    rw [written, Dependency.ofPart_dollar, String.ofList_toList, id]

end Reference

/-! ## Expressions -/

namespace Script

variable {references : List Reference}

theorem read_expression (h : ∀ reference ∈ references, reference.WellFormed) :
    Dependency.read (expression references) = .ok (references.map Reference.id) := by
  have hpieces : ∀ piece ∈ references.map Reference.written, Dependency.Piece piece := by
    rw [List.forall_mem_map]
    exact fun reference hmem => (h reference hmem).piece
  rw [Dependency.read, expression, Dependency.parts_join hpieces, mapM_eq_ok_iff,
    List.forall₂_map_left_iff, List.forall₂_map_right_iff, List.forall₂_same]
  exact fun reference hmem => (h reference hmem).ofPart_written

theorem of_mem_expression (h : ∀ reference ∈ references, reference.WellFormed) {c : Char}
    (hc : c ∈ expression references) : c ≠ '`' ∧ isLineBreak c = false := by
  have hjoint : ∀ d ∈ [' ', '&', ' '], d ≠ '`' ∧ isLineBreak d = false := by
    simp [isLineBreak]
  induction references with
  | nil => cases hc
  | cons reference references ih =>
    obtain ⟨hreference, hreferences⟩ := List.forall_mem_cons.1 h
    have hwritten : c ∈ reference.written → c ≠ '`' ∧ isLineBreak c = false := fun hmem =>
      (hreference.of_mem_written hmem).2
    cases references with
    | nil =>
      apply hwritten
      simpa [expression] using hc
    | cons reference' references =>
      rw [expression, List.map_cons, List.map_cons, List.intercalate_cons_cons, List.mem_append,
        List.mem_append] at hc
      rcases hc with (hc | hc) | hc
      · exact hwritten hc
      · exact hjoint c hc
      · exact ih hreferences hc

end Script

/-! ## What the lines are -/

namespace Script

variable {s : Script}

theorem wellFormed_iff :
    s.WellFormed ↔ (∀ name ∈ s.imports, name ≠ "" ∧ name.toList.all inFileName = true) ∧
      (∀ a ∈ s.assumptions, IsItemText a.2.toList) ∧
      ∀ i ∈ s.inferences, IsItemText i.1.toList ∧ ¬ IsTask i.1.toList ∧
        ∀ reference ∈ i.2, reference.WellFormed := by
  simp only [List.all_eq_true]
  exact ⟨fun h => ⟨h.imports, h.assumptions, h.inferences⟩, fun h => ⟨h.1, h.2.1, h.2.2⟩⟩

instance (s : Script) : Decidable s.WellFormed :=
  decidable_of_iff _ wellFormed_iff.symm

/-- The classified lines of an inference. -/
def inferenceItems : String × List Reference → List Line
  | (text, []) => [.item 0 (.plain text.toList)]
  | (text, reference :: references) =>
    [.item 0 (.plain text.toList), .item 2 (.plain (quoted (reference :: references)))]

/-- The classified lines in front of the inferences. -/
def opening (s : Script) : List Line :=
  s.imports.map (fun name => .importOf name.toList) ++
    s.assumptions.map fun a => .item 0 (.task a.1 a.2.toList)

theorem trimmed_boxed {assumption : Bool × String} (h : IsItemText assumption.2.toList) :
    Trimmed (boxed assumption) := by
  apply trimmed_cons rfl
  show ∀ d ∈ ([_, ']', ' '] ++ assumption.2.toList).getLast?, isBlank d = false
  rw [List.getLast?_append_of_ne_nil _ h.ne_nil]
  exact h.trimmed.last

theorem trimmed_quoted (references : List Reference) : Trimmed (quoted references) := by
  apply trimmed_cons rfl
  rw [List.getLast?_concat]
  rintro d hd
  cases hd
  rfl

theorem ofText_assumptionLine {assumption : Bool × String} (h : IsItemText assumption.2.toList) :
    Line.ofText (assumptionLine assumption) = .item 0 (.task assumption.1 assumption.2.toList) := by
  rw [assumptionLine, Line.ofText_bullet (trimmed_boxed h), boxed, Content.ofText_box _ h.trimmed]

theorem ofText_quoted (references : List Reference) :
    Content.ofText (quoted references) = .plain (quoted references) :=
  rfl

theorem map_ofText_inferenceLines {inference : String × List Reference}
    (htext : IsItemText inference.1.toList) (htask : ¬ IsTask inference.1.toList) :
    (inferenceLines inference).map Line.ofText = inferenceItems inference := by
  obtain ⟨text, references⟩ := inference
  have hline : Line.ofText ('-' :: ' ' :: text.toList) = .item 0 (.plain text.toList) := by
    rw [Line.ofText_bullet htext.trimmed, Content.ofText_eq_plain_iff.2 htask]
  cases references with
  | nil => rw [inferenceLines, inferenceItems, List.map_singleton, hline]
  | cons reference references =>
    rw [inferenceLines, inferenceItems, List.map_cons, List.map_singleton, hline,
      Line.ofText_nested (trimmed_quoted _), ofText_quoted]

/-- **Each line is what it was written as.** -/
theorem map_ofText_lines (h : s.WellFormed) :
    s.lines.map Line.ofText = s.opening ++ s.inferences.flatMap inferenceItems := by
  have himports : s.imports.map (Line.ofText ∘ importLine) =
      s.imports.map fun name => .importOf name.toList := by
    apply List.map_congr_left
    intro name hname
    obtain ⟨hne, hchars⟩ := h.imports name hname
    exact Line.ofText_import (fun hnil => hne (String.toList_eq_nil_iff.1 hnil)) hchars
  have hassumptions : s.assumptions.map (Line.ofText ∘ assumptionLine) =
      s.assumptions.map fun a => .item 0 (.task a.1 a.2.toList) :=
    List.map_congr_left fun a ha => ofText_assumptionLine (h.assumptions a ha)
  have hinferences : s.inferences.flatMap (fun i => (inferenceLines i).map Line.ofText) =
      s.inferences.flatMap inferenceItems :=
    List.flatMap_congr fun i hi =>
      map_ofText_inferenceLines (h.inferences i hi).1 (h.inferences i hi).2.1
  rw [lines, opening, List.map_append, List.map_append, List.map_map, List.map_map, List.map_flatMap,
    himports, hassumptions, hinferences, List.append_assoc]

/-! ### Whole lines -/

/-- A line that stands for itself: there is something on it, and it holds no break. -/
def Unbroken (line : List Char) : Prop :=
  line ≠ [] ∧ ∀ c ∈ line, isLineBreak c = false

theorem unbroken_append (before : List Char) {after : List Char} (hne : before ≠ [])
    (hbefore : ∀ c ∈ before, isLineBreak c = false) (hafter : ∀ c ∈ after, isLineBreak c = false) :
    Unbroken (before ++ after) :=
  ⟨List.append_ne_nil_of_left_ne_nil hne _, List.forall_mem_append.2 ⟨hbefore, hafter⟩⟩

theorem unbroken_importLine {name : String} (h : ∀ c ∈ name.toList, inFileName c = true) :
    Unbroken (importLine name) := by
  apply unbroken_append _ (by simp) (by simp [isLineBreak])
  rw [List.forall_mem_append]
  exact ⟨fun c hc => isLineBreak_of_inFileName (h c hc), by simp [isLineBreak]⟩

theorem unbroken_assumptionLine {assumption : Bool × String} (h : IsItemText assumption.2.toList) :
    Unbroken (assumptionLine assumption) := by
  obtain ⟨value, text⟩ := assumption
  cases value with
  | true => exact unbroken_append "- [x] ".toList (by simp) (by simp [isLineBreak]) h.unbroken
  | false => exact unbroken_append "- [ ] ".toList (by simp) (by simp [isLineBreak]) h.unbroken

theorem unbroken_inferenceLines {inference : String × List Reference}
    (htext : IsItemText inference.1.toList)
    (hreferences : ∀ reference ∈ inference.2, reference.WellFormed) :
    ∀ line ∈ inferenceLines inference, Unbroken line := by
  obtain ⟨text, references⟩ := inference
  have hline : Unbroken ('-' :: ' ' :: text.toList) :=
    unbroken_append ['-', ' '] (by simp) (by simp [isLineBreak]) htext.unbroken
  cases references with
  | nil =>
    rw [inferenceLines, List.forall_mem_singleton]
    exact hline
  | cons reference references =>
    have hcode : ∀ c ∈ expression (reference :: references) ++ ['`'], isLineBreak c = false :=
      List.forall_mem_append.2 ⟨fun c hc => (of_mem_expression hreferences hc).2, by simp [isLineBreak]⟩
    rw [inferenceLines, List.forall_mem_cons, List.forall_mem_singleton]
    exact ⟨hline, unbroken_append [' ', ' ', '-', ' ', '`'] (by simp) (by simp [isLineBreak]) hcode⟩

theorem unbroken_of_mem_lines (h : s.WellFormed) : ∀ line ∈ s.lines, Unbroken line := by
  rw [lines, List.forall_mem_append, List.forall_mem_append, List.forall_mem_map, List.forall_mem_map]
  refine ⟨fun name hname => unbroken_importLine (h.imports name hname).2,
    fun a ha => unbroken_assumptionLine (h.assumptions a ha), fun line hline => ?_⟩
  obtain ⟨i, hi, hline⟩ := List.mem_flatMap.1 hline
  exact unbroken_inferenceLines (h.inferences i hi).1 (h.inferences i hi).2.2 line hline

/-! ### What the lines declare -/

/-- What the lines of an inference declare behind so many tasks. -/
def heading (n : Nat) (inference : String × List Reference) : Heading where
  tasks := n
  text := inference.1.toList
  expression := match inference.2 with
    | [] => none
    | reference :: references => some (expression (reference :: references))

theorem headings_append_of_none {before front after : List Line}
    (h : ∀ line ∈ front, ∀ before after, heading? before line after = none) :
    headings before (front ++ after) = headings (before ++ front) after := by
  induction front generalizing before with
  | nil => rw [List.nil_append, List.append_nil]
  | cons line front ih =>
    obtain ⟨hline, hfront⟩ := List.forall_mem_cons.1 h
    rw [List.cons_append, headings_of_none (hline _ _), ih hfront, List.append_assoc,
      List.singleton_append]

theorem heading?_of_mem_opening :
    ∀ line ∈ s.opening, ∀ before after, heading? before line after = none := by
  rw [opening, List.forall_mem_append, List.forall_mem_map, List.forall_mem_map]
  exact ⟨fun _ _ _ _ => rfl, fun _ _ _ _ => rfl⟩

theorem filterMap_task?_opening : s.opening.filterMap Line.task? =
    s.assumptions.map fun a => (a.1, a.2.toList) := by
  rw [opening, List.filterMap_append, List.filterMap_map, List.filterMap_map, ← List.filterMap_eq_map]
  have himports : s.imports.filterMap (Line.task? ∘ fun name => .importOf name.toList) = [] :=
    List.filterMap_eq_nil_iff.2 fun _ _ => rfl
  rw [himports]
  rfl

theorem filterMap_imported?_opening : s.opening.filterMap Line.imported? = s.imports := by
  rw [opening, List.filterMap_append, List.filterMap_map, List.filterMap_map]
  have himports : (Line.imported? ∘ fun name : String => Line.importOf name.toList) = some := by
    funext name
    exact congrArg some String.ofList_toList
  have hassumptions :
      s.assumptions.filterMap (Line.imported? ∘ fun a => .item 0 (.task a.1 a.2.toList)) = [] :=
    List.filterMap_eq_nil_iff.2 fun _ _ => rfl
  rw [himports, hassumptions, List.filterMap_some, List.append_nil]

/-- Only plain items follow. -/
theorem filterMap_inferenceItems {β : Type} {f : Line → Option β}
    (h : ∀ indent text, f (.item indent (.plain text)) = none) (l : List (String × List Reference)) :
    (l.flatMap inferenceItems).filterMap f = [] := by
  rw [List.filterMap_eq_nil_iff]
  intro line hline
  obtain ⟨⟨text, references⟩, -, hline⟩ := List.mem_flatMap.1 hline
  cases references with
  | nil =>
    obtain rfl := List.mem_singleton.1 hline
    exact h _ _
  | cons reference references =>
    rcases List.mem_pair.1 hline with rfl | rfl <;> exact h _ _

/-- The next inference ends what belongs to the one above. -/
theorem expression?_inferenceItems (l : List (String × List Reference)) :
    expression? 0 (l.flatMap inferenceItems) = none := by
  cases l with
  | nil => rfl
  | cons i l =>
    obtain ⟨text, references⟩ := i
    cases references with
    | nil => exact expression?_item_of_le (Nat.le_refl 0)
    | cons reference references => exact expression?_item_of_le (Nat.le_refl 0)

theorem expression?_quoted {references : List Reference} {after : List Line}
    (h : ∀ reference ∈ references, reference.WellFormed) :
    expression? 0 (.item 2 (.plain (quoted references)) :: after) = some (expression references) := by
  have hcode : (Content.plain (quoted references)).expression? = some (expression references) :=
    codeSpan?_quoted fun hmem => (of_mem_expression h hmem).1 rfl
  rw [expression?_item_of_lt (Nat.succ_pos 1), hcode, Option.some_or]

theorem heading?_plain (before after : List Line) (text : List Char) :
    heading? before (.item 0 (.plain text)) after =
      some ⟨(before.filterMap Line.task?).length, text, expression? 0 after⟩ :=
  if_pos fun _ _ => Nat.zero_le _

/-- What is indented more than the line above declares nothing itself. -/
theorem heading?_below (before after : List Line) (content below : Content) :
    heading? (before ++ [.item 0 content]) (.item 2 below) after = none := by
  cases below with
  | task ticked text => rfl
  | plain text =>
    apply if_neg
    rw [topLevel_concat_item]
    exact fun h => absurd h.1 (by decide)

theorem filterMap_task?_concat (before : List Line) (indent : Nat) (text : List Char) :
    (before ++ [Line.item indent (.plain text)]).filterMap Line.task? = before.filterMap Line.task? := by
  rw [List.filterMap_append]
  exact List.append_nil _

/-- **The lines of the inferences declare them.** -/
theorem headings_inferenceItems {before : List Line} {l : List (String × List Reference)}
    (h : ∀ i ∈ l, ∀ reference ∈ i.2, reference.WellFormed) :
    headings before (l.flatMap inferenceItems) =
      l.map (heading (before.filterMap Line.task?).length) := by
  induction l generalizing before with
  | nil => rfl
  | cons i l ih =>
    obtain ⟨hi, hl⟩ := List.forall_mem_cons.1 h
    obtain ⟨text, references⟩ := i
    rw [List.flatMap_cons, List.map_cons]
    cases references with
    | nil =>
      rw [inferenceItems, List.singleton_append, headings_of_some (heading?_plain _ _ _), ih hl,
        expression?_inferenceItems, filterMap_task?_concat]
      rfl
    | cons reference references =>
      rw [inferenceItems, List.cons_append, List.singleton_append,
        headings_of_some (heading?_plain _ _ _), headings_of_none (heading?_below _ _ _ _), ih hl,
        expression?_quoted hi, filterMap_task?_concat, filterMap_task?_concat]
      rfl

theorem dependsOn_heading {n : Nat} {i : String × List Reference}
    (h : ∀ reference ∈ i.2, reference.WellFormed) :
    (heading n i).dependsOn = .ok (i.2.map Reference.id) := by
  obtain ⟨text, references⟩ := i
  cases references with
  | nil => rfl
  | cons reference references => exact read_expression h

theorem inferencesOf_headings {n : Nat} {l : List (String × List Reference)}
    (h : ∀ i ∈ l, ∀ reference ∈ i.2, reference.WellFormed) (k : Nat) :
    inferencesOf (l.map (heading n)) k = .ok ((l.zipIdx (n + k + 1)).map fun e =>
      { id := .number e.2, text := e.1.1, dependsOn := e.1.2.map Reference.id }) := by
  induction l generalizing k with
  | nil => rfl
  | cons i l ih =>
    obtain ⟨hi, hl⟩ := List.forall_mem_cons.1 h
    have hinference : (heading n i).inference k =
        .ok { id := .number (n + k + 1 : Nat), text := i.1, dependsOn := i.2.map Reference.id } := by
      rw [Heading.inference, dependsOn_heading hi, heading, String.ofList_toList]
      rfl
    rw [List.map_cons, inferencesOf_cons, hinference, ih hl]
    rfl

/-- **The lines declare the content of the script.** -/
theorem reading_lines (h : s.WellFormed) (name : String) :
    reading name (s.lines.map Line.ofText) = .ok (s.document name) := by
  have hreferences : ∀ i ∈ s.inferences, ∀ reference ∈ i.2, reference.WellFormed := fun i hi =>
    (h.inferences i hi).2.2
  have himports :
      (s.opening ++ s.inferences.flatMap inferenceItems).filterMap Line.imported? = s.imports := by
    rw [List.filterMap_append, filterMap_imported?_opening, filterMap_inferenceItems (fun _ _ => rfl),
      List.append_nil]
  have hassumptions : assumptionsOf (s.opening ++ s.inferences.flatMap inferenceItems) 0 =
      (s.document name).assumptions := by
    rw [assumptionsOf, List.filterMap_append, filterMap_task?_opening,
      filterMap_inferenceItems (fun _ _ => rfl), List.append_nil, List.zipIdx_map, List.map_map,
      document]
    apply List.map_congr_left
    rintro ⟨⟨value, text⟩, k⟩ -
    exact congrArg (Assumption.mk _ _) String.ofList_toList
  have hinferences : inferencesOf (headings [] (s.opening ++ s.inferences.flatMap inferenceItems)) 0 =
      .ok (s.document name).inferences := by
    rw [headings_append_of_none heading?_of_mem_opening, headings_inferenceItems hreferences,
      inferencesOf_headings hreferences, List.nil_append, filterMap_task?_opening, List.length_map]
    rfl
  rw [map_ofText_lines h, reading, himports, hassumptions, hinferences]
  rfl

end Script

end Verdict.Outline

namespace Verdict

open Outline

variable {s : Script} {text path : String}

/-- **The outline of a script is read as a document with this content**, whether or not its last line is
ended. -/
theorem Document.ofOutline_script (h : s.WellFormed)
    (htext : text.toList = Text.unlines s.lines ∨ text.toList = (Text.unlines s.lines).dropLast)
    (hname : Text.trim (documentName path).toList ≠ []) :
    Document.ofOutline text path = .ok (s.document (documentName path)) := by
  have hlines : Text.lines text.toList = s.lines := by
    rcases htext with htext | htext
    · rw [htext, Text.lines_unlines fun line hline => (Script.unbroken_of_mem_lines h line hline).2]
    · rw [htext, Text.lines_dropLast_unlines (Script.unbroken_of_mem_lines h)]
  apply Document.ofOutline_of_reading
  · rw [linesOf, hlines, Script.reading_lines h]
  · simpa only [Script.document] using hname

/-- Texts that look like other lines. -/
def Outline.lookalikes : Script where
  imports := ["notes.md", "-"]
  assumptions := [(true, "- [ ] `2`"), (false, "import x from './y.md';")]
  inferences := [("[x]", [.number 1, .document "my notes"]), ("* `1 & 2`", [])]

theorem Document.ofOutline_lookalikes :
    lookalikes.WellFormed ∧ Text.trim (documentName "doc.md").toList ≠ [] ∧
      Document.ofOutline
        ("import x from './notes.md.md';\nimport x from './-.md';\n" ++
          "- [x] - [ ] `2`\n- [ ] import x from './y.md';\n" ++
          "- [x]\n  - `1 & $my notes`\n- * `1 & 2`\n") "doc.md" =
      .ok
        { name := "doc"
          imports := ["notes.md", "-"]
          assumptions := [{ id := .number 1, value := true, text := "- [ ] `2`" },
            { id := .number 2, value := false, text := "import x from './y.md';" }]
          inferences := [{ id := .number 3, text := "[x]", dependsOn := [.number 1, .text "my notes"] },
            { id := .number 4, text := "* `1 & 2`" }] } := by
  have hname : Text.trim (documentName "doc.md").toList ≠ [] := by decide
  have h : lookalikes.WellFormed := by decide
  refine ⟨h, hname, Document.ofOutline_script h (Or.inl ?_) hname⟩
  rw [String.toList_append, String.toList_append]
  decide +kernel

end Verdict

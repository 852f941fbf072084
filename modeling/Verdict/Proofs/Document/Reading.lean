import Verdict.Document.Outline
import Verdict.Proofs.Result

/-!
# What an outline declares

`Draft.run` reads an outline in one pass, with two things to remember: the indent of the top level, and
whether the newest inference is still waiting for its dependencies. What a line declares can be said
without a state, by looking at the lines before it and behind it. A *block* is a stretch of lines without
other text.

> A list item is at the top level iff it is indented no deeper than any earlier item of its block. The
> tasks are the assumptions. The plain items at the top level are the inferences. An inference has its
> dependencies from the first plain item with a code span that follows in its block, unless an item that
> is indented no deeper than the inference comes before that.

That is `reading`, and `ofOutline_eq_reading` says that nothing else is read. The pass is compared with
the reading step by step. A draft amounts to a document, when the lines that are left declare what they
declare behind those before them (`Draft.finish`), and every step keeps that document (`finish_step`).
-/

namespace Verdict.Outline

/-! ## What a line holds -/

namespace Line

/-- The document that the line imports. -/
def imported? : Line → Option String
  | .importOf name => some (String.ofList name)
  | _ => none

/-- The list item on the line, with its indent. -/
def listItem? : Line → Option (Nat × Content)
  | .item indent content => some (indent, content)
  | _ => none

/-- The task on the line: whether its box is ticked, and its text. -/
def task? : Line → Option (Bool × List Char)
  | .item _ (.task ticked text) => some (ticked, text)
  | _ => none

end Line

/-- The code span of an item that is no task. -/
def Content.expression? : Content → Option (List Char)
  | .task _ _ => none
  | .plain text => codeSpan? text

/-! ## What the lines around it say -/

/-- The list items up to the end of the block. -/
def itemsOfBlock (lines : List Line) : List (Nat × Content) :=
  (lines.takeWhile (· ≠ .other)).filterMap Line.listItem?

/-- Behind the given lines, an item with this indent is at the top level. -/
def TopLevel (before : List Line) (indent : Nat) : Prop :=
  ∀ e ∈ itemsOfBlock before.reverse, indent ≤ e.1

instance (before : List Line) (indent : Nat) : Decidable (TopLevel before indent) :=
  inferInstanceAs (Decidable (∀ e ∈ itemsOfBlock before.reverse, indent ≤ e.1))

/-- The dependencies that the following lines give to an inference with this indent. -/
def expression? (indent : Nat) (after : List Line) : Option (List Char) :=
  ((itemsOfBlock after).takeWhile fun e => indent < e.1).findSome? fun e => e.2.expression?

/-- An inference, as the lines declare it. -/
structure Heading where
  /-- How many tasks stand before it. -/
  tasks : Nat
  text : List Char
  expression : Option (List Char)

/-- A plain item at the top level declares an inference. -/
def heading? (before : List Line) (line : Line) (after : List Line) : Option Heading :=
  match line with
  | .item indent (.plain text) =>
    if TopLevel before indent then
      some
        { tasks := (before.filterMap Line.task?).length
          text
          expression := expression? indent after }
    else none
  | _ => none

/-- What the lines declare behind the given ones, in order. -/
def headings (before : List Line) : List Line → List Heading
  | [] => []
  | line :: after => (heading? before line after).toList ++ headings (before ++ [line]) after

/-- What the inference depends on: nothing, if no line says it. -/
def Heading.dependsOn (h : Heading) : Except NumeralError (List Id) :=
  match h.expression with
  | some code => Dependency.read code
  | none => .ok []

/-- The inference, with so many inferences before it. -/
def Heading.inference (h : Heading) (k : Nat) : Except NumeralError Inference := do
  let dependsOn ← h.dependsOn
  return { id := .number (h.tasks + k + 1), text := String.ofList h.text, dependsOn }

/-- Inferences, numbered as behind `k` others. -/
def inferencesOf (hs : List Heading) (k : Nat) : Except NumeralError (List Inference) :=
  (hs.zipIdx k).mapM fun e => e.1.inference e.2

/-- The assumptions of the tasks, numbered as behind `k` others. -/
def assumptionsOf (lines : List Line) (k : Nat) : List Assumption :=
  ((lines.filterMap Line.task?).zipIdx (k + 1)).map fun e =>
    { id := .number e.2, value := e.1.1, text := String.ofList e.1.2 }

/-- The document that the lines of an outline declare. -/
def reading (name : String) (lines : List Line) : Except NumeralError Document := do
  let inferences ← inferencesOf (headings [] lines) 0
  return {
    name
    imports := lines.filterMap Line.imported?
    assumptions := assumptionsOf lines 0
    inferences }

/-! ## Line by line -/

section Lines

variable {before after : List Line} {line : Line} {indent : Nat}

theorem itemsOfBlock_other : itemsOfBlock (.other :: after) = [] := by
  simp [itemsOfBlock]

theorem itemsOfBlock_item {i : Nat} {c : Content} :
    itemsOfBlock (.item i c :: after) = (i, c) :: itemsOfBlock after := by
  simp [itemsOfBlock, Line.listItem?]

theorem itemsOfBlock_of_listItem? (hother : line ≠ .other) (hitem : line.listItem? = none) :
    itemsOfBlock (line :: after) = itemsOfBlock after := by
  simp [itemsOfBlock, hother, hitem]

theorem topLevel_concat_other : TopLevel (before ++ [.other]) indent := by
  rw [TopLevel, List.reverse_concat, itemsOfBlock_other]
  exact List.forall_mem_nil _

theorem topLevel_concat_item {i : Nat} {c : Content} :
    TopLevel (before ++ [.item i c]) indent ↔ indent ≤ i ∧ TopLevel before indent := by
  rw [TopLevel, List.reverse_concat, itemsOfBlock_item, List.forall_mem_cons, TopLevel]

theorem topLevel_concat_of_listItem? (hother : line ≠ .other) (hitem : line.listItem? = none) :
    TopLevel (before ++ [line]) indent ↔ TopLevel before indent := by
  rw [TopLevel, List.reverse_concat, itemsOfBlock_of_listItem? hother hitem, TopLevel]

theorem expression?_other : expression? indent (.other :: after) = none := by
  rw [expression?, itemsOfBlock_other]
  rfl

theorem expression?_item_of_le {i : Nat} {c : Content} (h : i ≤ indent) :
    expression? indent (.item i c :: after) = none := by
  rw [expression?, itemsOfBlock_item, List.takeWhile_cons_of_neg (by simpa using h)]
  rfl

theorem expression?_item_of_lt {i : Nat} {c : Content} (h : indent < i) :
    expression? indent (.item i c :: after) = c.expression?.or (expression? indent after) := by
  rw [expression?, itemsOfBlock_item, List.takeWhile_cons_of_pos (by simpa using h),
    List.findSome?_cons, expression?]
  cases c.expression? <;> rfl

theorem expression?_of_listItem? (hother : line ≠ .other) (hitem : line.listItem? = none) :
    expression? indent (line :: after) = expression? indent after := by
  rw [expression?, itemsOfBlock_of_listItem? hother hitem, expression?]

theorem headings_of_none (h : heading? before line after = none) :
    headings before (line :: after) = headings (before ++ [line]) after := by
  rw [headings, h]
  rfl

theorem headings_of_some {hd : Heading} (h : heading? before line after = some hd) :
    headings before (line :: after) = hd :: headings (before ++ [line]) after := by
  rw [headings, h]
  rfl

theorem task?_of_listItem? (hitem : line.listItem? = none) : line.task? = none := by
  cases line with
  | item _ _ => cases hitem
  | _ => rfl

theorem heading?_of_listItem? (hitem : line.listItem? = none) : heading? before line after = none := by
  cases line with
  | item _ _ => cases hitem
  | _ => rfl

theorem inferencesOf_cons (hd : Heading) (hs : List Heading) (k : Nat) :
    inferencesOf (hd :: hs) k = do
      let i ← hd.inference k
      let rest ← inferencesOf hs (k + 1)
      return i :: rest := by
  rw [inferencesOf, List.zipIdx_cons, List.mapM_cons]
  rfl

theorem assumptionsOf_of_none (h : line.task? = none) (k : Nat) :
    assumptionsOf (line :: after) k = assumptionsOf after k := by
  rw [assumptionsOf, List.filterMap_cons_none h, assumptionsOf]

theorem assumptionsOf_task {ticked : Bool} {text : List Char} (k : Nat) :
    assumptionsOf (.item indent (.task ticked text) :: after) k =
      { id := .number (k + 1), value := ticked, text := String.ofList text } ::
        assumptionsOf after (k + 1) := by
  have htask : (Line.item indent (.task ticked text)).task? = some (ticked, text) := rfl
  rw [assumptionsOf, List.filterMap_cons_some htask, List.zipIdx_cons, List.map_cons, assumptionsOf]
  rfl

end Lines

/-! ## The pass -/

namespace Draft

/-- The draft remembers of the lines read what the lines behind them depend on. -/
structure Sound (d : Draft) (before : List Line) : Prop where
  nested : ∀ indent, d.isNested indent = true ↔ ¬ TopLevel before indent
  tasks : d.assumptions.length = (before.filterMap Line.task?).length

/-- The inferences read, newest first, when the newest has got what the following lines give to it. -/
def settle (d : Draft) (after : List Line) : Except NumeralError (List Inference) :=
  match d.waiting, d.top.bind (expression? · after) with
  | true, some code => (Dependency.read code).map fun dependsOn => depend dependsOn d.inferences
  | _, _ => .ok d.inferences

/-- The document that a draft amounts to when the lines that are left declare what they declare. -/
def finish (d : Draft) (name : String) (before after : List Line) : Except NumeralError Document := do
  let newest ← d.settle after
  let rest ← inferencesOf (headings before after) d.inferences.length
  return {
    name
    imports := d.imports.reverse ++ after.filterMap Line.imported?
    assumptions := d.assumptions.reverse ++ assumptionsOf after d.assumptions.length
    inferences := newest.reverse ++ rest }

variable {d d' : Draft} {before after : List Line} {line : Line} {indent : Nat} {content : Content}
  {name : String}

theorem isNested_eq_true_iff : d.isNested indent = true ↔ ∃ top, d.top = some top ∧ top < indent := by
  unfold isNested
  cases d.top with
  | none => simp
  | some top => simp

theorem isNested_of_le {i : Nat} (h : d.isNested indent = true) (hle : indent ≤ i) :
    d.isNested i = true := by
  obtain ⟨top, htop, hlt⟩ := isNested_eq_true_iff.1 h
  exact isNested_eq_true_iff.2 ⟨top, htop, Nat.lt_of_lt_of_le hlt hle⟩

/-- The draft at an item that is at the top level: nothing is waiting any more. -/
def opened (d : Draft) (indent : Nat) : Draft :=
  { d with top := some indent, waiting := false }

theorem step_nested_task {ticked : Bool} {text : List Char} (hn : d.isNested indent = true) :
    d.step (.item indent (.task ticked text)) = .ok (d.addTask ticked text) := by
  simp only [step, hn, if_pos]

theorem step_nested_plain {text : List Char} (hn : d.isNested indent = true) :
    d.step (.item indent (.plain text)) = d.addNested text := by
  simp only [step, hn, if_pos]

theorem step_top_task {ticked : Bool} {text : List Char} (hn : d.isNested indent = false) :
    d.step (.item indent (.task ticked text)) = .ok ((d.opened indent).addTask ticked text) := by
  simp only [step, hn, Bool.false_eq_true, if_false, opened]

theorem step_top_plain {text : List Char} (hn : d.isNested indent = false) :
    d.step (.item indent (.plain text)) = .ok ((d.opened indent).addInference text) := by
  simp only [step, hn, Bool.false_eq_true, if_false, opened]

theorem addNested_of_no_expression {text : List Char} (h : codeSpan? text = none) :
    d.addNested text = .ok d := by
  unfold addNested
  rw [h]
  split
  · contradiction
  · rfl

theorem addNested_of_not_waiting {text : List Char} (h : d.waiting = false) :
    d.addNested text = .ok d := by
  unfold addNested
  rw [h]

theorem addNested_of_expression {text code : List Char} (hw : d.waiting = true)
    (h : codeSpan? text = some code) :
    d.addNested text = (Dependency.read code).map fun dependsOn =>
      { d with inferences := depend dependsOn d.inferences, waiting := false } := by
  unfold addNested
  rw [hw, h]

/-! ### What is remembered -/

theorem length_tasks_concat : ((before ++ [line]).filterMap Line.task?).length =
    (before.filterMap Line.task?).length + line.task?.toList.length := by
  rw [List.filterMap_append, List.length_append, List.filterMap_cons]
  cases line.task? <;> rfl

theorem sound_empty : ({} : Draft).Sound [] where
  nested _ := by simp [isNested, TopLevel, itemsOfBlock]
  tasks := rfl

theorem Sound.of_other (h : d.Sound before) :
    ({ d with top := none, waiting := false } : Draft).Sound (before ++ [.other]) where
  nested _ := by simp [isNested, topLevel_concat_other]
  tasks := by
    rw [length_tasks_concat]
    exact h.tasks

theorem Sound.of_listItem? (h : d.Sound before) (hother : line ≠ .other) (hitem : line.listItem? = none)
    (htop : d'.top = d.top) (htasks : d'.assumptions = d.assumptions) : d'.Sound (before ++ [line]) where
  nested i := by
    rw [topLevel_concat_of_listItem? hother hitem, ← h.nested, isNested, htop, isNested]
  tasks := by
    rw [length_tasks_concat, task?_of_listItem? hitem, htasks]
    exact h.tasks

theorem Sound.topLevel_of_not_nested (h : d.Sound before) (hn : d.isNested indent = false) :
    TopLevel before indent :=
  Decidable.of_not_not fun hlevel => Bool.false_ne_true (hn ▸ (h.nested indent).2 hlevel)

/-- The top level is the least indent of the block so far. -/
theorem Sound.nested_item (h : d.Sound before)
    (htop : d'.top = if d.isNested indent then d.top else some indent) (i : Nat) :
    d'.isNested i = true ↔ ¬ TopLevel (before ++ [.item indent content]) i := by
  rw [topLevel_concat_item]
  cases hn : d.isNested indent with
  | true =>
    rw [hn, if_pos rfl] at htop
    have hsame : d'.isNested i = d.isNested i := by rw [isNested, htop, isNested]
    have hdeep : indent < i → d.isNested i = true := fun hlt => isNested_of_le hn (Nat.le_of_lt hlt)
    rw [h.nested] at hdeep
    rw [hsame, h.nested, Decidable.not_and_iff_not_or_not, Nat.not_le]
    exact ⟨Or.inr, fun hor => hor.elim hdeep id⟩
  | false =>
    rw [hn, if_neg Bool.false_ne_true] at htop
    have hlevel := h.topLevel_of_not_nested hn
    have hup : i ≤ indent → TopLevel before i := fun hle e he => Nat.le_trans hle (hlevel e he)
    rw [isNested_eq_true_iff, htop, not_and]
    simp only [Option.some.injEq, exists_eq_left']
    constructor
    · intro hlt hle
      omega
    · intro himp
      exact Nat.lt_of_not_le fun hle => himp hle (hup hle)

theorem Sound.of_item (h : d.Sound before)
    (htop : d'.top = if d.isNested indent then d.top else some indent)
    (htasks : d'.assumptions.length =
      d.assumptions.length + (Line.item indent content).task?.toList.length) :
    d'.Sound (before ++ [.item indent content]) where
  nested := h.nested_item htop
  tasks := by rw [length_tasks_concat, htasks, h.tasks]

theorem eq_of_addNested {text : List Char} (h : d.addNested text = .ok d') :
    d'.top = d.top ∧ d'.assumptions = d.assumptions := by
  unfold addNested at h
  split at h
  · obtain ⟨_, -, rfl⟩ := map_eq_ok_iff.1 h
    exact ⟨rfl, rfl⟩
  · cases h
    exact ⟨rfl, rfl⟩

/-- **What a draft remembers stays right.** -/
theorem Sound.step (h : d.Sound before) (hd : d.step line = .ok d') : d'.Sound (before ++ [line]) := by
  cases line with
  | importOf name =>
    cases hd
    exact h.of_listItem? nofun rfl rfl rfl
  | blank =>
    cases hd
    exact h.of_listItem? nofun rfl rfl rfl
  | other =>
    cases hd
    exact h.of_other
  | item indent content =>
    cases hn : d.isNested indent with
    | true =>
      cases content with
      | task ticked text =>
        rw [step_nested_task hn] at hd
        cases hd
        exact h.of_item (by rw [hn, if_pos rfl, addTask]) rfl
      | plain text =>
        rw [step_nested_plain hn] at hd
        obtain ⟨htop, htasks⟩ := eq_of_addNested hd
        exact h.of_item (by rw [hn, if_pos rfl, htop]) (by rw [htasks]; rfl)
    | false =>
      cases content with
      | task ticked text =>
        rw [step_top_task hn] at hd
        cases hd
        exact h.of_item (by rw [hn, if_neg Bool.false_ne_true, addTask, opened]) rfl
      | plain text =>
        rw [step_top_plain hn] at hd
        cases hd
        exact h.of_item (by rw [hn, if_neg Bool.false_ne_true, addInference, opened]) rfl

/-! ### What the newest inference still gets -/

/-- What no line gives is not there. -/
theorem settle_of_none (h : d.top.bind (expression? · after) = none) :
    d.settle after = .ok d.inferences := by
  rw [settle, h]
  split
  · contradiction
  · rfl

theorem settle_nil : d.settle [] = .ok d.inferences := by
  apply settle_of_none
  cases d.top <;> rfl

theorem settle_other : d.settle (.other :: after) = .ok d.inferences := by
  apply settle_of_none
  cases d.top with
  | none => rfl
  | some top => exact expression?_other

theorem settle_of_listItem? (hother : line ≠ .other) (hitem : line.listItem? = none) :
    d.settle (line :: after) = d.settle after := by
  simp only [settle, expression?_of_listItem? hother hitem]

theorem settle_of_not_waiting (h : d.waiting = false) : d.settle after = .ok d.inferences := by
  rw [settle, h]

/-- An item at the top level ends what belongs to the inference above. -/
theorem settle_of_not_nested (h : d.isNested indent = false) :
    d.settle (.item indent content :: after) = .ok d.inferences := by
  apply settle_of_none
  rw [isNested] at h
  cases htop : d.top with
  | none => rfl
  | some top =>
    rw [htop] at h
    exact expression?_item_of_le (Nat.le_of_not_lt (of_decide_eq_false h))

/-- A deeper item without dependencies leaves the inference waiting. -/
theorem settle_of_no_expression (h : d.isNested indent = true) (hc : content.expression? = none) :
    d.settle (.item indent content :: after) = d.settle after := by
  obtain ⟨top, htop, hlt⟩ := isNested_eq_true_iff.1 h
  simp only [settle, htop, Option.bind_some, expression?_item_of_lt hlt, hc, Option.none_or]

theorem settle_of_expression {code : List Char} (h : d.isNested indent = true) (hw : d.waiting = true)
    (hc : content.expression? = some code) :
    d.settle (.item indent content :: after) =
      (Dependency.read code).map fun dependsOn => depend dependsOn d.inferences := by
  obtain ⟨top, htop, hlt⟩ := isNested_eq_true_iff.1 h
  simp only [settle, hw, htop, Option.bind_some, expression?_item_of_lt hlt, hc, Option.some_or]

/-! ### Whole passes -/

theorem length_depend (dependsOn : List Id) (l : List Inference) :
    (depend dependsOn l).length = l.length := by
  cases l <;> rfl

/-- A line that declares no inference. -/
theorem finish_of_none (hheading : heading? before line after = none)
    (hsettle : d'.settle after = d.settle (line :: after))
    (himports : d'.imports.reverse = d.imports.reverse ++ line.imported?.toList)
    (hassumptions : d'.assumptions.reverse ++ assumptionsOf after d'.assumptions.length =
      d.assumptions.reverse ++ assumptionsOf (line :: after) d.assumptions.length)
    (hlength : d'.inferences.length = d.inferences.length) :
    d'.finish name (before ++ [line]) after = d.finish name before (line :: after) := by
  have himported : (line :: after).filterMap Line.imported? =
      line.imported?.toList ++ after.filterMap Line.imported? := by
    rw [List.filterMap_cons]
    cases line.imported? <;> rfl
  rw [finish, finish, hsettle, headings_of_none hheading, hlength, himports, himported, hassumptions,
    List.append_assoc]

/-- A line without a list item. -/
theorem finish_of_listItem? (hitem : line.listItem? = none)
    (hsettle : d'.settle after = d.settle (line :: after))
    (himports : d'.imports.reverse = d.imports.reverse ++ line.imported?.toList)
    (hassumptions : d'.assumptions = d.assumptions) (hinferences : d'.inferences = d.inferences) :
    d'.finish name (before ++ [line]) after = d.finish name before (line :: after) := by
  apply finish_of_none (heading?_of_listItem? hitem) hsettle himports
  · rw [hassumptions, assumptionsOf_of_none (task?_of_listItem? hitem)]
  · rw [hinferences]

/-- A task is the next assumption, wherever it stands. -/
theorem finish_addTask {ticked : Bool} {text : List Char}
    (hsettle : d'.settle after = d.settle (.item indent (.task ticked text) :: after))
    (himports : d'.imports = d.imports) (hassumptions : d'.assumptions = d.assumptions)
    (hinferences : d'.inferences = d.inferences) :
    (d'.addTask ticked text).finish name (before ++ [.item indent (.task ticked text)]) after =
      d.finish name before (.item indent (.task ticked text) :: after) := by
  apply finish_of_none rfl
  · exact hsettle
  · rw [addTask, himports]
    exact (List.append_nil _).symm
  · rw [addTask, hassumptions, assumptionsOf_task, List.reverse_cons, List.append_assoc]
    rfl
  · rw [addTask, hinferences]

/-- A new inference gets what the lines behind it give to it. -/
theorem settle_addInference {text : List Char} (htop : d.top = some indent) :
    (d.addInference text).settle after =
      (Heading.inference ⟨d.assumptions.length, text, expression? indent after⟩
        d.inferences.length).map (· :: d.inferences) := by
  rw [settle, addInference, Heading.inference, Heading.dependsOn]
  simp only [htop, Option.bind_some]
  cases expression? indent after with
  | none => rfl
  | some code =>
    dsimp only
    cases Dependency.read code <;> rfl

theorem finish_addInference {text : List Char} (h : d.Sound before) (hlevel : TopLevel before indent)
    (hsettle : d.settle (.item indent (.plain text) :: after) = .ok d.inferences)
    (htop : d'.top = some indent) (himports : d'.imports = d.imports)
    (hassumptions : d'.assumptions = d.assumptions) (hinferences : d'.inferences = d.inferences) :
    (d'.addInference text).finish name (before ++ [.item indent (.plain text)]) after =
      d.finish name before (.item indent (.plain text) :: after) := by
  have hheading : heading? before (.item indent (.plain text)) after =
      some ⟨d.assumptions.length, text, expression? indent after⟩ := by
    rw [heading?, if_pos hlevel, h.tasks]
  have hlength : (d'.addInference text).inferences.length = d.inferences.length + 1 := by
    rw [addInference, List.length_cons, hinferences]
  rw [finish, finish, settle_addInference htop, hsettle, headings_of_some hheading, inferencesOf_cons,
    hlength, hassumptions, hinferences]
  -- Both read the dependencies of the new inference first, then those of the later ones.
  cases Heading.inference ⟨d.assumptions.length, text, expression? indent after⟩ d.inferences.length with
  | error e => rfl
  | ok i =>
    cases inferencesOf (headings (before ++ [.item indent (.plain text)]) after)
      (d.inferences.length + 1) with
    | error e => rfl
    | ok rest =>
      simp only [Except.map, bind, Except.bind, pure, Except.pure, addInference, himports, hassumptions,
        List.filterMap_cons, Line.imported?]
      rw [assumptionsOf_of_none rfl, List.reverse_cons, List.append_assoc]
      rfl

/-- A deeper item of plain text is looked at for dependencies. -/
theorem finish_addNested {text : List Char} (h : d.Sound before) (hn : d.isNested indent = true) :
    (d.addNested text >>= fun d' => d'.finish name (before ++ [.item indent (.plain text)]) after) =
      d.finish name before (.item indent (.plain text) :: after) := by
  have hheading : heading? before (.item indent (.plain text)) after = none := by
    rw [heading?, if_neg ((h.nested indent).1 hn)]
  have hkeep {d' : Draft} (hsettle : d'.settle after = d.settle (.item indent (.plain text) :: after))
      (himports : d'.imports = d.imports) (hassumptions : d'.assumptions = d.assumptions)
      (hlength : d'.inferences.length = d.inferences.length) :
      d'.finish name (before ++ [.item indent (.plain text)]) after =
        d.finish name before (.item indent (.plain text) :: after) := by
    apply finish_of_none hheading hsettle
    · rw [himports]
      exact (List.append_nil _).symm
    · rw [hassumptions, assumptionsOf_of_none rfl]
    · exact hlength
  cases hcode : codeSpan? text with
  | none =>
    have hnone : (Content.plain text).expression? = none := hcode
    rw [addNested_of_no_expression hcode]
    exact hkeep (settle_of_no_expression hn hnone).symm rfl rfl rfl
  | some code =>
    cases hw : d.waiting with
    | false =>
      rw [addNested_of_not_waiting hw]
      exact hkeep (by rw [settle_of_not_waiting hw, settle_of_not_waiting hw]) rfl rfl rfl
    | true =>
      have hsome : (Content.plain text).expression? = some code := hcode
      have hsettle : d.settle (.item indent (.plain text) :: after) =
          (Dependency.read code).map fun dependsOn => depend dependsOn d.inferences :=
        settle_of_expression hn hw hsome
      rw [addNested_of_expression hw hcode]
      cases hread : Dependency.read code with
      | error e =>
        rw [hread] at hsettle
        rw [finish, hsettle]
        rfl
      | ok dependsOn =>
        rw [hread] at hsettle
        show finish { d with inferences := depend dependsOn d.inferences, waiting := false } name _ after = _
        apply hkeep
        · exact (settle_of_not_waiting rfl).trans hsettle.symm
        · rfl
        · rfl
        · exact length_depend dependsOn d.inferences

/-- **Each step keeps what the draft amounts to.** -/
theorem finish_step (h : d.Sound before) :
    (d.step line >>= fun d' => d'.finish name (before ++ [line]) after) =
      d.finish name before (line :: after) := by
  cases line with
  | importOf n =>
    apply finish_of_listItem? rfl
    · exact (settle_of_listItem? (by nofun) rfl).symm
    · exact List.reverse_cons
    all_goals rfl
  | blank =>
    apply finish_of_listItem? rfl
    · exact (settle_of_listItem? (by nofun) rfl).symm
    · exact (List.append_nil _).symm
    all_goals rfl
  | other =>
    show finish { d with top := none, waiting := false } name _ after = _
    apply finish_of_listItem? rfl
    · exact (settle_of_not_waiting rfl).trans (settle_other (d := d)).symm
    · exact (List.append_nil _).symm
    all_goals rfl
  | item indent content =>
    cases hn : d.isNested indent with
    | true =>
      cases content with
      | task ticked text =>
        rw [step_nested_task hn]
        apply finish_addTask
        · exact (settle_of_no_expression hn rfl).symm
        all_goals rfl
      | plain text =>
        rw [step_nested_plain hn]
        exact finish_addNested h hn
    | false =>
      cases content with
      | task ticked text =>
        rw [step_top_task hn]
        show ((d.opened indent).addTask ticked text).finish name _ after = _
        apply finish_addTask
        · exact (settle_of_not_waiting rfl).trans (settle_of_not_nested hn).symm
        all_goals rfl
      | plain text =>
        rw [step_top_plain hn]
        show ((d.opened indent).addInference text).finish name _ after = _
        apply finish_addInference h (h.topLevel_of_not_nested hn) (settle_of_not_nested hn)
        all_goals rfl

/-- **A draft that has read the lines before reads of the others what they declare.** -/
theorem run_eq_finish (h : d.Sound before) :
    (d.run after >>= fun d' => pure (d'.document name)) = d.finish name before after := by
  induction after generalizing d before with
  | nil =>
    rw [finish, settle_nil, headings]
    simp [run, document, inferencesOf, assumptionsOf, bind, Except.bind, pure, Except.pure]
  | cons line after ih =>
    rw [run, ← finish_step h]
    cases hd : d.step line with
    | error e => rfl
    | ok d' => exact ih (h.step hd)

end Draft

/-- **Reading an outline is what its lines declare.** -/
theorem run_eq_reading (name : String) (lines : List Line) :
    (Draft.run {} lines >>= fun d => pure (d.document name)) = reading name lines := by
  rw [Draft.run_eq_finish Draft.sound_empty]
  rfl

end Verdict.Outline

namespace Verdict

open Outline

theorem Document.reading_of_ofOutline {text path : String} {d : Document}
    (h : Document.ofOutline text path = .ok d) : reading (documentName path) (linesOf text) = .ok d := by
  rw [← run_eq_reading]
  rw [Document.ofOutline] at h
  cases hrun : Draft.run {} (linesOf text) with
  | error e =>
    rw [hrun] at h
    cases h
  | ok draft =>
    rw [hrun] at h
    obtain ⟨_, hd, h⟩ := bind_eq_ok_iff.1 h
    cases hd
    dsimp only at h
    split at h
    · cases h
    · cases h
      rfl

theorem Document.ofOutline_of_reading {text path : String} {d : Document}
    (h : reading (documentName path) (linesOf text) = .ok d) (hname : Text.trim d.name.toList ≠ []) :
    Document.ofOutline text path = .ok d := by
  rw [← run_eq_reading] at h
  rw [Document.ofOutline]
  generalize documentName path = name at h ⊢
  obtain ⟨draft, hrun, hd⟩ := bind_eq_ok_iff.1 h
  obtain rfl := pure_eq_ok_iff.1 hd
  have hname' : ¬ Text.trim name.toList = [] := hname
  rw [hrun]
  simp only [Except.mapError, bind, Except.bind, hname', if_false, pure, Except.pure]

/-- An outline is refused for its numerals before its name is looked at. -/
theorem Document.ofOutline_eq_numeral_iff {text path : String} {e : NumeralError} :
    Document.ofOutline text path = .error (.numeral e) ↔
      reading (documentName path) (linesOf text) = .error e := by
  rw [← run_eq_reading, Document.ofOutline]
  generalize documentName path = name
  cases Draft.run {} (linesOf text) with
  | error e' =>
    simp only [Except.mapError, bind, Except.bind, Except.error.injEq, DocumentError.numeral.injEq]
  | ok draft =>
    simp only [Except.mapError, bind, Except.bind, pure, Except.pure, reduceCtorEq, iff_false]
    split <;> nofun

/-- **The outline of a document is read as it is declared.** -/
theorem Document.ofOutline_eq_reading (text path : String) :
    Document.ofOutline text path = do
      let d ← (reading (documentName path) (linesOf text)).mapError .numeral
      if Text.trim d.name.toList = [] then throw (.issues [⟨[.name "name"], .blankName⟩])
      return d := by
  rw [← run_eq_reading, Document.ofOutline]
  cases Draft.run {} (linesOf text) with
  | error e => rfl
  | ok d => rfl

end Verdict

import Mathlib.Data.List.Nodup
import Verdict.Proofs.Document.Reading

/-!
# The numbers of an outline

Assumptions and inferences are counted apart. A task takes the next number after the tasks before it, and
an inference the next after all items before it, so a task that stands behind an inference may get a
number that is taken.

> The ids of a document that is read from an outline are pairwise distinct iff no task stands behind an
> inference (`nodup_ids_iff`).

Within each kind they always are.
-/

namespace Verdict.Outline

/-- Some task stands behind an inference. -/
def TaskBehindInference (lines : List Line) : Prop :=
  ∃ before indent text after, lines = before ++ .item indent (.plain text) :: after ∧
    TopLevel before indent ∧ after.filterMap Line.task? ≠ []

/-! ## The tasks before an inference -/

theorem heading?_eq_some_iff {before after : List Line} {line : Line} {h : Heading} :
    heading? before line after = some h ↔
      ∃ indent text, line = .item indent (.plain text) ∧ TopLevel before indent ∧
        h = ⟨(before.filterMap Line.task?).length, text, expression? indent after⟩ := by
  constructor
  · intro hsome
    unfold heading? at hsome
    split at hsome
    · next indent text =>
      split at hsome
      · next hlevel =>
        cases hsome
        exact ⟨indent, text, rfl, hlevel, rfl⟩
      · cases hsome
    · cases hsome
  · intro hplain
    obtain ⟨indent, text, rfl, hlevel, rfl⟩ := hplain
    rw [heading?, if_pos hlevel]

/-- What is declared is declared somewhere, and by what stands around it. -/
theorem mem_headings_iff {before lines : List Line} {h : Heading} :
    h ∈ headings before lines ↔
      ∃ between line after, lines = between ++ line :: after ∧
        heading? (before ++ between) line after = some h := by
  induction lines generalizing before with
  | nil => simp [headings]
  | cons line lines ih =>
    rw [headings, List.mem_append, Option.mem_toList, ih]
    constructor
    · intro hor
      rcases hor with hhere | ⟨between, l, after, rfl, hlater⟩
      · exact ⟨[], line, lines, rfl, by rwa [List.append_nil]⟩
      · exact ⟨line :: between, l, after, rfl, by rwa [List.append_cons]⟩
    · intro hsome
      obtain ⟨between, l, after, hsplit, hlater⟩ := hsome
      cases between with
      | nil =>
        cases hsplit
        rw [List.append_nil] at hlater
        exact Or.inl hlater
      | cons l' between =>
        cases hsplit
        rw [List.append_cons] at hlater
        exact Or.inr ⟨between, l, after, rfl, hlater⟩

theorem le_tasks_of_mem_headings {before lines : List Line} {h : Heading}
    (hm : h ∈ headings before lines) : (before.filterMap Line.task?).length ≤ h.tasks := by
  obtain ⟨between, line, after, -, hsome⟩ := mem_headings_iff.1 hm
  obtain ⟨_, _, -, -, rfl⟩ := heading?_eq_some_iff.1 hsome
  rw [List.filterMap_append, List.length_append]
  exact Nat.le_add_right _ _

theorem tasks_le_of_mem_headings {lines : List Line} {h : Heading} (hm : h ∈ headings [] lines) :
    h.tasks ≤ (lines.filterMap Line.task?).length := by
  obtain ⟨between, line, after, rfl, hsome⟩ := mem_headings_iff.1 hm
  obtain ⟨_, _, -, -, rfl⟩ := heading?_eq_some_iff.1 hsome
  rw [List.nil_append, List.filterMap_append, List.length_append]
  exact Nat.le_add_right _ _

/-- Further down there are no fewer tasks above. -/
theorem pairwise_headings (before lines : List Line) :
    (headings before lines).Pairwise fun h h' => h.tasks ≤ h'.tasks := by
  induction lines generalizing before with
  | nil => exact .nil
  | cons line lines ih =>
    cases hhere : heading? before line lines with
    | none =>
      rw [headings_of_none hhere]
      exact ih _
    | some h =>
      rw [headings_of_some hhere]
      refine .cons (fun h' hm => ?_) (ih _)
      obtain ⟨_, _, -, -, rfl⟩ := heading?_eq_some_iff.1 hhere
      have := le_tasks_of_mem_headings hm
      rw [List.filterMap_append, List.length_append] at this
      exact Nat.le_trans (Nat.le_add_right _ _) this

theorem length_tasks_split (before after : List Line) (indent : Nat) (text : List Char) :
    ((before ++ .item indent (.plain text) :: after).filterMap Line.task?).length =
      (before.filterMap Line.task?).length + (after.filterMap Line.task?).length := by
  rw [List.filterMap_append, List.length_append, List.filterMap_cons_none rfl]

/-- No task stands behind an inference iff all of them stand before each. -/
theorem not_taskBehindInference_iff {lines : List Line} :
    ¬ TaskBehindInference lines ↔
      ∀ h ∈ headings [] lines, h.tasks = (lines.filterMap Line.task?).length := by
  constructor
  · intro hno h hm
    obtain ⟨before, line, after, rfl, hsome⟩ := mem_headings_iff.1 hm
    obtain ⟨indent, text, rfl, hlevel, rfl⟩ := heading?_eq_some_iff.1 hsome
    have hafter : after.filterMap Line.task? = [] :=
      Decidable.of_not_not fun hne => hno ⟨before, indent, text, after, rfl, hlevel, hne⟩
    rw [length_tasks_split, hafter]
    rfl
  · intro hall hbehind
    obtain ⟨before, indent, text, after, rfl, hlevel, hne⟩ := hbehind
    have htasks := hall _ (mem_headings_iff.2 ⟨before, _, after, rfl,
      heading?_eq_some_iff.2 ⟨indent, text, rfl, hlevel, rfl⟩⟩)
    have hpos := List.length_pos_iff.2 hne
    rw [length_tasks_split, List.nil_append] at htasks
    dsimp only at htasks
    omega

/-! ## The numbers -/

/-- The numbers of inferences behind `k` others. -/
def numbers (hs : List Heading) (k : Nat) : List Nat :=
  (hs.zipIdx k).map fun e => e.1.tasks + e.2 + 1

theorem ids_assumptionsOf (lines : List Line) :
    (assumptionsOf lines 0).map (·.id) =
      (List.range' 1 (lines.filterMap Line.task?).length).map fun (n : Nat) => Id.number n := by
  rw [assumptionsOf, List.map_map, ← List.zipIdx_map_snd 1 (lines.filterMap Line.task?), List.map_map]
  rfl

theorem Heading.id_of_inference {h : Heading} {k : Nat} {i : Inference} (hi : h.inference k = .ok i) :
    i.id = .number ↑(h.tasks + k + 1) := by
  rw [inference] at hi
  obtain ⟨_, -, hi⟩ := bind_eq_ok_iff.1 hi
  cases hi
  rfl

theorem ids_inferencesOf {hs : List Heading} {k : Nat} {is : List Inference}
    (h : inferencesOf hs k = .ok is) :
    is.map (·.id) = (numbers hs k).map fun (n : Nat) => Id.number n := by
  induction hs generalizing k is with
  | nil =>
    cases h
    rfl
  | cons hd hs ih =>
    rw [inferencesOf_cons] at h
    obtain ⟨i, hi, h⟩ := bind_eq_ok_iff.1 h
    obtain ⟨rest, hrest, h⟩ := bind_eq_ok_iff.1 h
    cases h
    rw [List.map_cons, hd.id_of_inference hi, ih hrest]
    rfl

/-- Inferences have larger and larger numbers. -/
theorem pairwise_numbers {hs : List Heading} (h : hs.Pairwise fun h h' => h.tasks ≤ h'.tasks) (k : Nat) :
    (numbers hs k).Pairwise (· < ·) := by
  induction h generalizing k with
  | nil => exact .nil
  | @cons hd hs hle _ ih =>
    rw [numbers, List.zipIdx_cons, List.map_cons]
    refine .cons (fun n hn => ?_) (ih (k + 1))
    obtain ⟨⟨h', j⟩, hm, rfl⟩ := List.mem_map.1 hn
    have htasks := hle h' (List.fst_mem_of_mem_zipIdx hm)
    have hj := List.le_snd_of_mem_zipIdx hm
    dsimp only at *
    omega

/-- The numbers of inferences are free of those of assumptions iff all tasks stand before each inference. -/
theorem nodup_numbers_iff {hs : List Heading} {n : Nat}
    (hsorted : hs.Pairwise fun h h' => h.tasks ≤ h'.tasks) (hle : ∀ h ∈ hs, h.tasks ≤ n) :
    (List.range' 1 n ++ numbers hs 0).Nodup ↔ ∀ h ∈ hs, h.tasks = n := by
  constructor
  · intro hnodup h hm
    have hn := hle h hm
    refine Nat.le_antisymm hn (Nat.le_of_not_lt fun hlt => ?_)
    -- Then the first inference has fewer tasks before it as well, and takes the number of the next one.
    cases hs with
    | nil => cases hm
    | cons first rest =>
      have hfirst : first.tasks ≤ h.tasks := by
        rcases List.mem_cons.1 hm with rfl | hm
        · exact Nat.le_refl _
        · exact (List.pairwise_cons.1 hsorted).1 h hm
      have htask : first.tasks + 1 ∈ List.range' 1 n := by
        rw [List.mem_range'_1]
        omega
      exact (List.nodup_append.1 hnodup).2.2 _ htask _ List.mem_cons_self rfl
  · intro hall
    refine List.nodup_append.2 ⟨List.nodup_range', ?_, fun a ha b hb e => ?_⟩
    · exact (pairwise_numbers hsorted 0).imp Nat.ne_of_lt
    · obtain ⟨⟨h, j⟩, hm, rfl⟩ := List.mem_map.1 hb
      have htasks := hall h (List.fst_mem_of_mem_zipIdx hm)
      rw [List.mem_range'_1] at ha
      dsimp only at e
      omega

theorem eq_of_reading {name : String} {lines : List Line} {d : Document}
    (h : reading name lines = .ok d) :
    inferencesOf (headings [] lines) 0 = .ok d.inferences ∧ d.assumptions = assumptionsOf lines 0 := by
  rw [reading] at h
  obtain ⟨is, his, hd⟩ := bind_eq_ok_iff.1 h
  rw [pure_eq_ok_iff] at hd
  subst hd
  exact ⟨his, rfl⟩

theorem nodup_map_number_iff {l : List Nat} : (l.map fun (n : Nat) => Id.number n).Nodup ↔ l.Nodup := by
  refine List.nodup_map_iff fun a b h => ?_
  exact Int.ofNat.inj (Id.number.inj h)

end Verdict.Outline

namespace Verdict

open Outline

/-- **Ids are unique iff no task stands behind an inference.** Those of assumptions always differ from
each other, and so do those of inferences. -/
theorem Document.nodup_ids_iff (text path : String) (d : Document)
    (h : Document.ofOutline text path = .ok d) :
    (d.assumptions.map (·.id)).Nodup ∧ (d.inferences.map (·.id)).Nodup ∧
      ((d.assumptions.map (·.id) ++ d.inferences.map (·.id)).Nodup ↔
        ¬ TaskBehindInference (linesOf text)) := by
  obtain ⟨hinferences, hassumptions⟩ := eq_of_reading (reading_of_ofOutline h)
  have hsorted := pairwise_headings [] (linesOf text)
  rw [hassumptions, ids_assumptionsOf, ids_inferencesOf hinferences, ← List.map_append]
  simp only [nodup_map_number_iff]
  refine ⟨List.nodup_range', (pairwise_numbers hsorted 0).imp Nat.ne_of_lt, ?_⟩
  rw [not_taskBehindInference_iff]
  exact nodup_numbers_iff hsorted fun _ => tasks_le_of_mem_headings

/-- A decision with its assumption first. -/
def decision : String :=
  "- [x] Postgres is free\n\n- We decided to go for Postgres\n  - `1`\n"

theorem Document.nodup_ids_decision :
    ∃ d, Document.ofOutline decision "decision.md" = .ok d ∧ d.assumptions.map (·.id) = [.number 1] ∧
      d.inferences.map (·.id) = [.number 2] ∧ ¬ TaskBehindInference (linesOf decision) := by
  let d : Document :=
    { name := "decision"
      assumptions := [{ id := .number 1, value := true, text := "Postgres is free" }]
      inferences :=
        [{ id := .number 2, text := "We decided to go for Postgres", dependsOn := [.number 1] }] }
  have hd : Document.ofOutline decision "decision.md" = .ok d := rfl
  exact ⟨d, hd, rfl, rfl, (Document.nodup_ids_iff decision "decision.md" d hd).2.2.1 (by decide)⟩

/-- Here the first inference and the task behind it are both number one, and the last inference depends on
that number. -/
theorem Document.shared_id :
    ∃ d, Document.ofOutline
        "- We decided to go for Postgres\n- [x] Postgres is free\n- We start now\n  - `1`\n" "doc.md" =
        .ok d ∧
      ¬ (d.assumptions.map (·.id) ++ d.inferences.map (·.id)).Nodup :=
  ⟨_, rfl, by decide⟩

end Verdict

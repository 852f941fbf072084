import Verdict.Proofs.Document.Rest
import Verdict.Proofs.Evaluation.Arity

/-!
# Failures that a batch notes

Once its paths are selected, a batch fails for the first file that cannot be loaded, for its cap, or
because there is no fixpoint within the cap; the checking program itself has no defect, and its clauses fit
its facts. Each cause comes with its error, which is passed on as it is.

> What goes wrong in the file system, in the form of a document or in the rounds of an evaluation is noted,
> and noted once. What is not noted is just this: a file whose bytes are no text, a path with a null
> character, a dependency of digits that is no numeral, and a cap that allows no round
> (`Batch.run_noted_iff`).

The predicates `Batch.Noted` and `Batch.Unnoted` say it by the causes, not by the errors that come of them.
-/

namespace Verdict

/-! ## Files -/

namespace Tree

variable {t : Tree} {p : Path} {e : FileError}

/-- Steps lead to a file or a directory, or there is one that leads nowhere. -/
theorem findFrom_error {l : Location} {steps : List String} (h : t.findFrom l steps = .error e) :
    e = .missing ∨ e = .notDirectory ∨ e = .tooLong := by
  induction steps generalizing l with
  | nil => cases h
  | cons step rest ih =>
    rw [findFrom] at h
    split at h
    · exact ih h
    · split at h
      · cases h
        exact Or.inr (Or.inr rfl)
      · dsimp only at h
        split at h
        · cases h
          exact Or.inl rfl
        · exact ih h
        · cases h
        · cases h
          exact Or.inr (Or.inl rfl)

theorem find_error (h : t.find p = .error e) :
    e = .nullCharacter ∨ e = .missing ∨ e = .notDirectory ∨ e = .tooLong := by
  rw [find] at h
  split at h
  · cases h
    exact Or.inl rfl
  · split at h
    · cases h
      exact Or.inr (Or.inr (Or.inr rfl))
    · exact Or.inr (findFrom_error h)

/-- A single place needs no order. -/
theorem select_of_selectFrom {directory : Path} {pattern : Pattern} (location : Location) (place : Place)
    (hseek : t.seek (t.resolve directory) = .ok (some (location, .directory)))
    (hplaces : t.selectFrom pattern.directoriesOnly pattern.components
      { path := t.resolve directory, location } = .ok [place]) :
    t.select directory pattern = .ok [place.path] := by
  unfold select
  dsimp only
  rw [hseek]
  show (t.selectFrom pattern.directoriesOnly pattern.components
    { path := t.resolve directory, location } >>= fun places =>
      pure ((places.map (·.path)).mergeSort Path.precedes)) = _
  rw [hplaces]
  show Except.ok (List.mergeSort [place.path] Path.precedes) = _
  rw [List.mergeSort_singleton]

/-- A file has no text if nothing is found, if a directory is, or if its bytes are none. -/
theorem readText_eq_error_iff :
    t.readText p = .error e ↔
      t.find p = .error e ∨ (∃ l, t.find p = .ok (l, .directory) ∧ e = .isDirectory) ∨
        ∃ l content, t.find p = .ok (l, .file content) ∧ String.fromUTF8? content = none ∧
          e = .notText := by
  rw [readText, bind_eq_error_iff]
  refine or_congr_right ?_
  constructor
  · rintro ⟨⟨l, _ | content⟩, hfind, h⟩
    · cases h
      exact Or.inl ⟨l, hfind, rfl⟩
    · dsimp only at h
      split at h
      · cases h
      · next hnone =>
        cases h
        exact Or.inr ⟨l, content, hfind, hnone, rfl⟩
  · rintro (⟨l, hfind, rfl⟩ | ⟨l, content, hfind, hnone, rfl⟩)
    · exact ⟨_, hfind, rfl⟩
    · refine ⟨_, hfind, ?_⟩
      dsimp only
      rw [hnone]
      rfl

end Tree

namespace Batch

/-- A file cannot be loaded, and that is noted: the way to it leads nowhere or to a directory, or there is
no name for its document. -/
inductive Unavailable (t : Tree) (p : Path) : Error → Prop where
  | nowhere {e : FileError} : t.find p = .error e → e ≠ .nullCharacter → Unavailable t p (.file e)
  | directory {l : Location} : t.find p = .ok (l, .directory) → Unavailable t p (.file .isDirectory)
  | unnamed {text : String} {issues : List Issue} :
    t.readText p = .ok text → Document.ofOutline text p.name = .error (.issues issues) →
      Unavailable t p (.document (.issues issues))

/-- A file cannot be loaded, and that is not noted: its path holds a null character, its bytes are no text,
or a number in its outline is none. -/
inductive Unreadable (t : Tree) (p : Path) : Error → Prop where
  | nullCharacter : t.find p = .error .nullCharacter → Unreadable t p (.file .nullCharacter)
  | notText {l : Location} {content : ByteArray} :
    t.find p = .ok (l, .file content) → String.fromUTF8? content = none →
      Unreadable t p (.file .notText)
  | numeral {text : String} {e : NumeralError} :
    t.readText p = .ok text → Document.ofOutline text p.name = .error (.numeral e) →
      Unreadable t p (.document (.numeral e))

variable {t : Tree} {p : Path} {paths : List Path} {cap : Int} {e : Error}

theorem Unavailable.isNoted (h : Unavailable t p e) : e.isNoted = true := by
  cases h with
  | nowhere hfind hne =>
    rcases Tree.find_error hfind with rfl | rfl | rfl | rfl
    · exact absurd rfl hne
    all_goals rfl
  | directory _ => rfl
  | unnamed _ _ => rfl

theorem Unreadable.not_isNoted (h : Unreadable t p e) : e.isNoted = false := by
  cases h <;> rfl

/-- **A file is loaded, or there is a cause of one of the two kinds.** -/
theorem loadFile_eq_error_iff : loadFile t p = .error e ↔ Unavailable t p e ∨ Unreadable t p e := by
  simp only [loadFile, bind_eq_error_iff, mapError_eq_error_iff, mapError_eq_ok_iff]
  constructor
  · rintro (⟨e, htext, rfl⟩ | ⟨text, htext, e, houtline, rfl⟩)
    · rcases Tree.readText_eq_error_iff.1 htext with
        hfind | ⟨l, hfind, rfl⟩ | ⟨l, content, hfind, hnone, rfl⟩
      · by_cases hnull : e = .nullCharacter
        · subst hnull
          exact Or.inr (.nullCharacter hfind)
        · exact Or.inl (.nowhere hfind hnull)
      · exact Or.inl (.directory hfind)
      · exact Or.inr (.notText hfind hnone)
    · cases e with
      | numeral e => exact Or.inr (.numeral htext houtline)
      | issues issues => exact Or.inl (.unnamed htext houtline)
  · rintro (h | h)
    · cases h with
      | nowhere hfind _ => exact Or.inl ⟨_, Tree.readText_eq_error_iff.2 (Or.inl hfind), rfl⟩
      | directory hfind =>
        exact Or.inl ⟨_, Tree.readText_eq_error_iff.2 (Or.inr (Or.inl ⟨_, hfind, rfl⟩)), rfl⟩
      | unnamed htext houtline => exact Or.inr ⟨_, htext, _, houtline, rfl⟩
    · cases h with
      | nullCharacter hfind => exact Or.inl ⟨_, Tree.readText_eq_error_iff.2 (Or.inl hfind), rfl⟩
      | notText hfind hnone =>
        exact Or.inl ⟨_, Tree.readText_eq_error_iff.2 (Or.inr (Or.inr ⟨_, _, hfind, hnone, rfl⟩)), rfl⟩
      | numeral htext houtline => exact Or.inr ⟨_, htext, _, houtline, rfl⟩

/-- The first file that cannot be loaded is so for this cause. -/
def FirstFails (t : Tree) (cause : Path → Error → Prop) (paths : List Path) (e : Error) : Prop :=
  ∃ before p after, paths = before ++ p :: after ∧ (∀ q ∈ before, ∃ d, loadFile t q = .ok d) ∧ cause p e

theorem load_eq_error_iff :
    load t paths = .error e ↔
      FirstFails t (Unavailable t) paths e ∨ FirstFails t (Unreadable t) paths e := by
  simp only [load, mapM_eq_error_iff, loadFile_eq_error_iff, FirstFails, and_or_left, exists_or]

end Batch

/-! ## The program of the documents -/

/-- **The evaluation of documents fails for its cap, or within it.** -/
theorem Document.evaluateAll_eq_error_iff {docs : List Document} {cap : Int} {e : Error} :
    (Document.evaluateAll docs cap).result = .error e ↔
      cap ≤ 0 ∧ e = .cap ⟨cap⟩ ∨
        0 < cap ∧ ((Program.ofDocuments docs : Program).run cap.toNat ∅).ending = .capReached ∧
          e = .evaluation (.capReached cap.toNat) := by
  rw [Document.result_evaluateAll, bind_eq_error_iff]
  -- The clauses fit the facts, so that only the cap is left to stop a run.
  simp only [mapError_eq_error_iff, mapError_eq_ok_iff,
    (Check.fitsArities_ofDocuments docs).evaluate_eq_error_iff rfl, Cap.ofInt_eq_error_iff,
    Cap.ofInt_eq_ok_iff]
  constructor
  · rintro (⟨_, ⟨hcap, rfl⟩, rfl⟩ | ⟨c, ⟨hpos, hc⟩, _, ⟨hend, rfl⟩, rfl⟩)
    · exact Or.inl ⟨hcap, rfl⟩
    · rw [hc] at hend ⊢
      exact Or.inr ⟨hpos, hend, rfl⟩
  · rintro (⟨hcap, rfl⟩ | ⟨hpos, hend, rfl⟩)
    · exact Or.inl ⟨_, ⟨hcap, rfl⟩, rfl⟩
    · exact Or.inr ⟨⟨cap.toNat, by omega⟩, ⟨hpos, rfl⟩, _, ⟨hend, rfl⟩, rfl⟩

/-! ## Notices -/

/-- How often it is noted that a batch came to nothing. -/
def Outcome.failuresNoted {ε β : Type} (o : Outcome ε β) : Nat := o.notices.count .batchFailed

theorem Document.batchFailed_not_mem_notices {docs : List Document} : .batchFailed ∉ notices docs := by
  simp [notices, dependencyNotices, importNotices]

theorem Evaluator.batchFailed_not_mem_evaluateNoting {α : Type} [DecidableEq α] {e : Evaluator}
    {p : Program α} : .batchFailed ∉ (e.evaluateNoting p).notices := by
  unfold Evaluator.evaluateNoting
  split
  · exact List.not_mem_nil
  · next err _ _ => cases err <;> simp [EvaluationError.notices]

/-- What a batch notes on its way is something else. -/
theorem Document.batchFailed_not_mem_evaluateAll {docs : List Document} {cap : Int} :
    .batchFailed ∉ (Document.evaluateAll docs cap).notices := by
  unfold Document.evaluateAll
  simp only [Outcome.mem_notices_bind_iff]
  rintro (h | ⟨_, -, h | ⟨_, -, h | ⟨_, -, h | ⟨_, -, h⟩⟩⟩⟩)
  · exact batchFailed_not_mem_notices h
  · cases h
  · cases h
  · exact Evaluator.batchFailed_not_mem_evaluateNoting h
  · cases h

namespace Batch

variable {β : Type} {o : Outcome Error β}

theorem result_noteFailure : (noteFailure o).result = o.result := by
  unfold noteFailure
  split <;> rfl

theorem failuresNoted_of_ok {b : β} (h : .batchFailed ∉ o.notices) (hb : o.result = .ok b) :
    (noteFailure o).failuresNoted = 0 := by
  simp only [noteFailure, hb]
  exact List.count_eq_zero.2 h

theorem failuresNoted_of_error (h : .batchFailed ∉ o.notices) (he : o.result = .error e) :
    (noteFailure o).failuresNoted = if e.isNoted then 1 else 0 := by
  simp only [noteFailure, he, Outcome.failuresNoted, List.count_append, List.count_eq_zero.2 h]
  split <;> rfl

/-- A batch fails, and that is noted. -/
inductive Noted (t : Tree) (paths : List Path) (cap : Int) : Error → Prop where
  | file {e : Error} : FirstFails t (Unavailable t) paths e → Noted t paths cap e
  | capReached {docs : List Document} :
    load t paths = .ok docs → 0 < cap →
      ((Program.ofDocuments docs : Program).run cap.toNat ∅).ending = .capReached →
        Noted t paths cap (.evaluation (.capReached cap.toNat))

/-- A batch fails, and that is not noted. -/
inductive Unnoted (t : Tree) (paths : List Path) (cap : Int) : Error → Prop where
  | file {e : Error} : FirstFails t (Unreadable t) paths e → Unnoted t paths cap e
  | badCap {docs : List Document} :
    load t paths = .ok docs → cap ≤ 0 → Unnoted t paths cap (.cap ⟨cap⟩)

theorem Noted.isNoted (h : Noted t paths cap e) : e.isNoted = true := by
  cases h with
  | file h =>
    obtain ⟨_, _, _, -, -, h⟩ := h
    exact h.isNoted
  | capReached _ _ _ => rfl

theorem Unnoted.not_isNoted (h : Unnoted t paths cap e) : e.isNoted = false := by
  cases h with
  | file h =>
    obtain ⟨_, _, _, -, -, h⟩ := h
    exact h.not_isNoted
  | badCap _ _ => rfl

/-- Reading and evaluating fail for nothing else. -/
theorem noted_or_unnoted_iff :
    (load t paths = .error e ∨
        ∃ docs, load t paths = .ok docs ∧ (Document.evaluateAll docs cap).result = .error e) ↔
      Noted t paths cap e ∨ Unnoted t paths cap e := by
  simp only [load_eq_error_iff, Document.evaluateAll_eq_error_iff]
  constructor
  · rintro ((h | h) | ⟨docs, hdocs, ⟨hcap, rfl⟩ | ⟨hpos, hend, rfl⟩⟩)
    · exact Or.inl (.file h)
    · exact Or.inr (.file h)
    · exact Or.inr (.badCap hdocs hcap)
    · exact Or.inl (.capReached hdocs hpos hend)
  · rintro (h | h)
    · cases h with
      | file h => exact Or.inl (Or.inl h)
      | capReached hdocs hpos hend => exact Or.inr ⟨_, hdocs, Or.inr ⟨hpos, hend, rfl⟩⟩
    · cases h with
      | file h => exact Or.inl (Or.inr h)
      | badCap hdocs hcap => exact Or.inr ⟨_, hdocs, Or.inl ⟨hcap, rfl⟩⟩

/-! ## Batches -/

/-- Once the paths are selected, a batch reads and evaluates, notes a failure, and prints. -/
theorem run_of_selected {root : Path} {pattern : String} {selected : Pattern}
    (hpattern : Pattern.ofString pattern = .ok selected) (hpaths : t.select root selected = .ok paths) :
    run t root pattern cap = do
      let p ← evaluateFiles t paths cap
      return p.render true := by
  rw [run, hpattern]
  show (do
    let paths ← Outcome.ofExcept ((t.select root selected).mapError Error.file)
    let p ← evaluateFiles t paths cap
    return p.render true) = _
  rw [hpaths]
  rfl

theorem evaluateFiles_eq_error_iff :
    (evaluateFiles t paths cap).result = .error e ↔
      load t paths = .error e ∨
        ∃ docs, load t paths = .ok docs ∧ (Document.evaluateAll docs cap).result = .error e := by
  rw [evaluateFiles, result_noteFailure, Outcome.result_bind, bind_eq_error_iff]
  rfl

theorem batchFailed_not_mem_of_load :
    .batchFailed ∉ (Outcome.ofExcept (load t paths) >>= fun docs => Document.evaluateAll docs cap).notices := by
  rw [Outcome.mem_notices_bind_iff]
  rintro (h | ⟨_, -, h⟩)
  · cases h
  · exact Document.batchFailed_not_mem_evaluateAll h

theorem failuresNoted_evaluateFiles_of_ok {q : Program} (h : (evaluateFiles t paths cap).result = .ok q) :
    (evaluateFiles t paths cap).failuresNoted = 0 :=
  failuresNoted_of_ok batchFailed_not_mem_of_load (result_noteFailure.symm.trans h)

theorem failuresNoted_evaluateFiles_of_error (h : (evaluateFiles t paths cap).result = .error e) :
    (evaluateFiles t paths cap).failuresNoted = if e.isNoted then 1 else 0 :=
  failuresNoted_of_error batchFailed_not_mem_of_load (result_noteFailure.symm.trans h)

theorem evaluateFiles_error_cases (h : (evaluateFiles t paths cap).result = .error e) :
    Noted t paths cap e ∨ Unnoted t paths cap e :=
  noted_or_unnoted_iff.1 (evaluateFiles_eq_error_iff.1 h)

theorem Noted.evaluateFiles (h : Noted t paths cap e) :
    (evaluateFiles t paths cap).result = .error e ∧ (evaluateFiles t paths cap).failuresNoted = 1 := by
  have hresult := evaluateFiles_eq_error_iff.2 (noted_or_unnoted_iff.2 (Or.inl h))
  exact ⟨hresult, (failuresNoted_evaluateFiles_of_error hresult).trans (if_pos h.isNoted)⟩

theorem Unnoted.evaluateFiles (h : Unnoted t paths cap e) :
    (evaluateFiles t paths cap).result = .error e ∧ (evaluateFiles t paths cap).failuresNoted = 0 := by
  have hresult := evaluateFiles_eq_error_iff.2 (noted_or_unnoted_iff.2 (Or.inr h))
  exact ⟨hresult, (failuresNoted_evaluateFiles_of_error hresult).trans (by rw [h.not_isNoted]; rfl)⟩

section Run

variable {root : Path} {pattern : String} {selected : Pattern}

theorem result_run (hpattern : Pattern.ofString pattern = .ok selected)
    (hpaths : t.select root selected = .ok paths) :
    (run t root pattern cap).result = (evaluateFiles t paths cap).result.map (·.render true) := by
  rw [run_of_selected hpattern hpaths, Outcome.result_bind]
  cases (evaluateFiles t paths cap).result <;> rfl

theorem failuresNoted_run (hpattern : Pattern.ofString pattern = .ok selected)
    (hpaths : t.select root selected = .ok paths) :
    (run t root pattern cap).failuresNoted = (evaluateFiles t paths cap).failuresNoted := by
  rw [Outcome.failuresNoted, run_of_selected hpattern hpaths, Outcome.notices_bind_pure]
  rfl

/-- **A failure is passed on and noted once, unless it is of a kind that is not noted.** Once its paths are
selected, a batch fails with the error that reading the files or evaluating the documents comes to; and
nothing is noted if it returns. -/
theorem run_noted_iff (cap : Int) (hpattern : Pattern.ofString pattern = .ok selected)
    (hpaths : t.select root selected = .ok paths) :
    (∀ text, (run t root pattern cap).result = .ok text → (run t root pattern cap).failuresNoted = 0) ∧
    ∀ e,
      ((run t root pattern cap).result = .error e ↔
        load t paths = .error e ∨
          ∃ docs, load t paths = .ok docs ∧ (Document.evaluateAll docs cap).result = .error e) ∧
      ((run t root pattern cap).result = .error e ∧ (run t root pattern cap).failuresNoted = 1 ↔
        Noted t paths cap e) ∧
      ((run t root pattern cap).result = .error e ∧ (run t root pattern cap).failuresNoted = 0 ↔
        Unnoted t paths cap e) ∧
      ((run t root pattern cap).result = .error e → Noted t paths cap e ∨ Unnoted t paths cap e) := by
  rw [failuresNoted_run hpattern hpaths, result_run hpattern hpaths]
  refine ⟨fun text htext => ?_, fun e => ?_⟩
  · obtain ⟨q, hq, -⟩ := map_eq_ok_iff.1 htext
    exact failuresNoted_evaluateFiles_of_ok hq
  · rw [map_eq_error_iff]
    refine ⟨evaluateFiles_eq_error_iff, ⟨?_, Noted.evaluateFiles⟩, ⟨?_, Unnoted.evaluateFiles⟩,
      evaluateFiles_error_cases⟩
    · rintro ⟨he, hone⟩
      refine (evaluateFiles_error_cases he).resolve_right fun h => ?_
      rw [h.evaluateFiles.2] at hone
      cases hone
    · rintro ⟨he, hzero⟩
      refine (evaluateFiles_error_cases he).resolve_left fun h => ?_
      rw [h.evaluateFiles.2] at hzero
      cases hzero

end Run

/-- A single assumption: it is known after one round, and a second one sees that nothing changes. -/
def estimate : Tree := (Tree.ofBase []).addFile (.ofString "estimate.md") "- [x] enough\n".toUTF8

theorem select_estimate :
    estimate.select (.ofString "/") ⟨[.name "estimate.md"], false⟩ = .ok [.ofString "/estimate.md"] :=
  Tree.select_of_selectFrom [] ⟨.ofString "/estimate.md", ["estimate.md"]⟩ rfl rfl

/-- Two rounds are enough; one is not, which is noted, and to allow none is refused without a notice. -/
theorem run_noted_iff_estimate :
    Pattern.ofString "estimate.md" = .ok ⟨[.name "estimate.md"], false⟩ ∧
      estimate.select (.ofString "/") ⟨[.name "estimate.md"], false⟩ = .ok [.ofString "/estimate.md"] ∧
      (run estimate (.ofString "/") "estimate.md" 2).failuresNoted = 0 ∧
      ((run estimate (.ofString "/") "estimate.md" 1).result = .error (.evaluation (.capReached 1)) ∧
        (run estimate (.ofString "/") "estimate.md" 1).failuresNoted = 1) ∧
      (run estimate (.ofString "/") "estimate.md" 0).result = .error (.cap ⟨0⟩) ∧
        (run estimate (.ofString "/") "estimate.md" 0).failuresNoted = 0 := by
  have hpattern : Pattern.ofString "estimate.md" = .ok ⟨[.name "estimate.md"], false⟩ := rfl
  have hload : load estimate [.ofString "/estimate.md"] =
      .ok [{ name := "estimate", assumptions := [{ id := .number 1, value := true, text := "enough" }] }] :=
    rfl
  refine ⟨hpattern, select_estimate, ?_, ?_, ?_⟩
  · obtain ⟨q, hq⟩ : ∃ q, (evaluateFiles estimate [.ofString "/estimate.md"] 2).result = .ok q := ⟨_, rfl⟩
    refine (run_noted_iff 2 hpattern select_estimate).1 (q.render true) ?_
    rw [result_run hpattern select_estimate, hq]
    rfl
  · exact ((run_noted_iff 1 hpattern select_estimate).2 _).2.1.2 (.capReached hload (by decide) rfl)
  · exact ((run_noted_iff 0 hpattern select_estimate).2 _).2.2.1.2 (.badCap hload (by decide))

/-- A file of one byte, which is no text. -/
def garbled : Tree := (Tree.ofBase []).addFile (.ofString "x.logic.md") ⟨#[0xff]⟩

/-- **A failure may go unnoted**: the file is selected, and its bytes cannot be read. -/
theorem garbled_not_noted :
    ∃ selected paths, Pattern.ofString "x.logic.md" = .ok selected ∧
      garbled.select (.ofString "/") selected = .ok paths ∧
      (run garbled (.ofString "/") "x.logic.md" 1000).result = .error (.file .notText) ∧
      (run garbled (.ofString "/") "x.logic.md" 1000).failuresNoted = 0 := by
  have hpattern : Pattern.ofString "x.logic.md" = .ok ⟨[.name "x.logic.md"], false⟩ := rfl
  have hpaths : garbled.select (.ofString "/") ⟨[.name "x.logic.md"], false⟩ =
      .ok [.ofString "/x.logic.md"] :=
    Tree.select_of_selectFrom [] ⟨.ofString "/x.logic.md", ["x.logic.md"]⟩ rfl rfl
  have hunnoted : Unnoted garbled [.ofString "/x.logic.md"] 1000 (.file .notText) :=
    .file ⟨[], _, [], rfl, List.forall_mem_nil _, .notText rfl rfl⟩
  refine ⟨_, _, hpattern, hpaths, ?_⟩
  rw [result_run hpattern hpaths, failuresNoted_run hpattern hpaths, map_eq_error_iff]
  exact hunnoted.evaluateFiles

end Batch

end Verdict

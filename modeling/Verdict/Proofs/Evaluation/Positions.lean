import Verdict.Proofs.Evaluation.Failure
import Verdict.Proofs.Table

/-!
# Matching, position by position

A pattern becomes a row if each of its positions does, so it does not matter in which order the positions
are compared (`Valuation.Matches.perm`), although the binding is built from left to right. With it
`Binding.unify_least` says all that matching computes: whether there is an answer, what the answer is, and
that another order of the positions gives the same one.
-/

namespace Verdict

namespace Valuation

variable {α : Type} {v w : Valuation α} {positions positions' : List (Term α × Term α)}

theorem maps_iff_forall :
    v.Maps (positions.map Prod.fst) (positions.map Prod.snd) ↔
      ∀ position ∈ positions, position.1.under v = some position.2 := by
  rw [Maps, List.map_map, List.map_map, List.map_inj_left]
  rfl

theorem Matches.perm (h : positions.Perm positions')
    (hw : v.Matches (positions.map Prod.fst) (positions.map Prod.snd) w) :
    v.Matches (positions'.map Prod.fst) (positions'.map Prod.snd) w where
  le := hw.le
  maps := by
    rw [maps_iff_forall]
    intro position hposition
    exact maps_iff_forall.1 hw.maps position (h.mem_iff.2 hposition)
  least := by
    intro x t hx
    exact (hw.least x t hx).imp_right (h.map Prod.fst).mem_iff.1

/-- The variables with a value after a match: those with one before it, and those of the pattern. -/
theorem Matches.isSome_iff {pattern : List (Term α)} {row : Fact α} (h : v.Matches pattern row w)
    (x : String) : (w x).isSome ↔ (v x).isSome ∨ .var x ∈ pattern := by
  simp only [Option.isSome_iff_exists]
  constructor
  · intro hx
    obtain ⟨t, ht⟩ := hx
    exact (h.least x t ht).imp_left fun hv => ⟨t, hv⟩
  · intro hx
    rcases hx with ⟨t, ht⟩ | hp
    · exact ⟨t, h.le x t ht⟩
    · obtain ⟨t, -, ht⟩ := h.maps.exists_of_var hp
      exact ⟨t, ht⟩

/-- What is bound by a match is bound before it or stands in the row. -/
theorem Matches.mem_row {pattern : List (Term α)} {row : Fact α} (h : v.Matches pattern row w)
    {x : String} {t : Term α} (hx : w x = some t) : v x = some t ∨ t ∈ row := by
  refine (h.least x t hx).imp_right fun hp => ?_
  obtain ⟨s, hs, hxs⟩ := h.maps.exists_of_var hp
  rw [hx] at hxs
  cases hxs
  exact hs

end Valuation

namespace Binding

open Verdict.Valuation

variable {α : Type}

/-- Nothing but constants comes into a binding from a ground row. -/
theorem ground_values_of_matches {b b' : Binding α} {pattern : List (Term α)} {row : Fact α}
    (h : Matches b.get? pattern row b'.get?) (hrow : Term.Ground row) (hb : Term.Ground b.values) :
    Term.Ground b'.values := by
  intro t ht
  obtain ⟨x, hx⟩ := Table.mem_values_iff.1 ht
  rcases h.mem_row hx with hbound | hmem
  · exact hb t (Table.mem_values_iff.2 ⟨x, hbound⟩)
  · exact hrow t hmem

/-- Both answers are `none`, or both are the least extension. -/
theorem unify_perm {b : Binding} {positions positions' : List (Term × Term)}
    (h : positions.Perm positions') {answer answer' : Option Binding}
    (ha : b.unify (positions.map Prod.fst) (positions.map Prod.snd) = .ok answer)
    (ha' : b.unify (positions'.map Prod.fst) (positions'.map Prod.snd) = .ok answer') :
    Option.Rel Table.SameMap answer answer' := by
  cases answer with
  | some c =>
    obtain ⟨c', hc', hget⟩ := unify_of_matches ((unify_matches ha).perm h)
    rw [ha'] at hc'
    cases hc'
    exact .some fun x => (congrFun hget x).symm
  | none =>
    cases answer' with
    | none => exact .none
    | some c' =>
      have hc' := (unify_matches ha').perm h.symm
      exact absurd hc'.maps (not_maps_of_unify_none ha hc'.le)

/-- **Matching answers with the least extension that maps the pattern to the row**, and with `none` just
if no extension does. The answer binds the variables that were bound and those of the pattern, to
constants if there were only constants before. The order of the positions does not matter. -/
theorem unify_least {b : Binding} {pattern : List Term} {row : Fact}
    (hlength : pattern.length = row.length) :
    ∃ answer, b.unify pattern row = .ok answer ∧
      (answer.isSome ↔ ∃ w, Le b.get? w ∧ w.Maps pattern row) ∧
      (∀ b', answer = some b' →
        Le b.get? b'.get? ∧ (∀ x, x ∈ b'.keys ↔ x ∈ b.keys ∨ .var x ∈ pattern) ∧
          Maps b'.get? pattern row ∧ (∀ w, Le b.get? w → w.Maps pattern row → Le b'.get? w) ∧
          (Term.Ground row → Term.Ground b.values → Term.Ground b'.values)) ∧
      ∀ positions, (pattern.zip row).Perm positions →
        ∃ answer', b.unify (positions.map Prod.fst) (positions.map Prod.snd) = .ok answer' ∧
          Option.Rel Table.SameMap answer answer' := by
  obtain ⟨answer, ha⟩ := exists_unify_iff (b := b).2 hlength
  refine ⟨answer, ha, ⟨fun hsome => ?_, fun hw => ?_⟩, fun b' e => ?_, fun positions h => ?_⟩
  · obtain ⟨b', rfl⟩ := Option.isSome_iff_exists.1 hsome
    have hb' := unify_matches ha
    exact ⟨b'.get?, hb'.le, hb'.maps⟩
  · obtain ⟨w, hle, hw⟩ := hw
    obtain ⟨b', hb', -⟩ := unify_of_maps hle hw
    rw [ha] at hb'
    cases hb'
    rfl
  · subst e
    have hb' := unify_matches ha
    refine ⟨hb'.le, fun x => ?_, hb'.maps, fun w hle hw => hb'.le_of_maps hle hw,
      ground_values_of_matches hb'⟩
    rw [Table.mem_keys_iff, Table.mem_keys_iff, hb'.isSome_iff]
  · have hsame : (positions.map Prod.fst).length = (positions.map Prod.snd).length := by
      rw [List.length_map, List.length_map]
    obtain ⟨answer', ha'⟩ := exists_unify_iff (b := b).2 hsame
    refine ⟨answer', ha', unify_perm h ?_ ha'⟩
    rw [List.map_fst_zip (Nat.le_of_eq hlength), List.map_snd_zip (Nat.le_of_eq hlength.symm)]
    exact ha

/-- One variable is bound, to a text that is written like a truth value. -/
def quoted : Binding := .ofList [("Y", .text "true")]

/-- A variable that comes twice, one that is bound, and constants that look alike; and the same positions
from right to left. -/
theorem unify_least_quoted :
    Term.Ground quoted.values ∧
      ∃ b', quoted.unify [.var "X", .truth true, .var "Y", .var "X", .text "true"]
          [.truth true, .truth true, .text "true", .truth true, .text "true"] = .ok (some b') ∧
        Term.Ground b'.values ∧ b'.keys = ["Y", "X"] ∧
        ∃ answer, quoted.unify [.text "true", .var "X", .var "Y", .truth true, .var "X"]
            [.text "true", .truth true, .text "true", .truth true, .truth true] = .ok answer ∧
          Option.Rel Table.SameMap (some b') answer := by
  have hquoted : Term.Ground quoted.values := by decide
  obtain ⟨answer, ha, -, hleast, hperm⟩ := @unify_least quoted
    [.var "X", .truth true, .var "Y", .var "X", .text "true"]
    [.truth true, .truth true, .text "true", .truth true, .text "true"] rfl
  cases (Except.ok.inj (ha.symm.trans rfl) : answer = some _)
  obtain ⟨-, -, -, -, hground⟩ := hleast _ rfl
  obtain ⟨answer', ha', hrel⟩ := hperm _ (List.reverse_perm _).symm
  exact ⟨hquoted, _, ha, hground (by decide) hquoted, rfl, answer', ha', hrel⟩

end Binding

end Verdict

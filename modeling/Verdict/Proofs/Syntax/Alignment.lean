import Mathlib.Data.List.Nodup
import Verdict.Proofs.Result
import Verdict.Syntax.Alignment
import Verdict.Table

/-!
# Which rules can be aligned

A rule takes over the declared head just if its own head repeats its variables at the same places
(`Rule.exists_align_iff`). A renaming of heads is built pair by pair: it comes about if no variable is
to have two new names (`Renaming.exists_ofHeads_iff`), and it is one to one if no two are to have the
same.
-/

namespace Verdict

namespace Rule

/-- The lists are of one length, and they have equal items at the same places. -/
def SamePattern (xs ys : List String) : Prop :=
  xs.length = ys.length ∧ ∀ i j : Nat, xs[i]? = xs[j]? ↔ ys[i]? = ys[j]?

theorem SamePattern.refl (xs : List String) : SamePattern xs xs :=
  ⟨rfl, fun _ _ => Iff.rfl⟩

/-- Equal items stand at the same places if the pairs of items are one to one. -/
theorem samePattern_iff_zip {xs ys : List String} :
    SamePattern xs ys ↔ xs.length = ys.length ∧
      ∀ e ∈ xs.zip ys, ∀ e' ∈ xs.zip ys, e.1 = e'.1 ↔ e.2 = e'.2 := by
  refine and_congr_right fun hl => ⟨fun h e he e' he' => ?_, fun h i j => ?_⟩
  · obtain ⟨i, hi⟩ := List.mem_iff_getElem?.1 he
    obtain ⟨j, hj⟩ := List.mem_iff_getElem?.1 he'
    obtain ⟨hxi, hyi⟩ := List.getElem?_zip_eq_some.1 hi
    obtain ⟨hxj, hyj⟩ := List.getElem?_zip_eq_some.1 hj
    have := h i j
    rw [hxi, hxj, hyi, hyj, Option.some.injEq, Option.some.injEq] at this
    exact this
  · by_cases hi : i < xs.length
    · by_cases hj : j < xs.length
      · have hyi : i < ys.length := hl ▸ hi
        have hyj : j < ys.length := hl ▸ hj
        have mem (k : Nat) (hx : k < xs.length) (hy : k < ys.length) : (xs[k], ys[k]) ∈ xs.zip ys :=
          List.mem_iff_getElem?.2 ⟨k, List.getElem?_zip_eq_some.2
            ⟨List.getElem?_eq_getElem hx, List.getElem?_eq_getElem hy⟩⟩
        simp only [List.getElem?_eq_getElem, hi, hj, hyi, hyj, Option.some.injEq]
        exact h _ (mem i hi hyi) _ (mem j hj hyj)
      · simp [hi, hj, ← hl]
    · simp [hi, ← hl]

namespace Renaming

theorem nodup_concat {m : Renaming} (hm : (m.map Prod.fst).Nodup) {x : String}
    (hx : x ∉ m.map Prod.fst) (y : String) : ((m ++ [(x, y)]).map Prod.fst).Nodup := by
  rw [List.map_append]
  refine List.Nodup.append hm (List.nodup_singleton x) ?_
  simpa using hx

/-- The pairs of a renaming of heads are those it started with and those it was given. -/
theorem mem_ofHeads {m m' : Renaming} {l : List (String × String)} (hm : (m.map Prod.fst).Nodup)
    (h : ofHeads m l = .ok m') : (m'.map Prod.fst).Nodup ∧ ∀ e, e ∈ m' ↔ e ∈ m ∨ e ∈ l := by
  induction l generalizing m with
  | nil =>
    cases h
    exact ⟨hm, fun e => by simp⟩
  | cons pair rest ih =>
    obtain ⟨x, y⟩ := pair
    rw [ofHeads] at h
    split at h
    · next hx =>
      have hx : x ∉ m.map Prod.fst := Table.get?_eq_none_iff (t := ⟨m, hm⟩).1 hx
      obtain ⟨nd, hmem⟩ := ih (nodup_concat hm hx y) h
      exact ⟨nd, fun e => by simp [hmem, or_assoc]⟩
    · next y' hy =>
      split at h
      · next e =>
        subst e
        have hxy : (x, y') ∈ m := Table.get?_eq_some_iff (t := ⟨m, hm⟩).1 hy
        obtain ⟨nd, hmem⟩ := ih hm h
        refine ⟨nd, fun e => ?_⟩
        rw [hmem, List.mem_cons]
        constructor
        · exact Or.imp id Or.inr
        · rintro (h | rfl | h)
          · exact Or.inl h
          · exact Or.inl hxy
          · exact Or.inr h
      · cases h

/-- **Heads can be renamed if no variable is to have two new names.** -/
theorem exists_ofHeads_iff {l : List (String × String)} :
    (∃ m, ofHeads [] l = .ok m) ↔ ∀ e ∈ l, ∀ e' ∈ l, e.1 = e'.1 → e.2 = e'.2 := by
  have complete (l : List (String × String)) (m : Renaming) (hm : (m.map Prod.fst).Nodup)
      (h : ∀ e ∈ m ++ l, ∀ e' ∈ m ++ l, e.1 = e'.1 → e.2 = e'.2) : ∃ m', ofHeads m l = .ok m' := by
    induction l generalizing m with
    | nil => exact ⟨m, rfl⟩
    | cons pair rest ih =>
      obtain ⟨x, y⟩ := pair
      rw [ofHeads]
      split
      · next hx =>
        have hx : x ∉ m.map Prod.fst := Table.get?_eq_none_iff (t := ⟨m, hm⟩).1 hx
        refine ih _ (nodup_concat hm hx y) ?_
        rw [List.append_assoc]
        exact h
      · next y' hy =>
        have hxy : (x, y') ∈ m := Table.get?_eq_some_iff (t := ⟨m, hm⟩).1 hy
        have e : y' = y := h (x, y') (List.mem_append_left _ hxy) (x, y) (by simp) rfl
        rw [if_pos e]
        have sub : ∀ e ∈ m ++ rest, e ∈ m ++ (x, y) :: rest := by
          intro e he
          simp only [List.mem_append, List.mem_cons] at he ⊢
          exact he.imp id Or.inr
        exact ih m hm fun e he e' he' => h e (sub e he) e' (sub e' he')
  constructor
  · intro h e he e' he' hx
    obtain ⟨m, h⟩ := h
    obtain ⟨nd, hmem⟩ := mem_ofHeads (m := []) List.nodup_nil h
    have mem {e : String × String} (he : e ∈ l) : e ∈ m := (hmem e).2 (Or.inr he)
    have := (List.nodup_map_iff_inj_on nd.of_map).1 nd e (mem he) e' (mem he') hx
    rw [this]
  · intro h
    exact complete l [] List.nodup_nil h

end Renaming

variable {α : Type}

theorem align_eq_ok_iff {declared head : List String} {body aligned : Rule α} :
    align declared head body = .ok aligned ↔ (head = declared ∧ aligned = body) ∨
      (head ≠ declared ∧ head.length = declared.length ∧
        ∃ m, Renaming.ofHeads [] (head.zip declared) = .ok m ∧ (m.map Prod.snd).Nodup ∧
          aligned = body.map (Clause.rename (Renaming.addBody (m.map Prod.snd)
            (m.map Prod.snd ++ Rule.vars body) m (Rule.vars body)).apply)) := by
  unfold align
  by_cases e : head = declared
  · simp [e, eq_comm]
  · by_cases hl : head.length = declared.length
    · simp only [e, hl, if_false, not_true_eq_false, false_and, false_or, not_false_eq_true, true_and,
        bind_eq_ok_iff, ne_eq]
      refine exists_congr fun m => and_congr_right fun _ => ?_
      by_cases hm : (m.map Prod.snd).Nodup
      · simp [hm, pure, Except.pure, eq_comm]
      · simp [hm, throw, throwThe, MonadExceptOf.throw, bind, Except.bind]
    · simp [e, hl]

/-- **A rule can be aligned just if its head has the pattern of the declared one.** -/
theorem exists_align_iff {declared head : List String} {body : Rule α} :
    (∃ aligned, align declared head body = .ok aligned) ↔ SamePattern head declared := by
  constructor
  · intro h
    obtain ⟨aligned, h⟩ := h
    rcases align_eq_ok_iff.1 h with ⟨rfl, -⟩ | ⟨-, hl, m, hm, hvalues, -⟩
    · exact .refl head
    obtain ⟨nd, hmem⟩ := Renaming.mem_ofHeads (m := []) List.nodup_nil hm
    have hvalues := (List.nodup_map_iff_inj_on nd.of_map).1 hvalues
    have hfun := Renaming.exists_ofHeads_iff.1 ⟨m, hm⟩
    refine samePattern_iff_zip.2 ⟨hl, fun e he e' he' => ⟨hfun e he e' he', fun hy => ?_⟩⟩
    rw [hvalues e ((hmem e).2 (Or.inr he)) e' ((hmem e').2 (Or.inr he')) hy]
  · intro h
    by_cases e : head = declared
    · exact ⟨body, align_eq_ok_iff.2 (Or.inl ⟨e, rfl⟩)⟩
    obtain ⟨hl, h⟩ := samePattern_iff_zip.1 h
    obtain ⟨m, hm⟩ := Renaming.exists_ofHeads_iff.2 fun e he e' he' => (h e he e' he').1
    obtain ⟨nd, hmem⟩ := Renaming.mem_ofHeads (m := []) List.nodup_nil hm
    have mem {e : String × String} (he : e ∈ m) : e ∈ head.zip declared := by
      simpa using (hmem e).1 he
    have hvalues : (m.map Prod.snd).Nodup := by
      refine (List.nodup_map_iff_inj_on nd.of_map).2 fun e he e' he' hy => ?_
      exact Prod.ext ((h e (mem he) e' (mem he')).2 hy) hy
    exact ⟨_, align_eq_ok_iff.2 (Or.inr ⟨e, hl, m, hm, hvalues, rfl⟩)⟩

end Rule

end Verdict

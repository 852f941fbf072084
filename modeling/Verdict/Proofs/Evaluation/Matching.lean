import Verdict.Evaluation.Binding

/-!
# Matching

What `Binding.unify` computes, said without it. A *valuation* gives a term to some of the variables,
and it *maps* a pattern to a row when the pattern, read under it, is the row position by position.

> Matching a pattern against a row extends a binding by what the pattern's variables have to stand
> for, and by nothing else; it answers `none` exactly when no extension maps the pattern to the row.

`unify_matches` and `unify_of_maps` are the two halves. A foreign value stands for nothing, so a
pattern that holds one is mapped to no row.
-/

namespace Verdict

variable {α : Type}

/-- What some of the variables stand for. -/
abbrev Valuation (α : Type := Empty) := String → Option (Term α)

/-- What a term stands for. -/
def Term.under (v : Valuation α) : Term α → Option (Term α)
  | .var x => v x
  | .text s => some (.text s)
  | .truth b => some (.truth b)
  | .foreign _ => none

namespace Valuation

/-- Nothing is given to any variable. -/
def empty : Valuation α := fun _ => none

/-- Whatever `v` gives to a variable, `w` gives to it as well. -/
def Le (v w : Valuation α) : Prop := ∀ x t, v x = some t → w x = some t

/-- The pattern becomes the row. -/
def Maps (v : Valuation α) (pattern : List (Term α)) (row : Fact α) : Prop :=
  pattern.map (Term.under v) = row.map some

/-- `w` is the least extension of `v` that maps the pattern to the row: it gives terms to the variables
of the pattern and to those of `v`. -/
structure Matches (v : Valuation α) (pattern : List (Term α)) (row : Fact α) (w : Valuation α) :
    Prop where
  le : v.Le w
  maps : w.Maps pattern row
  least : ∀ x t, w x = some t → v x = some t ∨ .var x ∈ pattern

theorem Le.refl (v : Valuation α) : v.Le v := fun _ _ h => h

theorem Le.trans {u v w : Valuation α} (huv : u.Le v) (hvw : v.Le w) : u.Le w :=
  fun x t h => hvw x t (huv x t h)

theorem empty_le (v : Valuation α) : empty.Le v := fun _ _ h => nomatch h

/-! ## Maps -/

theorem maps_nil {v : Valuation α} {row : Fact α} : v.Maps [] row ↔ row = [] := by
  rw [Maps, List.map_nil, eq_comm, List.map_eq_nil_iff]

theorem maps_cons {v : Valuation α} {t : Term α} {pattern : List (Term α)} {row : Fact α} :
    v.Maps (t :: pattern) row ↔
      ∃ a rest, row = a :: rest ∧ t.under v = some a ∧ v.Maps pattern rest := by
  cases row with
  | nil => simp [Maps]
  | cons a rest =>
    simp only [Maps, List.map_cons, List.cons.injEq]
    constructor
    · intro h
      obtain ⟨ht, hp⟩ := h
      exact ⟨a, rest, ⟨rfl, rfl⟩, ht, hp⟩
    · intro h
      obtain ⟨_, _, ⟨rfl, rfl⟩, ht, hp⟩ := h
      exact ⟨ht, hp⟩

theorem Maps.length_eq {v : Valuation α} {pattern : List (Term α)} {row : Fact α}
    (h : v.Maps pattern row) : pattern.length = row.length := by
  have := congrArg List.length h
  simpa using this

/-- A mapped pattern has all its variables, and what they stand for stands in the row. -/
theorem Maps.exists_of_var {v : Valuation α} {pattern : List (Term α)} {row : Fact α} {x : String}
    (h : v.Maps pattern row) (hx : .var x ∈ pattern) : ∃ t ∈ row, v x = some t := by
  have hm : v x ∈ row.map some := h ▸ List.mem_map.2 ⟨.var x, hx, rfl⟩
  obtain ⟨t, ht, e⟩ := List.mem_map.1 hm
  exact ⟨t, ht, e.symm⟩

/-- Only the variables of the pattern matter. -/
theorem Maps.congr {v w : Valuation α} {pattern : List (Term α)} {row : Fact α}
    (hvw : ∀ x, .var x ∈ pattern → v x = w x) (h : v.Maps pattern row) : w.Maps pattern row := by
  have : pattern.map (Term.under w) = pattern.map (Term.under v) := by
    apply List.map_congr_left
    intro t ht
    cases t with
    | var x => exact (hvw x ht).symm
    | text _ => rfl
    | truth _ => rfl
    | foreign _ => rfl
  rw [Maps, this]
  exact h

theorem Maps.of_le {v w : Valuation α} {pattern : List (Term α)} {row : Fact α} (hle : v.Le w)
    (h : v.Maps pattern row) : w.Maps pattern row := by
  refine h.congr fun x hx => ?_
  obtain ⟨t, _, ht⟩ := h.exists_of_var hx
  rw [ht, hle x t ht]

/-! ## The least extension -/

/-- The least extension is below every other. -/
theorem Matches.le_of_maps {u v w : Valuation α} {pattern : List (Term α)} {row : Fact α}
    (h : u.Matches pattern row v) (hle : u.Le w) (hw : w.Maps pattern row) : v.Le w := by
  intro x t hx
  rcases h.least x t hx with hu | hp
  · exact hle x t hu
  · -- On a variable of the pattern both are fixed by the row.
    have key : ∀ (pattern : List (Term α)) (row : Fact α), v.Maps pattern row → w.Maps pattern row →
        .var x ∈ pattern → v x = w x := by
      intro pattern
      induction pattern with
      | nil => intro _ _ _ hm; cases hm
      | cons p ps ih =>
        intro row hv hw hm
        obtain ⟨a, rest, rfl, ha, hv⟩ := maps_cons.1 hv
        obtain ⟨_, _, e, hb, hw⟩ := maps_cons.1 hw
        cases e
        rcases List.mem_cons.1 hm with rfl | hm
        · exact ha.trans hb.symm
        · exact ih rest hv hw hm
    rw [← key pattern row h.maps hw hp, hx]

theorem Matches.unique {u v w : Valuation α} {pattern : List (Term α)} {row : Fact α}
    (hv : u.Matches pattern row v) (hw : u.Matches pattern row w) : v = w := by
  have hvw := hv.le_of_maps hw.le hw.maps
  have hwv := hw.le_of_maps hv.le hv.maps
  funext x
  cases h : v x with
  | some t => exact (hvw x t h).symm
  | none =>
    cases h' : w x with
    | none => rfl
    | some t => rw [hwv x t h'] at h; cases h

/-- Below each extension that maps the pattern there is a least one. -/
theorem exists_matches {v w : Valuation α} {pattern : List (Term α)} {row : Fact α} (hle : v.Le w)
    (hw : w.Maps pattern row) : ∃ u, v.Matches pattern row u ∧ u.Le w := by
  classical
  -- Take from `w` what the pattern needs, and no more.
  let u : Valuation α := fun x => if .var x ∈ pattern then w x else v x
  have on {x : String} (hx : .var x ∈ pattern) : u x = w x := if_pos hx
  have off {x : String} (hx : .var x ∉ pattern) : u x = v x := if_neg hx
  refine ⟨u, ⟨fun x t hx => ?_, hw.congr fun x hx => (on hx).symm, fun x t hx => ?_⟩, fun x t hx => ?_⟩
  · by_cases hp : .var x ∈ pattern
    · rw [on hp]
      exact hle x t hx
    · rw [off hp]
      exact hx
  · by_cases hp : .var x ∈ pattern
    · exact Or.inr hp
    · rw [off hp] at hx
      exact Or.inl hx
  · by_cases hp : .var x ∈ pattern
    · rw [on hp] at hx
      exact hx
    · rw [off hp] at hx
      exact hle x t hx

end Valuation

/-! ## What matching computes -/

namespace Binding

open Verdict.Valuation

variable [DecidableEq α]

omit [DecidableEq α] in
/-- Binding a variable that is not bound yet keeps what is bound. -/
theorem le_insert {b : Binding α} {x : String} {t : Term α} (h : b.get? x = none) :
    Le b.get? (b.insert x t).get? := by
  intro y s hy
  have ne : y ≠ x := by
    rintro rfl
    rw [h] at hy
    cases hy
  rw [Table.get?_insert_of_ne ne]
  exact hy

theorem unifyFrom_matches {b b' : Binding α} {pattern : List (Term α)} {row : Fact α}
    (hl : pattern.length = row.length) (h : b.unifyFrom pattern row = .ok (some b')) :
    Matches b.get? pattern row b'.get? := by
  -- A position that binds nothing adds its term to what the rest maps.
  have keep {b : Binding α} {t a : Term α} {pattern : List (Term α)} {row : Fact α}
      (ha : t.under b'.get? = some a) (m : Matches b.get? pattern row b'.get?) :
      Matches b.get? (t :: pattern) (a :: row) b'.get? :=
    ⟨m.le, maps_cons.2 ⟨a, row, rfl, ha, m.maps⟩,
      fun x s hx => (m.least x s hx).imp id (List.mem_cons_of_mem t)⟩
  fun_induction unifyFrom b pattern row with
  | case1 b pattern a row x hb ih =>
    have m := ih (by simpa using hl) h
    have hx : b'.get? x = some a := m.le x a (Table.get?_insert_self b x a)
    refine ⟨(le_insert hb).trans m.le, maps_cons.2 ⟨a, row, rfl, hx, m.maps⟩, fun y s hy => ?_⟩
    by_cases e : y = x
    · exact Or.inr (e ▸ List.mem_cons_self)
    · rcases m.least y s hy with hi | hp
      · rw [Table.get?_insert_of_ne e] at hi
        exact Or.inl hi
      · exact Or.inr (List.mem_cons_of_mem _ hp)
  | case2 b pattern row x bound hb ih =>
    have m := ih (by simpa using hl) h
    exact keep (m.le x bound hb) m
  | case3 => cases h
  | case4 => cases h
  | case5 b pattern row s ih =>
    rw [if_pos rfl] at h
    exact keep rfl (ih (by simpa using hl) h)
  | case6 b pattern row s v ne => rw [if_neg ne] at h; cases h
  | case7 b pattern row s ih =>
    rw [if_pos rfl] at h
    exact keep rfl (ih (by simpa using hl) h)
  | case8 b pattern row s v ne => rw [if_neg ne] at h; cases h
  | case9 pattern b row hne =>
    cases h
    -- Of two lists of one length that are not both nonempty, both are empty.
    cases pattern with
    | nil =>
      have : row = [] := List.length_eq_zero_iff.1 hl.symm
      exact ⟨Le.refl _, maps_nil.2 this, fun _ _ hx => Or.inl hx⟩
    | cons t pattern =>
      cases row with
      | nil => simp at hl
      | cons a row => exact (hne t pattern a row rfl rfl).elim

theorem unifyFrom_of_maps {b : Binding α} {w : Valuation α} {pattern : List (Term α)} {row : Fact α}
    (hle : Le b.get? w) (h : w.Maps pattern row) :
    ∃ b', b.unifyFrom pattern row = .ok (some b') := by
  induction pattern generalizing b row with
  | nil => exact ⟨b, by rw [unifyFrom]; simp⟩
  | cons t pattern ih =>
    obtain ⟨a, rest, rfl, ha, hp⟩ := maps_cons.1 h
    cases t with
    | var x =>
      cases hx : b.get? x with
      | none =>
        have hle' : Le (b.insert x a).get? w := by
          intro y s hy
          by_cases e : y = x
          · rw [e, Table.get?_insert_self] at hy
            cases hy
            exact e ▸ ha
          · rw [Table.get?_insert_of_ne e] at hy
            exact hle y s hy
        obtain ⟨b', hb'⟩ := ih hle' hp
        exact ⟨b', by simp only [unifyFrom, hx, hb']⟩
      | some bound =>
        have e : bound = a := by
          have := (hle x bound hx).symm.trans ha
          exact Option.some.inj this
        obtain ⟨b', hb'⟩ := ih hle hp
        exact ⟨b', by simp only [unifyFrom, hx, if_pos e, hb']⟩
    | text s =>
      cases ha
      obtain ⟨b', hb'⟩ := ih hle hp
      exact ⟨b', by simp only [unifyFrom, if_pos, hb']⟩
    | truth s =>
      cases ha
      obtain ⟨b', hb'⟩ := ih hle hp
      exact ⟨b', by simp only [unifyFrom, if_pos, hb']⟩
    | foreign s => cases ha

/-- **An answer is the least matching extension.** -/
theorem unify_matches {b b' : Binding α} {pattern : List (Term α)} {row : Fact α}
    (h : b.unify pattern row = .ok (some b')) : Matches b.get? pattern row b'.get? := by
  unfold unify at h
  split at h
  · next hl => exact unifyFrom_matches hl h
  · cases h

/-- **If some extension matches, there is an answer** — and no error, since a pattern that can be
mapped has the length of the row and holds no foreign value. -/
theorem unify_of_maps {b : Binding α} {w : Valuation α} {pattern : List (Term α)} {row : Fact α}
    (hle : Le b.get? w) (h : w.Maps pattern row) :
    ∃ b', b.unify pattern row = .ok (some b') ∧ Le b'.get? w := by
  obtain ⟨b', hb'⟩ := unifyFrom_of_maps hle h
  have hb' : b.unify pattern row = .ok (some b') := by rw [unify, if_pos h.length_eq, hb']
  exact ⟨b', hb', (unify_matches hb').le_of_maps hle h⟩

/-- The answer `none` means that no extension matches. -/
theorem not_maps_of_unify_none {b : Binding α} {w : Valuation α} {pattern : List (Term α)}
    {row : Fact α} (h : b.unify pattern row = .ok none) (hle : Le b.get? w) :
    ¬ w.Maps pattern row := by
  intro hw
  obtain ⟨b', hb', _⟩ := unify_of_maps hle hw
  rw [h] at hb'
  cases hb'

/-- The least matching extension is what is answered. -/
theorem unify_of_matches {b : Binding α} {w : Valuation α} {pattern : List (Term α)} {row : Fact α}
    (h : Matches b.get? pattern row w) :
    ∃ b', b.unify pattern row = .ok (some b') ∧ b'.get? = w := by
  obtain ⟨b', hb', _⟩ := unify_of_maps h.le h.maps
  exact ⟨b', hb', (unify_matches hb').unique h⟩

end Binding

end Verdict

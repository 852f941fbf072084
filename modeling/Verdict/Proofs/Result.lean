import Mathlib.Data.List.Forall2

/-!
# Computations that succeed

A row of steps succeeds exactly when each of them does, and fails with the error of the first that does
not. Proofs about what the library computes start from a success and take it apart with these, one step
at a time.

Two computations end *alike* (`Alike`) when they fail with the same error, or succeed with related
values. Rows of steps end alike if their steps do (`Alike.bind`).
-/

namespace Verdict

variable {ε β γ δ : Type}

theorem bind_eq_ok_iff {x : Except ε β} {f : β → Except ε γ} {c : γ} :
    (x >>= f) = .ok c ↔ ∃ b, x = .ok b ∧ f b = .ok c := by
  cases x with
  | error e =>
    constructor
    · intro h
      cases h
    · intro h
      obtain ⟨_, h, _⟩ := h
      cases h
  | ok b =>
    constructor
    · intro h
      exact ⟨b, rfl, h⟩
    · intro h
      obtain ⟨_, e, h⟩ := h
      cases e
      exact h

theorem bind_eq_error_iff {x : Except ε β} {f : β → Except ε γ} {e : ε} :
    (x >>= f) = .error e ↔ x = .error e ∨ ∃ b, x = .ok b ∧ f b = .error e := by
  cases x with
  | error e' => simp [bind, Except.bind]
  | ok b => simp [bind, Except.bind]

theorem pure_eq_ok_iff {b c : β} : (pure b : Except ε β) = .ok c ↔ b = c := by
  simp [pure, Except.pure]

/-- Two steps that do not depend on each other succeed together if each succeeds alone. -/
theorem exists_pair_eq_ok_iff {x : Except ε β} {y : Except ε γ} {f : β → γ → δ} :
    (∃ d, (x >>= fun b => y >>= fun c => pure (f b c)) = .ok d) ↔
      (∃ b, x = .ok b) ∧ ∃ c, y = .ok c := by
  constructor
  · intro h
    obtain ⟨_, h⟩ := h
    obtain ⟨b, hb, h⟩ := bind_eq_ok_iff.1 h
    obtain ⟨c, hc, -⟩ := bind_eq_ok_iff.1 h
    exact ⟨⟨b, hb⟩, c, hc⟩
  · intro h
    obtain ⟨⟨b, rfl⟩, c, rfl⟩ := h
    exact ⟨f b c, rfl⟩

theorem exists_map_eq_ok_iff {x : Except ε β} {f : β → γ} :
    (∃ c, (x >>= fun b => pure (f b)) = .ok c) ↔ ∃ b, x = .ok b := by
  cases x with
  | error e => simp [bind, Except.bind]
  | ok b => simp [bind, Except.bind, pure, Except.pure]

theorem map_eq_ok_iff {x : Except ε β} {f : β → γ} {c : γ} :
    x.map f = .ok c ↔ ∃ b, x = .ok b ∧ f b = c := by
  cases x with
  | error e => simp [Except.map]
  | ok b => simp [Except.map]

theorem map_eq_error_iff {x : Except ε β} {f : β → γ} {e : ε} : x.map f = .error e ↔ x = .error e := by
  cases x with
  | error e' => simp [Except.map]
  | ok b => simp [Except.map]

theorem mapError_eq_ok_iff {δ' : Type} {x : Except ε β} {f : ε → δ'} {b : β} :
    x.mapError f = .ok b ↔ x = .ok b := by
  cases x with
  | error e => simp [Except.mapError]
  | ok b' => simp [Except.mapError]

theorem mapError_eq_error_iff {δ' : Type} {x : Except ε β} {f : ε → δ'} {e : δ'} :
    x.mapError f = .error e ↔ ∃ e', x = .error e' ∧ f e' = e := by
  cases x with
  | error e' => simp [Except.mapError]
  | ok b => simp [Except.mapError]

/-! ## The same step for each item -/

theorem mapM_eq_some_iff {f : β → Option γ} {l : List β} {m : List γ} :
    l.mapM f = some m ↔ List.Forall₂ (fun b c => f b = some c) l m := by
  induction l generalizing m with
  | nil => rw [List.mapM_nil, Option.pure_def, Option.some.injEq, List.forall₂_nil_left_iff, eq_comm]
  | cons b l ih =>
    simp only [List.mapM_cons, Option.bind_eq_bind, Option.bind_eq_some_iff, Option.pure_def,
      Option.some.injEq, List.forall₂_cons_left_iff, ih]
    constructor
    · rintro ⟨c, hb, m', hl, rfl⟩
      exact ⟨c, m', hb, hl, rfl⟩
    · rintro ⟨c, m', hb, hl, rfl⟩
      exact ⟨c, hb, m', hl, rfl⟩

theorem mapM_eq_ok_iff {f : β → Except ε γ} {l : List β} {m : List γ} :
    l.mapM f = .ok m ↔ List.Forall₂ (fun b c => f b = .ok c) l m := by
  induction l generalizing m with
  | nil => rw [List.mapM_nil, pure_eq_ok_iff, List.forall₂_nil_left_iff, eq_comm]
  | cons b l ih =>
    simp only [List.mapM_cons, bind_eq_ok_iff, pure_eq_ok_iff, List.forall₂_cons_left_iff, ih]
    constructor
    · rintro ⟨c, hb, m', hl, rfl⟩
      exact ⟨c, m', hb, hl, rfl⟩
    · rintro ⟨c, m', hb, hl, rfl⟩
      exact ⟨c, hb, m', hl, rfl⟩

/-- The first item that fails decides with which error. -/
theorem mapM_eq_error_iff {f : β → Except ε γ} {l : List β} {e : ε} :
    l.mapM f = .error e ↔
      ∃ before b after, l = before ++ b :: after ∧ (∀ x ∈ before, ∃ c, f x = .ok c) ∧ f b = .error e := by
  induction l with
  | nil => simp [pure, Except.pure]
  | cons b l ih =>
    simp only [List.mapM_cons, bind_eq_error_iff, ih]
    constructor
    · rintro (hb | ⟨c, hc, ⟨before, b', after, rfl, hbefore, hb'⟩ | ⟨m, -, hm⟩⟩)
      · exact ⟨[], b, l, rfl, List.forall_mem_nil _, hb⟩
      · exact ⟨b :: before, b', after, rfl, List.forall_mem_cons.2 ⟨⟨c, hc⟩, hbefore⟩, hb'⟩
      · cases hm
    · rintro ⟨before, b', after, hl, hbefore, hb'⟩
      cases before with
      | nil =>
        cases hl
        exact Or.inl hb'
      | cons b'' before =>
        cases hl
        obtain ⟨⟨c, hc⟩, hbefore⟩ := List.forall_mem_cons.1 hbefore
        exact Or.inr ⟨c, hc, Or.inl ⟨before, b', after, rfl, hbefore, hb'⟩⟩

/-! ## Computations that end alike -/

/-- The same error, or related values. -/
inductive Alike (R : β → γ → Prop) : Except ε β → Except ε γ → Prop
  | ok {b : β} {c : γ} : R b c → Alike R (.ok b) (.ok c)
  | error (e : ε) : Alike R (.error e) (.error e)

theorem Alike.bind {R : β → γ → Prop} {β' γ' : Type} {S : β' → γ' → Prop} {x : Except ε β}
    {y : Except ε γ} {f : β → Except ε β'} {g : γ → Except ε γ'} (h : Alike R x y)
    (hfg : ∀ b c, R b c → Alike S (f b) (g c)) : Alike S (x >>= f) (y >>= g) := by
  cases h with
  | ok hbc => exact hfg _ _ hbc
  | error e => exact .error e

theorem Alike.eq {x y : Except ε β} (h : Alike Eq x y) : x = y := by
  cases h with
  | ok e => rw [e]
  | error e => rfl

end Verdict

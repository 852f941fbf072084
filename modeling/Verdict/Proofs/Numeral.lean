import Mathlib.Data.List.DropRight
import Mathlib.Data.List.Induction
import Mathlib.Data.Nat.Digits.Defs
import Verdict.Numeral
import Verdict.Proofs.Result

/-!
# What a numeral denotes

A numeral is read as the number that its digits denote in base ten, the last digit counting least. What
is refused is refused for one of two reasons, of which the length comes first (`read_cases`). A number
that is written in decimal digits is read back (`read_toDigits`).
-/

namespace Verdict.Numeral

open Text

variable {cs : List Char} {values : List Nat} {n : Nat} {e : NumeralError}

theorem ofValues_eq_ofDigits (values : List Nat) : ofValues values = Nat.ofDigits 10 values.reverse := by
  induction values using List.reverseRecOn with
  | nil => rfl
  | append_singleton values d ih =>
    rw [List.reverse_append, List.reverse_singleton, List.singleton_append, Nat.ofDigits_cons, ← ih]
    simp [ofValues, Nat.add_comm]

/-- The decimal digits at the start of a text. -/
def leading (cs : List Char) : List Char :=
  cs.takeWhile fun c => (decimalValue? c).isSome

/-- The text consists of decimal digits of these values. -/
def Digits (cs : List Char) (values : List Nat) : Prop :=
  List.Forall₂ (fun c d => decimalValue? c = some d) cs values

theorem Digits.isSome (h : Digits cs values) : ∀ c ∈ cs, (decimalValue? c).isSome := by
  induction h with
  | nil => exact List.forall_mem_nil _
  | cons hc _ ih => exact List.forall_mem_cons.2 ⟨by rw [hc, Option.isSome_some], ih⟩

theorem Digits.leading_eq (h : Digits cs values) : leading cs = cs :=
  List.takeWhile_eq_self_iff.2 h.isSome

theorem Digits.isDigit (h : Digits cs values) : ∀ c ∈ cs, isDigit c = true := by
  intro c hc
  rw [Text.isDigit, h.isSome c hc, Bool.true_or]

theorem exists_digits (h : ∀ c ∈ cs, decimalValue? c ≠ none) : ∃ values, Digits cs values := by
  induction cs with
  | nil => exact ⟨[], .nil⟩
  | cons c cs ih =>
    obtain ⟨hc, hcs⟩ := List.forall_mem_cons.1 h
    obtain ⟨d, hd⟩ := Option.ne_none_iff_exists'.1 hc
    obtain ⟨values, hvalues⟩ := ih hcs
    exact ⟨d :: values, .cons hd hvalues⟩

theorem read_of_long (h : maxDigits < (leading cs).length) :
    read cs = .error (.tooLong (leading cs).length) :=
  if_pos h

theorem read_of_short (h : (leading cs).length ≤ maxDigits) (hne : cs ≠ []) :
    read cs = match cs.mapM decimalValue? with
      | some values => .ok (ofValues values)
      | none => .error (.notDecimal (String.ofList cs)) := by
  obtain ⟨c, cs, rfl⟩ := List.exists_cons_of_ne_nil hne
  refine (if_neg (Nat.not_lt.2 h)).trans ?_
  cases List.mapM decimalValue? (c :: cs) with
  | none => rfl
  | some values => rfl

theorem read_of_digits (h : Digits cs values) (hne : cs ≠ []) (hlen : cs.length ≤ maxDigits) :
    read cs = .ok (Nat.ofDigits 10 values.reverse) := by
  have hshort : (leading cs).length ≤ maxDigits := by rwa [h.leading_eq]
  rw [read_of_short hshort hne, mapM_eq_some_iff.2 h, ← ofValues_eq_ofDigits]

theorem read_of_not_decimal (hlen : (leading cs).length ≤ maxDigits)
    (h : ∃ c ∈ cs, decimalValue? c = none) : read cs = .error (.notDecimal (String.ofList cs)) := by
  obtain ⟨c, hc, hnone⟩ := h
  rw [read_of_short hlen (List.ne_nil_of_mem hc)]
  cases hvalues : cs.mapM decimalValue? with
  | none => rfl
  | some values =>
    have hsome := Digits.isSome (mapM_eq_some_iff.1 hvalues) c hc
    rw [hnone] at hsome
    cases hsome

/-- **A text is a numeral, or there is one of two things wrong with it.** -/
theorem read_cases (hne : cs ≠ []) :
    (cs.length ≤ maxDigits ∧
      ∃ values, Digits cs values ∧ read cs = .ok (Nat.ofDigits 10 values.reverse)) ∨
      (maxDigits < (leading cs).length ∧ read cs = .error (.tooLong (leading cs).length)) ∨
      ((leading cs).length ≤ maxDigits ∧ (∃ c ∈ cs, decimalValue? c = none) ∧
        read cs = .error (.notDecimal (String.ofList cs))) := by
  by_cases hlen : maxDigits < (leading cs).length
  · exact Or.inr (Or.inl ⟨hlen, read_of_long hlen⟩)
  · rw [Nat.not_lt] at hlen
    by_cases hbad : ∃ c ∈ cs, decimalValue? c = none
    · exact Or.inr (Or.inr ⟨hlen, hbad, read_of_not_decimal hlen hbad⟩)
    · obtain ⟨values, hvalues⟩ := exists_digits fun c hc hnone => hbad ⟨c, hc, hnone⟩
      rw [hvalues.leading_eq] at hlen
      exact Or.inl ⟨hlen, values, hvalues, read_of_digits hvalues hne hlen⟩

/-! ## Numbers in decimal digits -/

theorem decimalValue?_of_isDigit {c : Char} (h : c.isDigit = true) :
    decimalValue? c = some (c.toNat - '0'.toNat) := by
  simp only [Char.isDigit, Bool.and_eq_true, decide_eq_true_eq, ge_iff_le, UInt32.le_iff_toNat_le] at h
  have hzero :
      decimalZeros.find? (fun first => first ≤ c.toNat && c.toNat < first + 10) = some 0x30 := by
    apply List.find?_cons_of_pos
    simp only [Bool.and_eq_true, decide_eq_true_eq]
    exact ⟨h.1, Nat.lt_succ_of_le h.2⟩
  rw [decimalValue?, hzero]
  rfl

theorem isDigit_of_mem_decimal {c : Char} (h : c ∈ Nat.toDigits 10 n) : c.isDigit = true :=
  Nat.isDigit_of_mem_toDigits (by decide) (by decide) h

theorem digits_toDigits (n : Nat) :
    Digits (Nat.toDigits 10 n) ((Nat.toDigits 10 n).map fun c => c.toNat - '0'.toNat) := by
  rw [Digits, List.forall₂_map_right_iff, List.forall₂_same]
  exact fun c hc => decimalValue?_of_isDigit (isDigit_of_mem_decimal hc)

/-- **What is written in decimal digits is read back.** -/
theorem read_toDigits (h : (Nat.toDigits 10 n).length ≤ maxDigits) :
    read (Nat.toDigits 10 n) = .ok n := by
  have hvalue := Nat.ofDigitChars_toDigits (b := 10) (n := n) (by decide) (by decide)
  rw [read_of_digits (digits_toDigits n) Nat.toDigits_ne_nil h, ← ofValues_eq_ofDigits, ofValues,
    List.foldl_map]
  exact congrArg Except.ok hvalue

end Verdict.Numeral

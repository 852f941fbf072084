/-!
# Terms

The vocabulary of programs: variables, and the constants of text and truth. There are no function
symbols, so a term has no parts.

A host may hand in values that are no terms at all. They live in the type parameter `α`, which is
empty unless a host says otherwise: over `Term` alone the case cannot arise, and a function on it may
leave the case out.
-/

namespace Verdict

/-- A term: a variable, a constant, or a foreign value in the place of one. -/
inductive Term (α : Type := Empty) where
  | var (name : String)
  | text (value : String)
  | truth (value : Bool)
  /-- A value that is no term. It equals no variable and no constant. -/
  | foreign (value : α)
deriving DecidableEq, Repr

/-- How foreign values are written. -/
class Foreign (α : Type) where
  /-- The value as plain text. -/
  plain : α → String
  /-- The value as a message shows it. -/
  shown : α → String

instance : Foreign Empty where
  plain := nofun
  shown := nofun

/-- A fact is a row of terms; in a well-made program they are constants. -/
abbrev Fact (α : Type := Empty) := List (Term α)

namespace Term

variable {α : Type}

/-- The name, if the term is a variable. -/
def var? : Term α → Option String
  | var name => some name
  | _ => none

/-- The value, if the term is foreign. -/
def foreign? : Term α → Option α
  | foreign value => some value
  | _ => none

/-- The word for a truth value. -/
def truthWord (value : Bool) : String :=
  if value then "true" else "false"

/-- The bare text of a term, without quotes: what identifies an item by its text goes by this. -/
def plain [Foreign α] : Term α → String
  | var name => name
  | text value => value
  | truth value => truthWord value
  | foreign value => Foreign.plain value

/-- A row is ground when no variable occurs in it. -/
def Ground (terms : List (Term α)) : Prop :=
  ∀ t ∈ terms, t.var? = none

instance (terms : List (Term α)) : Decidable (Ground terms) :=
  inferInstanceAs (Decidable (∀ t ∈ terms, t.var? = none))

/-- The variables of a row, in order of first occurrence. -/
def vars (terms : List (Term α)) : List String :=
  (terms.filterMap var?).eraseDups

theorem mem_vars {terms : List (Term α)} {x : String} :
    x ∈ vars terms ↔ .var x ∈ terms := by
  simp only [vars, List.mem_eraseDups, List.mem_filterMap]
  constructor
  · rintro ⟨t, ht, hx⟩
    cases t <;> cases hx
    exact ht
  · exact fun h => ⟨_, h, rfl⟩

theorem ground_iff {terms : List (Term α)} : Ground terms ↔ vars terms = [] := by
  rw [List.eq_nil_iff_forall_not_mem]
  constructor
  · intro h x hx
    cases h _ (mem_vars.1 hx)
  · intro h t ht
    cases t with
    | var x => exact absurd (mem_vars.2 ht) (h x)
    | text _ => rfl
    | truth _ => rfl
    | foreign _ => rfl

end Term

end Verdict

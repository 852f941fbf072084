import Verdict.Program.Term

/-!
# Relations

A relation is a finite set of facts that remembers the order in which they came in. Building one from
rows drops the later copies of a row (`mem_ofRows`: nothing else is lost).

Two comparisons matter and differ: equality, which sees the order, and `SameFacts`, which does not.
Evaluation settles by the second.
-/

namespace Verdict

variable {α : Type}

theorem nodup_eraseDups [BEq α] [LawfulBEq α] (l : List α) : l.eraseDups.Nodup := by
  -- The tail that `eraseDups` goes on with is a filtered one, hence induction on the length.
  induction h : l.length using Nat.strongRecOn generalizing l with
  | ind n ih =>
    cases l with
    | nil => simp
    | cons a as =>
      rw [List.eraseDups_cons, List.nodup_cons]
      refine ⟨by simp [List.mem_eraseDups], ih _ ?_ _ rfl⟩
      rw [← h, List.length_cons]
      exact Nat.lt_succ_of_le (List.length_filter_le _ _)

theorem eraseDups_of_nodup [BEq α] [LawfulBEq α] {l : List α} (h : l.Nodup) : l.eraseDups = l := by
  induction l with
  | nil => rfl
  | cons a as ih =>
    rw [List.nodup_cons] at h
    have keep : as.filter (fun b => !b == a) = as :=
      List.filter_eq_self.2 fun b hb => by
        have : b ≠ a := fun e => h.1 (e ▸ hb)
        simpa using this
    rw [List.eraseDups_cons, keep, ih h.2]

/-- A list without duplicates is no longer than one that holds all its items. -/
theorem length_le_of_nodup [BEq α] [LawfulBEq α] {l m : List α} (h : l.Nodup) (sub : ∀ a ∈ l, a ∈ m) :
    l.length ≤ m.length := by
  induction l generalizing m with
  | nil => exact Nat.zero_le _
  | cons a l ih =>
    rw [List.nodup_cons] at h
    have ha : a ∈ m := sub a (by simp)
    have := ih (m := m.erase a) h.2 fun b hb =>
      (List.mem_erase_of_ne fun (e : b = a) => h.1 (e ▸ hb)).2 (sub b (by simp [hb]))
    rw [List.length_erase_of_mem ha] at this
    have := List.length_pos_of_mem ha
    rw [List.length_cons]
    omega

/-- If it is not shorter either, it holds all items of the other. -/
theorem subset_of_nodup [BEq α] [LawfulBEq α] {l m : List α} (h : l.Nodup) (sub : ∀ a ∈ l, a ∈ m)
    (le : m.length ≤ l.length) : ∀ a ∈ m, a ∈ l := by
  intro a ha
  refine Classical.byContradiction fun hl => ?_
  -- Otherwise the list would also fit into what is left of the other without `a`.
  have := length_le_of_nodup (m := m.erase a) h fun b hb =>
    (List.mem_erase_of_ne fun (e : b = a) => hl (e ▸ hb)).2 (sub b hb)
  rw [List.length_erase_of_mem ha] at this
  have := List.length_pos_of_mem ha
  omega

/-- A set of facts in insertion order. -/
structure Relation (α : Type := Empty) where
  facts : List (Fact α)
  nodup : facts.Nodup
deriving DecidableEq

namespace Relation

instance : EmptyCollection (Relation α) := ⟨⟨[], List.nodup_nil⟩⟩

instance : Inhabited (Relation α) := ⟨∅⟩

instance : Membership (Fact α) (Relation α) where
  mem r f := f ∈ r.facts

theorem ext {r s : Relation α} (h : r.facts = s.facts) : r = s := by
  cases r; cases s; cases h; rfl

def size (r : Relation α) : Nat := r.facts.length

variable [DecidableEq α]

/-- The relation that holds the given rows, each at its first place. -/
def ofRows (rows : List (Fact α)) : Relation α where
  facts := rows.eraseDups
  nodup := nodup_eraseDups rows

@[simp] theorem mem_ofRows {rows : List (Fact α)} {f : Fact α} : f ∈ ofRows rows ↔ f ∈ rows :=
  List.mem_eraseDups

@[simp] theorem ofRows_facts (r : Relation α) : ofRows r.facts = r :=
  ext (eraseDups_of_nodup r.nodup)

/-- Adds a fact behind the others, unless it is there already. -/
def insert (r : Relation α) (f : Fact α) : Relation α :=
  if h : f ∈ r.facts then r
  else
    { facts := r.facts ++ [f]
      nodup := List.nodup_append.2
        ⟨r.nodup, by simp, fun _ ha _ hb e => h (List.mem_singleton.1 hb ▸ e ▸ ha)⟩ }

/-- Inserting rows one by one is the same as building the relation from all of them. -/
theorem insert_ofRows (rows : List (Fact α)) (f : Fact α) :
    (ofRows rows).insert f = ofRows (rows ++ [f]) := by
  apply ext
  have single : [f].eraseDups = [f] := by simp [List.eraseDups_cons]
  by_cases h : f ∈ rows
  · simp [insert, ofRows, List.mem_eraseDups, h, List.eraseDups_append, List.removeAll]
  · simp [insert, ofRows, List.mem_eraseDups, h, List.eraseDups_append, List.removeAll, single]

/-- Two relations hold the same facts, in whatever order. -/
def SameFacts (r s : Relation α) : Prop := ∀ f, f ∈ r ↔ f ∈ s

omit [DecidableEq α] in
theorem sameFacts_iff {r s : Relation α} :
    r.SameFacts s ↔ (∀ f ∈ r.facts, f ∈ s.facts) ∧ ∀ f ∈ s.facts, f ∈ r.facts :=
  ⟨fun h => ⟨fun f => (h f).1, fun f => (h f).2⟩, fun h f => ⟨h.1 f, h.2 f⟩⟩

omit [DecidableEq α] in
theorem SameFacts.of_eq {r s : Relation α} (h : r.facts = s.facts) : r.SameFacts s :=
  ext h ▸ fun _ => Iff.rfl

/-- Since no fact stands twice, it is enough to look for the facts of one in the other if there are
equally many. -/
theorem sameFacts_iff_size {r s : Relation α} :
    r.SameFacts s ↔ r.size = s.size ∧ ∀ f ∈ r.facts, f ∈ s.facts := by
  rw [sameFacts_iff]
  constructor
  · intro ⟨rs, sr⟩
    exact ⟨Nat.le_antisymm (length_le_of_nodup r.nodup rs) (length_le_of_nodup s.nodup sr), rs⟩
  · intro ⟨size, rs⟩
    exact ⟨rs, subset_of_nodup r.nodup rs (Nat.le_of_eq size.symm)⟩

instance (r s : Relation α) : Decidable (r.SameFacts s) :=
  -- Most often a relation is compared with one that was built the same way.
  if h : r.facts = s.facts then isTrue (.of_eq h)
  else decidable_of_iff _ sameFacts_iff_size.symm

end Relation

end Verdict

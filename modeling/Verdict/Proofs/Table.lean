import Mathlib.Data.List.Forall2
import Verdict.Table

/-!
# Building tables

The keys of a table are the places at which something is found, and its values are what is found
(`Table.mem_keys_iff`, `Table.mem_values_iff`). A table that is built from pairs with different keys
holds just these pairs, in their order (`Table.entries_ofList`); so a table is built again from its own
entries. Of two tables one behind the other, what is written at a new key goes into the second
(`Table.insert_of_append`). A table that is filtered has at a key what it had, if that is to be kept
(`Table.get?_filter`); a table that is restricted to some keys has there what it had, and follows what is
written at them (`Table.restrict_insert_of_mem`). When the values of a table are replaced, the keys stay
(`Table.get?_mapValues`). Two tables are aligned when they have the same keys in the same order and
related values; they stay so when related values are written (`Table.Aligned.insert`).
-/

namespace Verdict

namespace Table

variable {κ β : Type} [DecidableEq κ]

theorem place_append_of_not_mem {k : κ} {l : List (κ × β)} (h : k ∉ l.map Prod.fst) (v : β)
    (m : List (κ × β)) : place k v (l ++ m) = l ++ place k v m := by
  induction l with
  | nil => rfl
  | cons e rest ih =>
    obtain ⟨k', v'⟩ := e
    rw [List.map_cons, List.mem_cons, not_or] at h
    rw [List.cons_append, place, if_neg (Ne.symm h.1), ih h.2, List.cons_append]

theorem mem_keys_iff {t : Table κ β} {k : κ} : k ∈ t.keys ↔ (t.get? k).isSome := by
  rw [← not_iff_not, ← get?_eq_none_iff, Option.not_isSome_iff_eq_none]

theorem mem_values_iff {t : Table κ β} {v : β} : v ∈ t.values ↔ ∃ k, t.get? k = some v := by
  simp only [values, List.mem_map, Prod.exists, get?_eq_some_iff, exists_eq_right]

/-- Only the last value written at a key counts. -/
theorem insert_insert (t : Table κ β) (k : κ) (v w : β) : (t.insert k v).insert k w = t.insert k w := by
  have h (l : List (κ × β)) : place k w (place k v l) = place k w l := by
    induction l with
    | nil => simp [place]
    | cons e rest ih =>
      obtain ⟨k', v'⟩ := e
      by_cases hk : k' = k
      · simp [place, hk]
      · rw [place, if_neg hk, place, if_neg hk, ih, place, if_neg hk]
  exact ext (h t.entries)

/-- The entries after an insertion. -/
theorem mem_entries_insert {t : Table κ β} {k : κ} {v : β} {e : κ × β}
    (h : e ∈ (t.insert k v).entries) : e = (k, v) ∨ e ∈ t.entries := by
  obtain ⟨k', v'⟩ := e
  rw [← get?_eq_some_iff] at h
  by_cases hk : k' = k
  · subst hk
    rw [get?_insert_self] at h
    cases h
    exact Or.inl rfl
  · rw [get?_insert_of_ne hk] at h
    exact Or.inr (get?_eq_some_iff.1 h)

/-- A new key comes last. -/
theorem entries_insert_of_not_mem {t : Table κ β} {k : κ} (h : k ∉ t.keys) (v : β) :
    (t.insert k v).entries = t.entries ++ [(k, v)] := by
  have hplace := place_append_of_not_mem h v []
  rw [List.append_nil] at hplace
  exact hplace

/-- Entries with new keys come last, in their order. -/
theorem entries_insertAll {t : Table κ β} {l : List (κ × β)}
    (h : (t.keys ++ l.map Prod.fst).Nodup) : (t.insertAll l).entries = t.entries ++ l := by
  induction l generalizing t with
  | nil => exact (List.append_nil _).symm
  | cons e rest ih =>
    obtain ⟨k, v⟩ := e
    have hk : k ∉ t.keys := by
      intro hmem
      exact (List.nodup_append.1 h).2.2 k hmem k List.mem_cons_self rfl
    have hkeys : (t.insert k v).keys = t.keys ++ [k] := by rw [keys_insert, if_neg hk]
    have step : ((t.insert k v).insertAll rest).entries = (t.insert k v).entries ++ rest := by
      apply ih
      rw [hkeys, List.append_assoc]
      exact h
    show ((t.insert k v).insertAll rest).entries = _
    rw [step, entries_insert_of_not_mem hk, List.append_assoc]
    rfl

/-- **A table built from pairs with different keys holds these pairs in their order.** -/
theorem entries_ofList {l : List (κ × β)} (h : (l.map Prod.fst).Nodup) : (ofList l).entries = l :=
  entries_insertAll h

theorem ofList_entries (t : Table κ β) : ofList t.entries = t :=
  ext (entries_ofList t.nodup_keys)

/-- What such a table has at a key. -/
theorem get?_ofList_iff {l : List (κ × β)} (h : (l.map Prod.fst).Nodup) {k : κ} {v : β} :
    (ofList l).get? k = some v ↔ (k, v) ∈ l := by
  rw [get?_eq_some_iff, entries_ofList h]

section Append

variable {t u both : Table κ β} {k : κ}

/-- Of two tables one behind the other, the first decides only about its own keys. -/
theorem get?_of_append (h : both.entries = t.entries ++ u.entries) (hk : k ∉ t.keys) :
    both.get? k = u.get? k := by
  have hnone : t.entries.lookup k = none := get?_eq_none_iff.2 hk
  rw [get?, get?, h, List.lookup_append, hnone, Option.none_or]

theorem insert_of_append (h : both.entries = t.entries ++ u.entries) (hk : k ∉ t.keys) (v : β) :
    (both.insert k v).entries = t.entries ++ (u.insert k v).entries := by
  show place k v both.entries = _
  rw [h, place_append_of_not_mem hk]
  rfl

end Append

/-- The table with only those of its values that are to be kept. -/
def filter (keep : β → Bool) (t : Table κ β) : Table κ β where
  entries := t.entries.filter fun e => keep e.2
  nodup_keys := (List.filter_sublist.map Prod.fst).nodup t.nodup_keys

theorem get?_filter (keep : β → Bool) (t : Table κ β) (k : κ) :
    (t.filter keep).get? k = (t.get? k).filter keep := by
  refine Option.ext fun v => ?_
  rw [get?_eq_some_iff, Option.filter_eq_some_iff, get?_eq_some_iff]
  simp [filter]

/-- The table with only those of its keys that are to be kept. -/
def restrict (keep : κ → Prop) [DecidablePred keep] (t : Table κ β) : Table κ β where
  entries := t.entries.filter fun e => keep e.1
  nodup_keys := (List.filter_sublist.map Prod.fst).nodup t.nodup_keys

section Restrict

variable {keep : κ → Prop} [DecidablePred keep] {k : κ}

theorem get?_restrict_of_mem (hk : keep k) (t : Table κ β) : (t.restrict keep).get? k = t.get? k := by
  refine Option.ext fun v => ?_
  rw [get?_eq_some_iff, get?_eq_some_iff]
  simp [restrict, hk]

theorem restrict_insert_of_mem (hk : keep k) (t : Table κ β) (v : β) :
    (t.insert k v).restrict keep = (t.restrict keep).insert k v := by
  have h (l : List (κ × β)) : (place k v l).filter (fun e => keep e.1) =
      place k v (l.filter fun e => keep e.1) := by
    induction l with
    | nil => simp [place, hk]
    | cons e rest ih =>
      obtain ⟨k', v'⟩ := e
      by_cases he : k' = k
      · subst he
        simp [place, hk]
      · by_cases hk' : keep k'
        · simp [place, he, hk', ih]
        · simp [place, he, hk', ih]
  exact ext (h t.entries)

theorem restrict_insert_of_not_mem (hk : ¬ keep k) (t : Table κ β) (v : β) :
    (t.insert k v).restrict keep = t.restrict keep := by
  have h (l : List (κ × β)) : (place k v l).filter (fun e => keep e.1) =
      l.filter fun e => keep e.1 := by
    induction l with
    | nil => simp [place, hk]
    | cons e rest ih =>
      obtain ⟨k', v'⟩ := e
      by_cases he : k' = k
      · subst he
        simp [place, hk]
      · rw [place, if_neg he, List.filter_cons, List.filter_cons, ih]
  exact ext (h t.entries)

end Restrict

/-- The table with each value replaced, under its key. -/
def mapValues {γ : Type} (g : κ → β → γ) (t : Table κ β) : Table κ γ where
  entries := t.entries.map fun e => (e.1, g e.1 e.2)
  nodup_keys := by
    rw [List.map_map]
    exact t.nodup_keys

theorem get?_mapValues {γ : Type} (g : κ → β → γ) (t : Table κ β) (k : κ) :
    (t.mapValues g).get? k = (t.get? k).map (g k) := by
  have h (l : List (κ × β)) :
      (l.map fun e => (e.1, g e.1 e.2)).lookup k = (l.lookup k).map (g k) := by
    induction l with
    | nil => rfl
    | cons e rest ih =>
      obtain ⟨k', v⟩ := e
      rw [List.map_cons, List.lookup_cons, List.lookup_cons]
      by_cases hk : k = k'
      · subst hk
        simp
      · rw [beq_false_of_ne hk]
        exact ih
  exact h t.entries

/-- The entries have one key and related values. -/
def EntryRel {γ : Type} (R : β → γ → Prop) (e : κ × β) (e' : κ × γ) : Prop :=
  e.1 = e'.1 ∧ R e.2 e'.2

/-- The same keys in the same order, with related values. -/
def Aligned {γ : Type} (R : β → γ → Prop) (t : Table κ β) (u : Table κ γ) : Prop :=
  List.Forall₂ (EntryRel R) t.entries u.entries

section Aligned

variable {γ : Type} {R : β → γ → Prop} {t : Table κ β} {u : Table κ γ}

/-- At each key both tables have a value, and the values are related, or neither has one. -/
theorem Aligned.get? (h : t.Aligned R u) (k : κ) : Option.Rel R (t.get? k) (u.get? k) := by
  have key {l : List (κ × β)} {m : List (κ × γ)}
      (h : List.Forall₂ (EntryRel R) l m) :
      Option.Rel R (l.lookup k) (m.lookup k) := by
    induction h with
    | nil => exact .none
    | @cons e e' _ _ he _ ih =>
      obtain ⟨k', v⟩ := e
      obtain ⟨k'', w⟩ := e'
      obtain ⟨rfl, hv⟩ := he
      by_cases hk : k = k'
      · subst hk
        rw [List.lookup_cons_self, List.lookup_cons_self]
        exact .some hv
      · rw [List.lookup_cons, List.lookup_cons, beq_false_of_ne hk]
        exact ih
  exact key h

theorem Aligned.insert (h : t.Aligned R u) (k : κ) {v : β} {w : γ} (hv : R v w) :
    (t.insert k v).Aligned R (u.insert k w) := by
  have key {l : List (κ × β)} {m : List (κ × γ)}
      (h : List.Forall₂ (EntryRel R) l m) :
      List.Forall₂ (EntryRel R) (place k v l) (place k w m) := by
    induction h with
    | nil => exact .cons ⟨rfl, hv⟩ .nil
    | @cons e e' _ _ he hrest ih =>
      obtain ⟨k', v'⟩ := e
      obtain ⟨k'', w'⟩ := e'
      obtain ⟨rfl, he⟩ := he
      by_cases hk : k' = k
      · rw [place, place, if_pos hk, if_pos hk]
        exact .cons ⟨rfl, hv⟩ hrest
      · rw [place, place, if_neg hk, if_neg hk]
        exact .cons ⟨rfl, he⟩ ih
  exact key h

end Aligned

end Table

end Verdict

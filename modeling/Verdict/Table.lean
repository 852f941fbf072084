/-!
# Tables in insertion order

A `Table κ β` maps keys to values and remembers the order in which the keys came in. Writing to a key
that is already there keeps its place. Programs, stores and bindings are tables, because the order of
declaration decides the order of evaluation and of everything that is printed.

The view of a table is `get?` together with `keys`; the lemmas below say what `insert` does to each.
-/

namespace Verdict

/-- A finite map that keeps its keys in the order in which they were first inserted. -/
structure Table (κ : Type) (β : Type) where
  entries : List (κ × β)
  nodup_keys : (entries.map Prod.fst).Nodup
deriving DecidableEq

namespace Table

variable {κ β : Type}

instance : EmptyCollection (Table κ β) := ⟨⟨[], List.nodup_nil⟩⟩

instance : Inhabited (Table κ β) := ⟨∅⟩

theorem ext {t u : Table κ β} (h : t.entries = u.entries) : t = u := by
  cases t; cases u; cases h; rfl

/-- The keys, in order. -/
def keys (t : Table κ β) : List κ := t.entries.map Prod.fst

/-- The values, in the order of their keys. -/
def values (t : Table κ β) : List β := t.entries.map Prod.snd

def size (t : Table κ β) : Nat := t.entries.length

theorem nodup (t : Table κ β) : t.keys.Nodup := t.nodup_keys

variable [DecidableEq κ]

/-- The value at a key. -/
def get? (t : Table κ β) (k : κ) : Option β := t.entries.lookup k

/-- Whether the table has the key. -/
def contains (t : Table κ β) (k : κ) : Bool := (t.get? k).isSome

/-- Writes `v` at `k`: in the key's place if it has one, and behind all others if not. -/
def place (k : κ) (v : β) : List (κ × β) → List (κ × β)
  | [] => [(k, v)]
  | (k', v') :: rest => if k' = k then (k, v) :: rest else (k', v') :: place k v rest

theorem map_fst_place (k : κ) (v : β) (l : List (κ × β)) :
    (place k v l).map Prod.fst =
      if k ∈ l.map Prod.fst then l.map Prod.fst else l.map Prod.fst ++ [k] := by
  induction l with
  | nil => simp [place]
  | cons e rest ih =>
    obtain ⟨k', v'⟩ := e
    by_cases h : k' = k
    · simp [place, h]
    -- Elsewhere the head stays, and the key is new to the whole exactly when it is new to the rest.
    · have h' : k ≠ k' := Ne.symm h
      simp only [place, if_neg h, List.map_cons, ih, List.mem_cons, h', false_or]
      split <;> simp

/-- Writes a value at a key. A key that is already there keeps its place. -/
def insert (t : Table κ β) (k : κ) (v : β) : Table κ β where
  entries := place k v t.entries
  nodup_keys := by
    rw [map_fst_place]
    split
    · exact t.nodup_keys
    · next h =>
      exact List.nodup_append.2 ⟨t.nodup_keys, by simp,
        fun _ ha _ hb e => h (List.mem_singleton.1 hb ▸ e ▸ ha)⟩

/-- Inserts the pairs one after another; of two with one key the later value wins, at the place of
the first. -/
def insertAll (t : Table κ β) (l : List (κ × β)) : Table κ β :=
  l.foldl (fun t (k, v) => t.insert k v) t

/-- The table of a list of pairs, inserted from left to right. -/
def ofList (l : List (κ × β)) : Table κ β := insertAll ∅ l

@[simp] theorem get?_empty (k : κ) : (∅ : Table κ β).get? k = none := rfl

omit [DecidableEq κ] in
@[simp] theorem keys_empty : (∅ : Table κ β).keys = [] := rfl

theorem keys_insert (t : Table κ β) (k : κ) (v : β) :
    (t.insert k v).keys = if k ∈ t.keys then t.keys else t.keys ++ [k] :=
  map_fst_place k v t.entries

@[simp] theorem get?_insert_self (t : Table κ β) (k : κ) (v : β) :
    (t.insert k v).get? k = some v := by
  have h (l : List (κ × β)) : (place k v l).lookup k = some v := by
    induction l with
    | nil => simp [place]
    | cons e rest ih =>
      obtain ⟨k', v'⟩ := e
      by_cases h : k' = k
      · simp [place, h]
      · rw [place, if_neg h, List.lookup_cons, beq_false_of_ne (Ne.symm h)]
        exact ih
  exact h t.entries

theorem get?_insert_of_ne {t : Table κ β} {k k' : κ} (ne : k' ≠ k) (v : β) :
    (t.insert k v).get? k' = t.get? k' := by
  have h (l : List (κ × β)) : (place k v l).lookup k' = l.lookup k' := by
    induction l with
    | nil => rw [place, List.lookup_cons, beq_false_of_ne ne]
    | cons e rest ih =>
      obtain ⟨k'', v''⟩ := e
      by_cases h : k'' = k
      · subst h
        rw [place, if_pos rfl, List.lookup_cons, List.lookup_cons, beq_false_of_ne ne]
      · rw [place, if_neg h, List.lookup_cons, List.lookup_cons, ih]
  exact h t.entries

theorem get?_eq_some_iff {t : Table κ β} {k : κ} {v : β} :
    t.get? k = some v ↔ (k, v) ∈ t.entries := by
  have h (l : List (κ × β)) (nd : (l.map Prod.fst).Nodup) :
      l.lookup k = some v ↔ (k, v) ∈ l := by
    induction l with
    | nil => simp
    | cons e rest ih =>
      obtain ⟨k', v'⟩ := e
      rw [List.map_cons, List.nodup_cons] at nd
      by_cases h : k = k'
      · subst h
        have : (k, v) ∉ rest := fun m => nd.1 (List.mem_map.2 ⟨_, m, rfl⟩)
        simp [this, eq_comm]
      · rw [List.lookup_cons, beq_false_of_ne h, List.mem_cons]
        simp [ih nd.2, h]
  exact h t.entries t.nodup_keys

theorem get?_eq_none_iff {t : Table κ β} {k : κ} : t.get? k = none ↔ k ∉ t.keys := by
  constructor
  · intro h hk
    obtain ⟨⟨_, v⟩, m, rfl⟩ := List.mem_map.1 hk
    rw [get?_eq_some_iff.2 m] at h
    cases h
  · intro h
    cases hv : t.get? k with
    | none => rfl
    | some v => exact absurd (List.mem_map.2 ⟨_, get?_eq_some_iff.1 hv, rfl⟩) h

/-- Equality as maps: the same keys, in whatever order, with the same values. -/
def SameMap (t u : Table κ β) : Prop := ∀ k, t.get? k = u.get? k

/-- Each entry of one table is an entry of the other: a comparison that ends, with the meaning of
`SameMap`. -/
theorem sameMap_iff {t u : Table κ β} :
    t.SameMap u ↔ (∀ e ∈ t.entries, u.get? e.1 = some e.2) ∧ ∀ e ∈ u.entries, t.get? e.1 = some e.2 := by
  constructor
  · intro h
    exact ⟨fun e he => (h e.1).symm.trans (get?_eq_some_iff.2 he),
      fun e he => (h e.1).trans (get?_eq_some_iff.2 he)⟩
  · rintro ⟨htu, hut⟩ k
    cases ht : t.get? k with
    | some v => exact (htu (k, v) (get?_eq_some_iff.1 ht)).symm
    | none =>
      cases hu : u.get? k with
      | none => rfl
      | some v => rw [hut (k, v) (get?_eq_some_iff.1 hu)] at ht; cases ht

instance [DecidableEq β] (t u : Table κ β) : Decidable (t.SameMap u) :=
  decidable_of_iff _ sameMap_iff.symm

end Table

end Verdict

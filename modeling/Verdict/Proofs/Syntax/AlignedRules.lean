import Verdict.Proofs.Evaluation.Renaming
import Verdict.Proofs.Syntax.Alignment

/-!
# Aligned rules derive what they did

Rules are renamed to the declared head so that all rules of a predicate can be read off one head. None of
this changes what is derived.

> A rule whose head has the pattern of the declared one is renamed, one to one, to a rule that derives the
> same facts in the same order from the declared head (`Rule.align_preserves`).

A new name comes from the declared head, from a number behind the old name, or it is the old name itself.
Two new names of one kind differ for the reason of that kind; two of different kinds, because a number is
chosen against every name in use and an old name only stays if the head has not taken it. While the body
is gone through, the renaming is kept `Separate`.
-/

namespace Verdict

namespace Rule

namespace Renaming

variable {m : Renaming} {taken used vars : List String}

/-! ## Fresh names -/

theorem numbered_injective (x : String) : Function.Injective fun n : Nat => s!"{x}_{n}" := by
  intro n n' h
  have h : x ++ "_" ++ toString n = x ++ "_" ++ toString n' := h
  have hdigits : Nat.toDigits 10 n = Nat.toDigits 10 n' :=
    String.ofList_injective ((String.append_right_inj _).1 h)
  have hvalue := congrArg (fun l => Nat.ofDigitChars 10 l 0) hdigits
  simpa [Nat.ofDigitChars_toDigits] using hvalue

/-- The search ends, and at the first number that gives a name not in use: there are too many candidates
for all of them to be taken. -/
theorem exists_fresh (used : List String) (x : String) :
    ∃ n, 0 < n ∧ fresh used x = s!"{x}_{n}" ∧ fresh used x ∉ used ∧
      ∀ k, 0 < k → k < n → s!"{x}_{k}" ∈ used := by
  unfold fresh
  dsimp only
  rw [List.find?_map]
  cases hfind : List.find? _ _ with
  | none =>
    have htaken : ∀ y ∈ (List.range' 1 (used.length + 1)).map fun n => s!"{x}_{n}", y ∈ used := by
      intro y hy
      obtain ⟨n, hn, rfl⟩ := List.mem_map.1 hy
      simpa using List.find?_eq_none.1 hfind n hn
    have hle := length_le_of_nodup (.map (numbered_injective x) List.nodup_range') htaken
    rw [List.length_map, List.length_range'] at hle
    omega
  | some n =>
    obtain ⟨hn, hmem, hbefore⟩ := List.find?_range'_eq_some.1 hfind
    refine ⟨n, (List.mem_range'_1.1 hmem).1, rfl, by simpa using hn, fun k hk hkn => ?_⟩
    simpa using hbefore k hk hkn

/-! ## Separate names -/

/-- No two variables have one new name. All new names are in use, and a variable of the body that is the
new name of another is one of the head's. -/
structure Separate (taken used vars : List String) (m : Renaming) : Prop where
  keys : (m.map Prod.fst).Nodup
  values : (m.map Prod.snd).Nodup
  inUse : ∀ e ∈ m, e.2 ∈ used
  own : ∀ e ∈ m, e.2 ∈ vars → e.2 ∈ taken ∨ e.2 = e.1

theorem apply_of_mem (hm : (m.map Prod.fst).Nodup) {x y : String} (h : (x, y) ∈ m) :
    m.apply x = y := by
  have hget : m.lookup x = some y := Table.get?_eq_some_iff (t := ⟨m, hm⟩).2 h
  rw [apply, hget, Option.getD_some]

theorem map_apply_zip (hm : (m.map Prod.fst).Nodup) {xs ys : List String} (hl : xs.length = ys.length)
    (h : ∀ e ∈ xs.zip ys, e ∈ m) : xs.map m.apply = ys :=
  calc xs.map m.apply = (xs.zip ys).map (m.apply ∘ Prod.fst) := by
        rw [← List.map_map, List.map_fst_zip hl.le]
    _ = (xs.zip ys).map Prod.snd := List.map_congr_left fun e he => apply_of_mem hm (h e he)
    _ = ys := List.map_snd_zip hl.ge

namespace Separate

/-- Different variables have different names. -/
theorem injOn (h : Separate taken used vars m) : {x | x ∈ m.map Prod.fst}.InjOn m.apply := by
  intro x hx x' hx' he
  obtain ⟨⟨_, y⟩, hxy, rfl⟩ := List.mem_map.1 hx
  obtain ⟨⟨_, y'⟩, hxy', rfl⟩ := List.mem_map.1 hx'
  rw [apply_of_mem h.keys hxy, apply_of_mem h.keys hxy'] at he
  exact congrArg Prod.fst (List.inj_on_of_nodup_map h.values hxy hxy' he)

theorem concat (h : Separate taken used vars m) {x y : String} (hx : x ∉ m.map Prod.fst)
    (hy : y ∉ m.map Prod.snd) (hused : y ∈ used) (hown : y ∈ vars → y ∈ taken ∨ y = x) :
    Separate taken used vars (m ++ [(x, y)]) where
  keys := nodup_concat h.keys hx y
  values := by
    rw [List.map_append]
    refine h.values.append (List.nodup_singleton y) ?_
    simpa using hy
  inUse := List.forall_mem_append.2 ⟨h.inUse, List.forall_mem_singleton.2 hused⟩
  own := List.forall_mem_append.2 ⟨h.own, List.forall_mem_singleton.2 hown⟩

/-- More names may be in use. -/
theorem mono (h : Separate taken used vars m) {used' : List String} (hle : used ⊆ used') :
    Separate taken used' vars m :=
  { h with inUse := fun e he => hle (h.inUse e he) }

theorem addFresh (h : Separate taken used vars m) (hvars : vars ⊆ used) {x : String}
    (hx : x ∉ m.map Prod.fst) :
    Separate taken (fresh used x :: used) vars (m ++ [(x, fresh used x)]) := by
  obtain ⟨n, -, -, hfresh, -⟩ := exists_fresh used x
  refine (h.mono (List.subset_cons_self _ used)).concat hx ?_ List.mem_cons_self ?_
  · intro hmem
    obtain ⟨e, he, hey⟩ := List.mem_map.1 hmem
    exact hfresh (hey ▸ h.inUse e he)
  · intro hmem
    exact absurd (hvars hmem) hfresh

/-- A name that the head has not taken is left to its variable. -/
theorem addSame (h : Separate taken used vars m) (hvars : vars ⊆ used) {x : String}
    (hx : x ∉ m.map Prod.fst) (hmem : x ∈ vars) (hfree : x ∉ taken) :
    Separate taken used vars (m ++ [(x, x)]) := by
  refine h.concat hx ?_ (hvars hmem) fun _ => Or.inr rfl
  intro hval
  obtain ⟨e, he, rfl⟩ := List.mem_map.1 hval
  rcases h.own e he hmem with htaken | hkey
  · exact hfree htaken
  · exact hx (hkey ▸ List.mem_map_of_mem he)

end Separate

/-- What going through the variables `xs` makes of a renaming: it stays separate, it keeps what it had,
and all the variables have a name. -/
structure Completes (taken vars xs : List String) (m m' : Renaming) : Prop where
  separate : ∃ used, Separate taken used vars m'
  keeps : m ⊆ m'
  names : xs ⊆ m'.map Prod.fst

theorem Completes.cons {x y : String} {xs : List String} {m' : Renaming}
    (h : Completes taken vars xs (m ++ [(x, y)]) m') : Completes taken vars (x :: xs) m m' := by
  obtain ⟨hkeep, hxy⟩ := List.append_subset.1 h.keeps
  exact ⟨h.separate, hkeep,
    List.cons_subset.2 ⟨List.mem_map_of_mem (hxy (List.mem_singleton_self (x, y))), h.names⟩⟩

theorem Separate.completes (h : Separate taken used vars m) (hvars : vars ⊆ used) {xs : List String}
    (hxs : xs ⊆ vars) : Completes taken vars xs m (addBody taken used m xs) := by
  induction xs generalizing used m with
  | nil => exact ⟨⟨used, h⟩, List.Subset.refl m, List.nil_subset _⟩
  | cons x xs ih =>
    obtain ⟨hx, hxs⟩ := List.cons_subset.1 hxs
    unfold addBody
    split
    -- The head has named the variable already.
    · next hsome =>
      obtain ⟨y, hy⟩ := Option.isSome_iff_exists.1 hsome
      have hxy : (x, y) ∈ m := Table.get?_eq_some_iff (t := ⟨m, h.keys⟩).1 hy
      have hrest := ih h hvars hxs
      exact { hrest with
        names := List.cons_subset.2 ⟨List.mem_map_of_mem (hrest.keeps hxy), hrest.names⟩ }
    · next hnone =>
      rw [Option.not_isSome_iff_eq_none] at hnone
      have hnew : x ∉ m.map Prod.fst := Table.get?_eq_none_iff (t := ⟨m, h.keys⟩).1 hnone
      split
      · have hvars' : vars ⊆ fresh used x :: used := fun z hz => List.mem_cons_of_mem _ (hvars hz)
        exact (ih (h.addFresh hvars hnew) hvars' hxs).cons
      · next hfree => exact (ih (h.addSame hvars hnew hx hfree) hvars hxs).cons

end Renaming

variable {α : Type}

/-! ## The renaming of a rule -/

theorem map_rename_id (body : Rule α) : body.map (Clause.rename id) = body := by
  have hterm : Term.rename id = (id : Term α → Term α) := by
    funext t
    cases t <;> rfl
  have hclause : Clause.rename id = (id : Clause α → Clause α) := by
    funext c
    rw [Clause.rename, hterm, List.map_id]
    rfl
  rw [hclause, List.map_id]

/-- **A rule is renamed one to one**, and its head becomes the declared one, position by position. -/
theorem exists_renaming {declared head : List String} {body aligned : Rule α}
    (h : align declared head body = .ok aligned) :
    ∃ f, {x | x ∈ head ∨ x ∈ vars body}.InjOn f ∧ head.map f = declared ∧
      aligned = body.map (Clause.rename f) := by
  rcases align_eq_ok_iff.1 h with ⟨rfl, rfl⟩ | ⟨-, hl, m, hm, hvalues, rfl⟩
  · exact ⟨id, Set.injOn_id _, List.map_id head, (map_rename_id aligned).symm⟩
  obtain ⟨hkeys, hmem⟩ := Renaming.mem_ofHeads (m := []) List.nodup_nil hm
  have hstart : Renaming.Separate (m.map Prod.snd) (m.map Prod.snd ++ vars body) (vars body) m :=
    { keys := hkeys
      values := hvalues
      inUse := fun e he => List.mem_append_left _ (List.mem_map_of_mem he)
      own := fun e he _ => Or.inl (List.mem_map_of_mem he) }
  obtain ⟨⟨used, hsep⟩, hkeep, hnamed⟩ :=
    hstart.completes (List.subset_append_right _ _) (List.Subset.refl _)
  have hpairs : ∀ e ∈ head.zip declared, e ∈ Renaming.addBody (m.map Prod.snd)
      (m.map Prod.snd ++ vars body) m (vars body) := fun e he => hkeep ((hmem e).2 (Or.inr he))
  refine ⟨_, hsep.injOn.mono ?_, Renaming.map_apply_zip hsep.keys hl hpairs, rfl⟩
  intro x hx
  rcases hx with hx | hx
  · rw [← List.map_fst_zip hl.le] at hx
    obtain ⟨e, he, rfl⟩ := List.mem_map.1 hx
    exact List.mem_map_of_mem (hpairs e he)
  · exact hnamed hx

/-- **Alignment preserves meaning.** A rule can be aligned just if its head repeats its variables where
the declared head does; then it is renamed one to one, its head becomes the declared head, and over any
program and store it derives the same facts in the same order, or fails with the same error. The search
for a fresh name always ends with the first one that is free. -/
theorem align_preserves [DecidableEq α] (declared head : List String) (body : Rule α) :
    ((∃ aligned, align declared head body = .ok aligned) ↔ SamePattern head declared) ∧
      (∀ aligned, align declared head body = .ok aligned →
        ∃ f, {x | x ∈ head ∨ x ∈ vars body}.InjOn f ∧ head.map f = declared ∧
          aligned = body.map (Clause.rename f) ∧
          ∀ (p : Program α) (store : Store α),
            p.deriveRule store declared aligned = p.deriveRule store head body) ∧
      ∀ used x, ∃ n, 0 < n ∧ Renaming.fresh used x = s!"{x}_{n}" ∧
        Renaming.fresh used x ∉ used ∧ ∀ k, 0 < k → k < n → s!"{x}_{k}" ∈ used := by
  refine ⟨exists_align_iff, fun aligned h => ?_, Renaming.exists_fresh⟩
  obtain ⟨f, hf, rfl, rfl⟩ := exists_renaming h
  refine ⟨f, hf, rfl, rfl, fun p store => Program.deriveRule_rename hf (fun x => Or.inl) ?_⟩
  exact fun c hc x hx => Or.inr (mem_vars.2 ⟨c, hc, hx⟩)

/-- A way through the links that are not shut. It has a variable of the name that the declared head gives
to another, and one of the name that would be the next choice for it. -/
def detour : Rule :=
  [⟨"link", [.var "Y", .var "X"], false⟩, ⟨"shut", [.var "X", .var "X_1"], true⟩,
   ⟨"path", [.var "X", .var "A"], false⟩]

theorem align_preserves_detour :
    ∃ aligned, align ["X", "Y"] ["Y", "A"] detour = .ok aligned ∧
      aligned = [⟨"link", [.var "X", .var "X_2"], false⟩, ⟨"shut", [.var "X_2", .var "X_1"], true⟩,
        ⟨"path", [.var "X_2", .var "Y"], false⟩] ∧
      ∀ (p : Program) (store : Store),
        p.deriveRule store ["X", "Y"] aligned = p.deriveRule store ["Y", "A"] detour := by
  have hpattern : SamePattern ["Y", "A"] ["X", "Y"] := by
    refine samePattern_iff_zip.2 ⟨rfl, ?_⟩
    decide
  obtain ⟨halign, hsame, -⟩ := align_preserves ["X", "Y"] ["Y", "A"] detour
  obtain ⟨aligned, h⟩ := halign.2 hpattern
  obtain ⟨-, -, -, -, hderive⟩ := hsame aligned h
  have hrun : align ["X", "Y"] ["Y", "A"] detour =
      .ok [⟨"link", [.var "X", .var "X_2"], false⟩, ⟨"shut", [.var "X_2", .var "X_1"], true⟩,
        ⟨"path", [.var "X_2", .var "Y"], false⟩] := by decide
  exact ⟨aligned, h, Except.ok.inj (h.symm.trans hrun), hderive⟩

end Rule

end Verdict

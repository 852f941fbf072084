import Verdict.Proofs.Syntax.LookAhead

/-!
# Drafts of statements

A statement is refused for its shape or for its arguments, and these are faults of two kinds. A draft is
what a statement is by its shape, whatever its arguments are (`draft`), and its reader looks one token
ahead (`reads_draft`): a token of the wrong shape can stand behind those in front of it in no draft. An
argument that does not fit (`Misfit`), a variable in a fact or a constant in a head, could stand where
it stands; it is refused when what comes behind the arguments says what they belong to
(`draft_of_read_error`).
-/

namespace Verdict

variable {α : Type}

namespace Grammar

open Statement

/-! ## Statements by their shape -/

section Drafts

variable (ts : List Token)

/-- What may follow the arguments of a statement. -/
def endings (α : Type) : Language Symbol := one .dot + one .arrow * (bodies α * one .dot)

/-- Statements with any arguments. -/
def drafts (α : Type) : Language Symbol := one .identifier * (arguments α * endings α)

variable (α) in
def draftEnd : Reader Token := fun stop ts =>
  if comesNext .dot ts.head? then expect stop .dot ts
  else expect stop .arrow ts >>= fun r => readBody (α := α) stop r.2 >>= fun b => expect stop .dot b.2

variable (α) in
/-- Reads a statement without a look at its arguments, up to its dot. -/
def draft : Reader Token := fun stop ts =>
  expect stop .identifier ts >>= fun n =>
    readArguments (α := α) stop n.2 >>= fun a => draftEnd α stop a.2

theorem endings_nonempty : ∃ w, w ∈ endings α := ⟨_, Or.inl ⟨"", rfl⟩⟩

theorem reads_draftEnd : Reads (endings α) (draftEnd α) ts := by
  refine .choose (fun _ => ?_) (fun _ => ?_)
  · exact (reads_expect ts .dot).mono fun _ => Or.inl
  · have body (ts : List Token) : Reads (bodies α * one .dot)
        (fun stop ts => readBody (α := α) stop ts >>= fun b => expect stop .dot b.2) ts :=
      (reads_readBody ts).bind (fun _ _ rest _ => reads_expect rest .dot) (one_nonempty _)
    have rule := (reads_expect ts .arrow).bind (fun _ _ rest _ => body rest)
      (mul_nonempty bodies_nonempty (one_nonempty _))
    exact rule.mono fun _ => Or.inr

theorem reads_draft : Reads (drafts α) (draft α) ts := by
  have behind (ts : List Token) : Reads (arguments α * endings α)
      (fun stop ts => readArguments (α := α) stop ts >>= fun a => draftEnd α stop a.2) ts :=
    (reads_readArguments ts).bind (fun _ _ rest _ => reads_draftEnd rest) endings_nonempty
  exact (reads_expect ts .identifier).bind (fun _ _ rest _ => behind rest)
    (mul_nonempty arguments_nonempty endings_nonempty)

theorem exists_draftEnd {w v : List Symbol} {tokens : List Token} (h : w ∈ endings α)
    (e : tokens.map Token.symbol = w ++ v) (stop : Position) :
    ∃ t rest, draftEnd α stop tokens = .ok (t, rest) ∧ rest.map Token.symbol = v := by
  rcases h with ⟨dot, rfl⟩ | h
  · obtain ⟨t, rest, rfl, ht, hrest⟩ := List.map_eq_cons_iff.1 e
    have hdot : t.kind = .dot := congrArg Prod.fst ht
    refine ⟨t, rest, ?_, hrest⟩
    simp [draftEnd, comesNext, expect, hdot]
  · obtain ⟨_, ⟨arrow, rfl⟩, u, hu, rfl⟩ := Language.mem_mul.1 h
    obtain ⟨u, ⟨rule, hrule⟩, _, ⟨dot, rfl⟩, rfl⟩ := Language.mem_mul.1 hu
    rw [List.append_assoc, List.append_assoc, List.singleton_append] at e
    obtain ⟨t, more, rfl, ht, hmore⟩ := List.map_eq_cons_iff.1 e
    have harrow : t.kind = .arrow := congrArg Prod.fst ht
    obtain ⟨rest, hbody, hrest⟩ := exists_readBody stop hrule (notFirst_cons (by decide)) hmore
    obtain ⟨d, rest, hdot, -, hrest⟩ := exists_expect stop hrest
    refine ⟨d, rest, ?_, hrest⟩
    have hexpect : expect stop .arrow (t :: more) = .ok (t, more) := if_pos harrow
    simp [draftEnd, comesNext, harrow, hexpect, hbody, hdot, bind, Except.bind]

/-- Every draft is read as one. -/
theorem exists_draft {w v : List Symbol} {tokens : List Token} (h : w ∈ drafts α)
    (e : tokens.map Token.symbol = w ++ v) (stop : Position) :
    ∃ t rest, draft α stop tokens = .ok (t, rest) ∧ rest.map Token.symbol = v := by
  obtain ⟨_, ⟨name, rfl⟩, u, hu, rfl⟩ := Language.mem_mul.1 h
  obtain ⟨u, ⟨ts, hts⟩, x, hx, rfl⟩ := Language.mem_mul.1 hu
  rw [List.append_assoc, List.append_assoc, List.singleton_append] at e
  obtain ⟨n, more, hname, -, hmore⟩ := exists_expect stop e
  have hfollow : NotFirst [.lparen] (x ++ v) := by
    rcases hx with ⟨dot, rfl⟩ | hx
    · exact notFirst_cons (by decide)
    · obtain ⟨_, ⟨arrow, rfl⟩, u, -, rfl⟩ := Language.mem_mul.1 hx
      exact notFirst_cons (by decide)
  obtain ⟨args, rest, hread, -, hrest⟩ := exists_readArguments stop hts hfollow hmore
  obtain ⟨t, rest, hend, hrest⟩ := exists_draftEnd hx hrest stop
  refine ⟨t, rest, ?_, hrest⟩
  simp [draft, hname, hread, hend, bind, Except.bind]

theorem mem_drafts_of_ofStatement {s : Statement α} {w : List Symbol} (h : OfStatement s w) :
    w ∈ drafts α := by
  cases h with
  | @fact name dot ts w line hargs _ =>
    have hend : [(TokenKind.dot, dot)] ∈ endings α := Or.inl (singleton_mem_one _ _)
    have hshape : w ++ [(TokenKind.dot, dot)] ∈ arguments α * endings α :=
      Language.append_mem_mul ⟨_, hargs⟩ hend
    exact Language.append_mem_mul (singleton_mem_one _ _) hshape
  | @rule name arrow dot head body w v line hargs hbody =>
    have hbody : v ++ [(TokenKind.dot, dot)] ∈ bodies α * one .dot :=
      Language.append_mem_mul ⟨_, hbody⟩ (singleton_mem_one _ _)
    have hend : [(TokenKind.arrow, arrow)] ++ (v ++ [(TokenKind.dot, dot)]) ∈ endings α :=
      Or.inr (Language.append_mem_mul (singleton_mem_one _ _) hbody)
    have hshape : w ++ ([(TokenKind.arrow, arrow)] ++ (v ++ [(TokenKind.dot, dot)])) ∈
        arguments α * endings α := Language.append_mem_mul ⟨_, hargs⟩ hend
    exact Language.append_mem_mul (singleton_mem_one _ _) hshape

end Drafts

/-! ## Arguments that do not fit -/

section Misfits

variable {t : Token} {args : List (Argument α)} {front : List Token}

/-- The argument that a token is. -/
def argument? (t : Token) : Option (Argument α) := (term? t).map (t, ·)

theorem var?_eq_none_iff {term : Term α} (h : term? t = some term) :
    term.var? = none ↔ t.kind.IsConstant := by
  unfold term? at h
  split at h <;> cases h
  all_goals next hk => simp [Term.var?, TokenKind.IsConstant, hk]

theorem var?_eq_some_iff {term : Term α} (h : term? t = some term) {x : String} :
    term.var? = some x ↔ t.kind = .var ∧ t.text = x := by
  unfold term? at h
  split at h <;> cases h
  all_goals next hk => simp [Term.var?, hk]

/-- Both kinds of argument denote a term. -/
theorem exists_term? (h : t.kind = .var ∨ t.kind.IsConstant) :
    ∃ term : Term α, term? t = some term := by
  unfold term?
  split
  · exact ⟨_, rfl⟩
  · exact ⟨_, rfl⟩
  · exact ⟨_, rfl⟩
  · exact ⟨_, rfl⟩
  · next hvar hname htext htruth =>
    rcases h with h | h
    · exact absurd h hvar
    · unfold TokenKind.IsConstant at h
      split at h <;> simp_all

theorem readTerms_filterMap {stop : Position} {ts rest : List Token}
    (h : readTerms stop ts = .ok (args, rest)) :
    ∃ front, ts = front ++ rest ∧ args = front.filterMap argument? := by
  fun_induction readTerms stop ts generalizing args with
  | case1 => cases h
  | case2 => cases h
  | case3 => cases h
  | case4 t sep more term hsep hterm ih =>
    obtain ⟨⟨args', rest'⟩, hread, e⟩ := map_eq_ok_iff.1 h
    cases e
    obtain ⟨front, rfl, rfl⟩ := ih hread
    refine ⟨t :: sep :: front, rfl, ?_⟩
    have hnone : (term? sep : Option (Term α)) = none := by simp [term?, hsep]
    simp [argument?, hterm, hnone]
  | case5 t sep more term _ hsep hterm =>
    cases h
    refine ⟨[t, sep], rfl, ?_⟩
    have hnone : (term? sep : Option (Term α)) = none := by simp [term?, hsep]
    simp [argument?, hterm, hnone]
  | case6 => cases h

/-- What is read as arguments are the tokens that denote terms. -/
theorem readArguments_filterMap {stop : Position} {ts rest : List Token}
    (h : readArguments stop ts = .ok (args, rest)) :
    ∃ front, ts = front ++ rest ∧ front.map Token.symbol ∈ arguments α ∧
      args = front.filterMap argument? := by
  have hfront : ∃ front, ts = front ++ rest ∧ args = front.filterMap argument? := by
    unfold readArguments at h
    split at h
    · cases h
      exact ⟨[], rfl, rfl⟩
    · next t more =>
      split at h
      · next hopen =>
        have hnone : (term? t : Option (Term α)) = none := by simp [term?, hopen]
        have terms (hread : readTerms stop more = .ok (args, rest)) :
            ∃ front, t :: more = front ++ rest ∧ args = front.filterMap argument? := by
          obtain ⟨front, rfl, rfl⟩ := readTerms_filterMap hread
          exact ⟨t :: front, rfl, by simp [argument?, hnone]⟩
        split at h
        · exact terms h
        · next u more =>
          split at h
          · next hclose =>
            cases h
            have hnone' : (term? u : Option (Term α)) = none := by simp [term?, hclose]
            exact ⟨[t, u], rfl, by simp [argument?, hnone, hnone']⟩
          · exact terms h
      · cases h
        exact ⟨[], rfl, rfl⟩
  obtain ⟨front, rfl, hargs⟩ := hfront
  obtain ⟨front', e, hmem, -⟩ := (reads_readArguments _).ok stop args rest h
  cases List.append_cancel_right e
  exact ⟨front, rfl, hmem, hargs⟩

/-- An argument stands where its token does, behind those of the earlier arguments. -/
theorem exists_token_of_filterMap {term : Term α} {before after : List (Argument α)}
    (h : front.filterMap argument? = before ++ (t, term) :: after) :
    ∃ f g, front = f ++ t :: g ∧ term? t = some term ∧
      ∀ u ∈ f, ∀ term', term? u = some term' → (u, term') ∈ before := by
  obtain ⟨f, more, rfl, hf, hmore⟩ := List.filterMap_eq_append_iff.1 h
  obtain ⟨gap, t', g, rfl, hgap, ht, -⟩ := List.filterMap_eq_cons_iff.1 hmore
  obtain ⟨term', hterm, e⟩ := Option.map_eq_some_iff.1 ht
  cases e
  refine ⟨f ++ gap, g, (List.append_assoc _ _ _).symm, hterm, fun u hu term' hu' => ?_⟩
  have harg : argument? u = some (u, term') := by rw [argument?, hu', Option.map_some]
  rcases List.mem_append.1 hu with hu | hu
  · rw [← hf]
    exact List.mem_filterMap.2 ⟨u, hu, harg⟩
  · rw [hgap u hu] at harg
    cases harg

theorem exists_of_factOf_error {name : Token} {e : FormError} (h : factOf name args = .error e) :
    ∃ before t term x after, args = before ++ (t, term) :: after ∧ term.var? = some x ∧
      (∀ a ∈ before, a.2.var? = none) ∧ e = ⟨.factNotGround name.text x, t.position⟩ := by
  unfold factOf at h
  split at h
  · next t x hfind =>
    cases h
    obtain ⟨before, ⟨t', term⟩, after, hargs, hx, hbefore⟩ := List.findSome?_eq_some_iff.1 hfind
    obtain ⟨x', hx', e⟩ := Option.map_eq_some_iff.1 hx
    cases e
    refine ⟨before, t, term, x, after, hargs, hx', fun a ha => ?_, rfl⟩
    exact Option.map_eq_none_iff.1 (hbefore a ha)
  · cases h

theorem exists_of_headOf_error {name : Token} {e : FormError} (h : headOf name args = .error e) :
    ∃ before t term after, args = before ++ (t, term) :: after ∧ term.var? = none ∧
      (∀ a ∈ before, a.2.var? ≠ none) ∧ e = ⟨.headNotVariable name.text t.text, t.position⟩ := by
  induction args with
  | nil => cases h
  | cons a args ih =>
    obtain ⟨t, term⟩ := a
    rw [headOf] at h
    cases hvar : term.var? with
    | none =>
      rw [hvar] at h
      cases h
      exact ⟨[], t, term, args, rfl, hvar, List.forall_mem_nil _, rfl⟩
    | some x =>
      rw [hvar] at h
      obtain ⟨before, t', term', after, rfl, hvar', hbefore, he⟩ := ih (map_eq_error_iff.1 h)
      refine ⟨(t, term) :: before, t', term', after, rfl, hvar', ?_, he⟩
      refine List.forall_mem_cons.2 ⟨?_, hbefore⟩
      simp [hvar]

/-- An argument that does not fit the statement it stands in, though a term may stand there. -/
inductive Misfit (α : Type) (ts : List Token) : FormError → Prop
  | fact {name t dot : Token} {f g rest : List Token} : name.kind = .identifier → dot.kind = .dot →
    ts = name :: (f ++ t :: g) ++ dot :: rest → (f ++ t :: g).map Token.symbol ∈ arguments α →
    (∀ u ∈ f, u.kind ≠ .var) → t.kind = .var →
      Misfit α ts ⟨.factNotGround name.text t.text, t.position⟩
  | head {name t arrow : Token} {f g rest : List Token} : name.kind = .identifier →
    arrow.kind = .arrow → ts = name :: (f ++ t :: g) ++ arrow :: rest →
    (f ++ t :: g).map Token.symbol ∈ arguments α →
    (∀ u ∈ f, ¬ u.kind.IsConstant) → t.kind.IsConstant →
      Misfit α ts ⟨.headNotVariable name.text t.text, t.position⟩

theorem eq_cons_of_expect {stop : Position} {kind : TokenKind} {ts rest : List Token}
    (h : expect stop kind ts = .ok (t, rest)) : ts = t :: rest ∧ t.kind = kind := by
  unfold expect at h
  split at h
  · cases h
  · split at h
    · next hk =>
      cases h
      exact ⟨rfl, hk⟩
    · cases h

/-- A rule is refused for its shape, or for its head once the arrow is there. -/
theorem draftEnd_of_readRule_error {stop : Position} {name : Token} {ts : List Token} {e : FormError}
    (hdot : comesNext .dot ts.head? = false) (h : readRule stop name args ts = .error e) :
    draftEnd α stop ts = .error e ∨
      headOf name args = .error e ∧ ∃ arrow rest, ts = arrow :: rest ∧ arrow.kind = .arrow := by
  simp only [draftEnd, hdot]
  rcases bind_eq_error_iff.1 h with harrow | ⟨⟨arrow, rest⟩, harrow, h⟩
  · exact Or.inl (bind_eq_error_iff.2 (Or.inl harrow))
  rcases bind_eq_error_iff.1 h with hhead | ⟨head, -, h⟩
  · exact Or.inr ⟨hhead, arrow, rest, eq_cons_of_expect harrow⟩
  refine Or.inl (bind_eq_error_iff.2 (Or.inr ⟨_, harrow, ?_⟩))
  rcases bind_eq_error_iff.1 h with hbody | ⟨body, hbody, h⟩
  · exact bind_eq_error_iff.2 (Or.inl hbody)
  refine bind_eq_error_iff.2 (Or.inr ⟨_, hbody, ?_⟩)
  rcases bind_eq_error_iff.1 h with hend | ⟨_, -, h⟩
  · exact hend
  · cases h

/-- **A statement is refused for its shape, or for an argument that does not fit.** -/
theorem draft_of_read_error {stop : Position} {ts : List Token} {e : FormError}
    (h : Statement.read (α := α) stop ts = .error e) :
    draft α stop ts = .error e ∨ Misfit α ts e := by
  rcases bind_eq_error_iff.1 h with hname | ⟨⟨name, more⟩, hname, h⟩
  · exact Or.inl (bind_eq_error_iff.2 (Or.inl hname))
  rcases bind_eq_error_iff.1 h with hargs | ⟨⟨args, rest⟩, hargs, hnext⟩
  · exact Or.inl (bind_eq_error_iff.2 (Or.inr ⟨_, hname, bind_eq_error_iff.2 (Or.inl hargs)⟩))
  have hdraft (hend : draftEnd α stop rest = .error e) : draft α stop ts = .error e :=
    bind_eq_error_iff.2 (Or.inr ⟨_, hname, bind_eq_error_iff.2 (Or.inr ⟨_, hargs, hend⟩)⟩)
  obtain ⟨rfl, hkind⟩ := eq_cons_of_expect hname
  obtain ⟨front, rfl, hmem, hfilter⟩ := readArguments_filterMap hargs
  have rule (hdot : comesNext .dot rest.head? = false) (hr : readRule stop name args rest = .error e) :
      draft α stop (name :: (front ++ rest)) = .error e ∨ Misfit α (name :: (front ++ rest)) e := by
    rcases draftEnd_of_readRule_error hdot hr with hend | ⟨hhead, arrow, rest, rfl, harrow⟩
    · exact Or.inl (hdraft hend)
    obtain ⟨before, t, term, after, hsplit, hvar, hbefore, rfl⟩ := exists_of_headOf_error hhead
    obtain ⟨f, g, rfl, hterm, hf⟩ := exists_token_of_filterMap (hfilter.symm.trans hsplit)
    have hconst : t.kind.IsConstant := (var?_eq_none_iff hterm).1 hvar
    refine Or.inr (.head hkind harrow rfl hmem (fun u hu hu' => ?_) hconst)
    obtain ⟨term', hterm'⟩ := exists_term? (α := α) (Or.inr hu')
    exact hbefore _ (hf u hu term' hterm') ((var?_eq_none_iff hterm').2 hu')
  cases rest with
  | nil => exact rule rfl hnext
  | cons d more =>
    dsimp only at hnext
    split at hnext
    · next hdot =>
      obtain ⟨before, t, term, x, after, hsplit, hvar, hbefore, rfl⟩ :=
        exists_of_factOf_error (map_eq_error_iff.1 hnext)
      obtain ⟨f, g, rfl, hterm, hf⟩ := exists_token_of_filterMap (hfilter.symm.trans hsplit)
      obtain ⟨hk, rfl⟩ := (var?_eq_some_iff hterm).1 hvar
      refine Or.inr (.fact hkind hdot rfl hmem (fun u hu hu' => ?_) hk)
      obtain ⟨term', hterm'⟩ := exists_term? (α := α) (Or.inl hu')
      have hnone := hbefore _ (hf u hu term' hterm')
      rw [(var?_eq_some_iff hterm').2 ⟨hu', rfl⟩] at hnone
      cases hnone
    · next hdot => exact rule (by simp [comesNext, hdot]) hnext

/-- A statement that is read is one of its shape. -/
theorem exists_draft_of_read {stop : Position} {ts rest : List Token} {s : Statement α}
    (h : Statement.read stop ts = .ok (s, rest)) : ∃ t, draft α stop ts = .ok (t, rest) := by
  obtain ⟨⟨name, more⟩, hname, h⟩ := bind_eq_ok_iff.1 h
  obtain ⟨⟨args, mid⟩, hargs, h⟩ := bind_eq_ok_iff.1 h
  have hdraft : draft α stop ts = draftEnd α stop mid := by
    simp [draft, hname, hargs, bind, Except.bind]
  have rule (hdot : comesNext .dot mid.head? = false)
      (hr : readRule stop name args mid = .ok (s, rest)) : ∃ t, draft α stop ts = .ok (t, rest) := by
    obtain ⟨arrow, harrow, hr⟩ := bind_eq_ok_iff.1 hr
    obtain ⟨head, -, hr⟩ := bind_eq_ok_iff.1 hr
    obtain ⟨body, hbody, hr⟩ := bind_eq_ok_iff.1 hr
    obtain ⟨⟨d, _⟩, hd, e⟩ := bind_eq_ok_iff.1 hr
    cases e
    refine ⟨d, ?_⟩
    simp [hdraft, draftEnd, hdot, harrow, hbody, hd, bind, Except.bind]
  cases mid with
  | nil => exact rule rfl h
  | cons d more =>
    dsimp only at h
    split at h
    · next hdot =>
      obtain ⟨_, -, e⟩ := map_eq_ok_iff.1 h
      cases e
      refine ⟨d, ?_⟩
      simp [hdraft, draftEnd, comesNext, expect, hdot]
    · next hdot => exact rule (by simp [comesNext, hdot]) h

end Misfits

/-! ## Rows of drafts -/

section Rows

open scoped Computability

variable {w v : List Symbol}

theorem symbols_tokens (w : List Symbol) : (w.map Symbol.token).map Token.symbol = w := by
  rw [List.map_map]
  exact List.map_id w

theorem mem_kstar_drafts_iff :
    w ∈ (drafts α)∗ ↔ w = [] ∨ ∃ u ∈ drafts α, ∃ v ∈ (drafts α)∗, u ++ v = w := by
  conv_lhs => rw [← Language.one_add_self_mul_kstar_eq_kstar]
  rw [Language.mem_add, Language.mem_one, Language.mem_mul]

theorem mem_kstar_of_mem_drafts (h : w ∈ drafts α) : w ∈ (drafts α)∗ :=
  mem_kstar_drafts_iff.2 (Or.inr ⟨w, h, [], Language.nil_mem_kstar _, List.append_nil w⟩)

theorem ne_nil_of_mem_drafts (h : w ∈ drafts α) : w ≠ [] := by
  obtain ⟨_, ⟨name, rfl⟩, v, -, rfl⟩ := Language.mem_mul.1 h
  exact List.cons_ne_nil _ _

/-- The first draft of a row is determined by the row. -/
theorem mem_kstar_of_append (hw : w ∈ drafts α) (h : w ++ v ∈ (drafts α)∗) : v ∈ (drafts α)∗ := by
  rcases mem_kstar_drafts_iff.1 h with h | ⟨w', hw', v', hv', h⟩
  · exact absurd (List.append_eq_nil_iff.1 h).1 (ne_nil_of_mem_drafts hw)
  · obtain ⟨t, rest, hread, hrest⟩ := exists_draft hw (symbols_tokens (w ++ v)) .start
    obtain ⟨t', rest', hread', hrest'⟩ :=
      exists_draft hw' ((symbols_tokens (w ++ v)).trans h.symm) .start
    rw [hread] at hread'
    cases hread'
    rw [← hrest, hrest']
    exact hv'

theorem append_mem_kstar_iff {ss : List (Statement α)} (h : OfStatements ss w) :
    w ++ v ∈ (drafts α)∗ ↔ v ∈ (drafts α)∗ := by
  induction h with
  | nil => rfl
  | @cons s ss w u hs _ ih =>
    have hw := mem_drafts_of_ofStatement hs
    rw [List.append_assoc, ← ih]
    constructor
    · exact mem_kstar_of_append hw
    · exact fun h => mem_kstar_drafts_iff.2 (Or.inr ⟨w, hw, _, h, rfl⟩)

theorem not_mem_kstar_of_draft_error {stop : Position} {ts : List Token} {e : FormError} (hne : ts ≠ [])
    (h : draft α stop ts = .error e) : ts.map Token.symbol ∉ (drafts α)∗ := by
  intro hmem
  rcases mem_kstar_drafts_iff.1 hmem with hnil | ⟨w, hw, v, -, e⟩
  · exact hne (List.map_eq_nil_iff.1 hnil)
  · obtain ⟨t, rest, hread, -⟩ := exists_draft hw e.symm stop
    rw [h] at hread
    cases hread

/-- Statements are read up to the one that is refused. -/
theorem exists_of_readAll_error {stop : Position} {ts : List Token} {e : FormError}
    (h : (Statement.readAll (α := α) stop ts).error? = some e) :
    ∃ front rest, ∃ ss : List (Statement α), ts = front ++ rest ∧ rest ≠ [] ∧
      OfStatements ss (front.map Token.symbol) ∧ Statement.read (α := α) stop rest = .error e := by
  fun_induction Statement.readAll (α := α) stop ts with
  | case1 => cases h
  | case2 t more e' hread =>
    cases h
    exact ⟨[], t :: more, [], rfl, List.cons_ne_nil _ _, .nil, hread⟩
  | case3 t more s rest hread r ih =>
    obtain ⟨front, rest', ss, hrest, hne, hss, herror⟩ := ih h
    obtain ⟨d, hdraft⟩ := exists_draft_of_read hread
    obtain ⟨first, hfirst, -, -⟩ := (reads_draft _).ok stop d rest hdraft
    obtain ⟨w, hw, hs⟩ := ofStatement_of_read hread
    have e : first.map Token.symbol = w := by
      rw [hfirst, List.map_append] at hw
      exact List.append_cancel_right hw
    refine ⟨first ++ front, rest', s :: ss, ?_, hne, ?_, herror⟩
    · rw [hfirst, hrest, List.append_assoc]
    · rw [List.map_append, e]
      exact .cons hs hss

end Rows

end Grammar

end Verdict

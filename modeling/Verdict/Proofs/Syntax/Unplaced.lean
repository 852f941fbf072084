import Verdict.Proofs.Syntax.Assembly

/-!
# Places are only reported

Tokens are read by their kinds and texts. Their places go into errors of form and into the lines that
statements carry along for errors of assembly, and nowhere else: each reader does the same when all
places are taken away from its tokens (`readAll_unplaced`), and so does putting the statements together
(`declareAll_unplaced`). So what becomes of a text depends on its symbols alone, but for the places in
its error (`parse_unplaced`).
-/

namespace Verdict

variable {α : Type}

/-! ## Taking the places away -/

/-- No place of a text. -/
def Position.nowhere : Position := { line := 0, column := 0 }

def FormError.unplaced (e : FormError) : FormError := { e with position := .nowhere }

@[simp] theorem FormError.unplaced_mk (fault : FormFault) (p : Position) :
    FormError.unplaced ⟨fault, p⟩ = ⟨fault, .nowhere⟩ := rfl

def SourceError.unplaced : SourceError → SourceError
  | .form e => .form e.unplaced
  | .assembly e => .assembly e.unplaced

def Reading.unplaced (r : Reading α) : Reading α where
  statements := r.statements.map Statement.unplaced
  error? := r.error?.map FormError.unplaced

def Token.unplaced (t : Token) : Token := { t with position := .nowhere }

section Token

variable (t : Token)

@[simp] theorem Token.kind_unplaced : t.unplaced.kind = t.kind := rfl

@[simp] theorem Token.text_unplaced : t.unplaced.text = t.text := rfl

@[simp] theorem Token.position_unplaced : t.unplaced.position = .nowhere := rfl

@[simp] theorem Statement.term?_unplaced : term? (α := α) t.unplaced = term? t := rfl

end Token

/-- The token of a symbol, without a place. -/
def Symbol.token (s : Symbol) : Token := { kind := s.1, text := s.2, position := .nowhere }

namespace Statement

def Argument.unplaced (a : Argument α) : Argument α := (a.1.unplaced, a.2)

/-- What a reader gives, without the places: in what it has read, in the tokens that are left, and in
its error. -/
def forget {β : Type} (f : β → β) :
    Except FormError (β × List Token) → Except FormError (β × List Token)
  | .ok (b, rest) => .ok (f b, rest.map Token.unplaced)
  | .error e => .error e.unplaced

section Forget

variable {β γ : Type} {f : β → β} {g : γ → γ}

@[simp] theorem forget_ok (b : β) (rest : List Token) :
    forget f (.ok (b, rest)) = .ok (f b, rest.map Token.unplaced) := rfl

@[simp] theorem forget_error (e : FormError) :
    forget f (.error e) = .error e.unplaced := rfl

theorem forget_bind {x : Except FormError (β × List Token)}
    {k k' : β × List Token → Except FormError (γ × List Token)}
    (h : ∀ b rest, k' (f b, rest.map Token.unplaced) = forget g (k (b, rest))) :
    (forget f x >>= k') = forget g (x >>= k) := by
  cases x with
  | error e => rfl
  | ok r => exact h r.1 r.2

end Forget

/-! ## The readers -/

section Readers

variable (stop : Position) (ts : List Token)

theorem expect_unplaced (kind : TokenKind) :
    expect .nowhere kind (ts.map Token.unplaced) = forget Token.unplaced (expect stop kind ts) := by
  cases ts with
  | nil => rfl
  | cons t ts => by_cases h : t.kind = kind <;> simp [expect, h]

theorem readTerms_unplaced :
    readTerms (α := α) .nowhere (ts.map Token.unplaced) =
      forget (List.map Argument.unplaced) (readTerms stop ts) := by
  fun_induction readTerms (α := α) stop ts with
  | case1 => rfl
  | case2 t ts h => simp [readTerms, h]
  | case3 t term h => simp [readTerms, h]
  | case4 t sep rest term hsep hterm ih =>
    simp only [List.map_cons, readTerms, term?_unplaced, hterm, Token.kind_unplaced, hsep, if_true, ih]
    cases readTerms (α := α) stop rest <;> rfl
  | case5 t sep rest term _ hsep hterm => simp [readTerms, hterm, hsep, Argument.unplaced]
  | case6 t sep rest term hcomma hsep hterm => simp [readTerms, hterm, hcomma, hsep]

theorem readArguments_unplaced :
    readArguments (α := α) .nowhere (ts.map Token.unplaced) =
      forget (List.map Argument.unplaced) (readArguments stop ts) := by
  cases ts with
  | nil => rfl
  | cons t rest =>
    by_cases hopen : t.kind = .lparen
    · cases rest with
      | nil => simp [readArguments, readTerms, hopen]
      | cons u rest =>
        by_cases hclose : u.kind = .rparen
        · simp [readArguments, hopen, hclose]
        · have hterms := readTerms_unplaced (α := α) stop (u :: rest)
          simpa [readArguments, hopen, hclose] using hterms
    · simp [readArguments, hopen]

theorem readNegation_unplaced :
    readNegation (ts.map Token.unplaced) =
      ((readNegation ts).1, (readNegation ts).2.map Token.unplaced) := by
  cases ts with
  | nil => rfl
  | cons t rest => by_cases h : t.kind = .negation <;> simp [readNegation, h]

theorem readClause_unplaced :
    readClause (α := α) .nowhere (ts.map Token.unplaced) = forget id (readClause stop ts) := by
  unfold readClause
  simp only [readNegation_unplaced, expect_unplaced stop]
  refine forget_bind fun name rest => ?_
  simp only [readArguments_unplaced stop]
  refine forget_bind fun args rest => ?_
  simp [pure, Except.pure, Argument.unplaced, Function.comp_def]

theorem readBody_unplaced :
    readBody (α := α) .nowhere (ts.map Token.unplaced) = forget id (readBody stop ts) := by
  have hclause := readClause_unplaced (α := α) stop ts
  fun_induction readBody (α := α) stop ts with
  | case1 ts e h =>
    rw [h] at hclause
    rw [Grammar.readBody_of_error _ hclause, forget_error]
  | case2 ts c h =>
    rw [h] at hclause
    rw [Grammar.readBody_of_readClause _ hclause]
    rfl
  | case3 ts c t more _ hcomma h ih =>
    rw [h] at hclause
    rw [Grammar.readBody_of_readClause _ hclause]
    simp only [List.map_cons, Token.kind_unplaced, hcomma, if_true, ih (readClause_unplaced stop more)]
    cases readBody (α := α) stop more <;> rfl
  | case4 ts c t more _ hcomma h =>
    rw [h] at hclause
    rw [Grammar.readBody_of_readClause _ hclause]
    simp [hcomma]

theorem factOf_eq (name : Token) (args : List (Argument α)) :
    factOf name args = (args.findSome? fun a => a.2.var?.map (a.1, ·)).elim
      (.ok (.fact name.text (args.map Prod.snd) name.position.line))
      (fun found => .error ⟨.factNotGround name.text found.2, found.1.position⟩) := by
  unfold factOf
  split
  · next t x h =>
    have h' : (args.findSome? fun a => a.2.var?.map (a.1, ·)) = some (t, x) := h
    rw [h']
    rfl
  · next h =>
    have h' : (args.findSome? fun a => a.2.var?.map (a.1, ·)) = none := h
    rw [h']
    rfl

theorem factOf_unplaced (name : Token) (args : List (Argument α)) :
    factOf name.unplaced (args.map Argument.unplaced) =
      ((factOf name args).map Statement.unplaced).mapError FormError.unplaced := by
  have hfind : (args.map Argument.unplaced).findSome? (fun a => a.2.var?.map (a.1, ·)) =
      (args.findSome? fun a => a.2.var?.map (a.1, ·)).map (Prod.map Token.unplaced id) := by
    induction args with
    | nil => rfl
    | cons a args ih =>
      obtain ⟨t, term⟩ := a
      cases h : term.var? <;> simp_all [Argument.unplaced]
  rw [factOf_eq, factOf_eq, hfind]
  cases args.findSome? fun a => a.2.var?.map (a.1, ·) with
  | none =>
    simp [Except.map, Except.mapError, Statement.unplaced, Argument.unplaced, Function.comp_def,
      Position.nowhere]
  | some found => rfl

theorem headOf_unplaced (name : Token) (args : List (Argument α)) :
    headOf name.unplaced (args.map Argument.unplaced) =
      (headOf name args).mapError FormError.unplaced := by
  induction args with
  | nil => rfl
  | cons a args ih =>
    obtain ⟨t, term⟩ := a
    rw [List.map_cons, Argument.unplaced, headOf, headOf, ih]
    cases term.var? with
    | none => rfl
    | some x => cases headOf name args <;> rfl

theorem readRule_unplaced (name : Token) (args : List (Argument α)) :
    readRule .nowhere name.unplaced (args.map Argument.unplaced) (ts.map Token.unplaced) =
      forget Statement.unplaced (readRule stop name args ts) := by
  unfold readRule
  rw [expect_unplaced stop]
  refine forget_bind fun arrow rest => ?_
  dsimp only
  rw [headOf_unplaced]
  cases headOf name args with
  | error e => rfl
  | ok head =>
    show (readBody .nowhere (rest.map Token.unplaced) >>= _) = forget _ (readBody stop rest >>= _)
    rw [readBody_unplaced stop]
    refine forget_bind fun body rest => ?_
    dsimp only
    rw [expect_unplaced stop]
    exact forget_bind fun dot rest => rfl

theorem read_unplaced :
    Statement.read (α := α) .nowhere (ts.map Token.unplaced) =
      forget Statement.unplaced (Statement.read stop ts) := by
  unfold Statement.read
  rw [expect_unplaced stop]
  refine forget_bind fun name rest => ?_
  dsimp only
  rw [readArguments_unplaced stop]
  refine forget_bind fun args rest => ?_
  cases rest with
  | nil => exact readRule_unplaced stop [] name args
  | cons t rest =>
    have hrule := readRule_unplaced stop (t :: rest) name args
    by_cases hdot : t.kind = .dot
    · simp only [List.map_cons, Token.kind_unplaced, hdot, if_true, factOf_unplaced]
      cases factOf name args <;> rfl
    · simpa [hdot] using hrule

/-- **Statements are read by the symbols of their tokens.** -/
theorem readAll_unplaced :
    Statement.readAll (α := α) .nowhere (ts.map Token.unplaced) =
      (Statement.readAll stop ts).unplaced := by
  fun_induction Statement.readAll (α := α) stop ts with
  | case1 =>
    rw [List.map_nil, readAll]
    rfl
  | case2 t more e h =>
    have hread := read_unplaced (α := α) stop (t :: more)
    rw [h] at hread
    exact Grammar.readAll_of_error _ hread
  | case3 t more s rest h r ih =>
    have hread := read_unplaced (α := α) stop (t :: more)
    rw [h] at hread
    rw [Grammar.readAll_of_read _ hread ih]
    rfl

end Readers

end Statement

/-! ## Texts -/

namespace Program

variable [DecidableEq α]

theorem ofReading_unplaced (r : Reading α) :
    ofReading r.unplaced = (ofReading r).mapError SourceError.unplaced := by
  simp only [ofReading, Reading.unplaced, declareAll_unplaced]
  cases declareAll ∅ r.statements with
  | error e => rfl
  | ok nodes => cases r.error? <;> rfl

/-- **What becomes of a text depends on its symbols alone**, but for the places in its error. -/
theorem parse_unplaced {source : String} {w : List Symbol} (h : Lexes source.toList w) :
    (parse (α := α) source).mapError SourceError.unplaced =
      ofReading (Statement.readAll .nowhere (w.map Symbol.token)) := by
  obtain ⟨tokens, htokens, rfl⟩ := Lexes.exists_tokenize_iff.2 h
  have hsymbols : (tokens.map Token.symbol).map Symbol.token = tokens.map Token.unplaced := by
    rw [List.map_map]
    rfl
  rw [parse, htokens, hsymbols, Statement.readAll_unplaced (Token.endOf tokens), ofReading_unplaced]
  rfl

end Program

end Verdict

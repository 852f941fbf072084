import Verdict.Syntax.Token
import Verdict.Program.Clause

/-!
# Statements

The grammar of program texts, read by recursive descent:

* a fact is a name with arguments and a dot, and its arguments are constants;
* a rule is a name with arguments, an arrow, clauses with commas between them, and a dot, and its
  arguments are variables;
* a clause is a name with arguments, or the negation of one;
* arguments are terms with commas between them in parentheses, and may be absent.

Each reader takes the tokens that are left and gives back what it read with the tokens that are left
then; `stop` is the place where the text ends, for the error that it ends too soon. Reading a text
yields the statements up to the first error of form, and that error (`Reading`), because what is
wrong between the statements before it is reported first.
-/

namespace Verdict

/-- A statement, with the line on which it starts. -/
inductive Statement (α : Type := Empty) where
  | fact (name : String) (terms : Fact α) (line : Nat)
  | rule (name : String) (args : List String) (body : Rule α) (line : Nat)
deriving DecidableEq, Repr

/-- The statements of a text up to its first error of form, and that error. -/
structure Reading (α : Type := Empty) where
  statements : List (Statement α)
  /-- What is wrong behind the last of them. -/
  error? : Option FormError

variable {α : Type}

namespace Statement

/-- The term that a token denotes. -/
def term? (t : Token) : Option (Term α) :=
  match t.kind with
  | .var => some (.var t.text)
  | .identifier => some (.text t.text)
  | .text => some (.text (Token.unquote t.text))
  | .truth value => some (.truth value)
  | _ => none

/-- An argument: a term with its token. -/
abbrev Argument (α : Type) := Token × Term α

section Readers

variable (stop : Position)

/-- Takes a token of the given kind. -/
def expect (kind : TokenKind) : List Token → Except FormError (Token × List Token)
  | [] => .error ⟨.unexpectedEnd, stop⟩
  | t :: ts => if t.kind = kind then .ok (t, ts) else .error ⟨.expected kind t.text, t.position⟩

/-- Reads a term. -/
def readTerm : List Token → Except FormError (Argument α × List Token)
  | [] => .error ⟨.unexpectedEnd, stop⟩
  | t :: ts =>
    match term? t with
    | some term => .ok ((t, term), ts)
    | none => .error ⟨.expectedTerm t.text, t.position⟩

/-- Reads terms with commas between them, and the parenthesis behind the last. -/
def readTerms : List Token → Except FormError (List (Argument α) × List Token)
  | [] => .error ⟨.unexpectedEnd, stop⟩
  | t :: ts =>
    match term? t with
    | none => .error ⟨.expectedTerm t.text, t.position⟩
    | some term =>
      match ts with
      | [] => .error ⟨.unexpectedEnd, stop⟩
      | sep :: rest =>
        if sep.kind = .comma then
          (readTerms rest).map fun (args, rest) => ((t, term) :: args, rest)
        else if sep.kind = .rparen then .ok ([(t, term)], rest)
        else .error ⟨.expected .rparen sep.text, sep.position⟩

/-- Reads the arguments of a name, which may be absent. -/
def readArguments (ts : List Token) : Except FormError (List (Argument α) × List Token) :=
  match ts with
  | [] => .ok ([], ts)
  | t :: rest =>
    if t.kind = .lparen then
      match rest with
      | [] => readTerms stop rest
      | u :: rest' => if u.kind = .rparen then .ok ([], rest') else readTerms stop rest
    else .ok ([], ts)

/-- Splits off the word of negation, if it comes first. -/
def readNegation : List Token → Bool × List Token
  | [] => (false, [])
  | t :: ts => if t.kind = .negation then (true, ts) else (false, t :: ts)

/-- Reads a clause. -/
def readClause (ts : List Token) : Except FormError (Clause α × List Token) := do
  let (negated, ts) := readNegation ts
  let (name, ts) ← expect stop .identifier ts
  let (args, ts) ← readArguments stop ts
  return ({ relation := name.text, terms := args.map Prod.snd, negated }, ts)

/-! ### Every reader leaves fewer tokens

That is what makes the repetitions below end. -/

theorem length_of_expect {kind : TokenKind} {ts rest : List Token} {t : Token}
    (h : expect stop kind ts = .ok (t, rest)) : rest.length < ts.length := by
  unfold expect at h
  split at h
  · cases h
  · split at h
    · cases h; simp
    · cases h

theorem length_of_readTerms {ts rest : List Token} {args : List (Argument α)}
    (h : readTerms stop ts = .ok (args, rest)) : rest.length < ts.length := by
  fun_induction readTerms stop ts generalizing args with
  | case1 => cases h
  | case2 => cases h
  | case3 => cases h
  | case4 t sep more term _ _ ih =>
    cases hr : readTerms (α := α) stop more with
    | error e => rw [hr] at h; cases h
    | ok r =>
      rw [hr] at h; cases h
      have := ih hr
      simp only [List.length_cons]
      omega
  | case5 => cases h; simp only [List.length_cons]; omega
  | case6 => cases h

theorem length_of_readArguments {ts rest : List Token} {args : List (Argument α)}
    (h : readArguments stop ts = .ok (args, rest)) : rest.length ≤ ts.length := by
  unfold readArguments at h
  split at h
  · cases h; simp
  · next t more =>
    split at h
    · split at h
      · exact Nat.le_of_lt (Nat.lt_succ_of_lt (length_of_readTerms stop h))
      · split at h
        · cases h; simp only [List.length_cons]; omega
        · exact Nat.le_of_lt (Nat.lt_succ_of_lt (length_of_readTerms stop h))
    · cases h; exact Nat.le_refl _

theorem length_of_readNegation (ts : List Token) : (readNegation ts).2.length ≤ ts.length := by
  unfold readNegation
  split
  · exact Nat.le_refl _
  · split
    · exact Nat.le_succ _
    · exact Nat.le_refl _

theorem length_of_readClause {ts rest : List Token} {c : Clause α}
    (h : readClause stop ts = .ok (c, rest)) : rest.length < ts.length := by
  simp only [readClause, bind, Except.bind, pure, Except.pure] at h
  split at h
  · cases h
  · next name hn =>
    split at h
    · cases h
    · next args ha =>
      cases h
      have h₁ := length_of_expect stop hn
      have h₂ := length_of_readArguments stop ha
      have h₃ := length_of_readNegation ts
      omega

/-- Reads clauses with commas between them. -/
def readBody (ts : List Token) : Except FormError (Rule α × List Token) :=
  match _h : readClause stop ts with
  | .error e => .error e
  | .ok (c, rest) =>
    match rest with
    | [] => .ok ([c], [])
    | t :: more =>
      if t.kind = .comma then (readBody more).map fun (cs, rest) => (c :: cs, rest)
      else .ok ([c], t :: more)
termination_by ts.length
decreasing_by
  have := length_of_readClause stop _h
  simp only [List.length_cons] at this
  omega

theorem length_of_readBody {ts rest : List Token} {cs : Rule α}
    (h : readBody stop ts = .ok (cs, rest)) : rest.length < ts.length := by
  fun_induction readBody (α := α) stop ts generalizing cs with
  | case1 => cases h
  | case2 ts c hc => cases h; exact length_of_readClause stop hc
  | case3 ts c t more _ _ hc ih =>
    cases hr : readBody (α := α) stop more with
    | error e => rw [hr] at h; cases h
    | ok r =>
      rw [hr] at h; cases h
      have h₁ := ih hr
      have h₂ := length_of_readClause stop hc
      simp only [List.length_cons] at h₂
      omega
  | case4 ts c t more _ _ hc => cases h; exact length_of_readClause stop hc

/-- The fact with the given arguments, which have to be ground. -/
def factOf (name : Token) (args : List (Argument α)) : Except FormError (Statement α) :=
  match args.findSome? fun (t, term) => term.var?.map (t, ·) with
  | some (t, x) => .error ⟨.factNotGround name.text x, t.position⟩
  | none => .ok (.fact name.text (args.map Prod.snd) name.position.line)

/-- The variables of a rule head, which may hold nothing else. -/
def headOf (name : Token) : List (Argument α) → Except FormError (List String)
  | [] => .ok []
  | (t, term) :: args =>
    match term.var? with
    | some x => (headOf name args).map (x :: ·)
    | none => .error ⟨.headNotVariable name.text t.text, t.position⟩

/-- Reads what follows the head of a rule. -/
def readRule (name : Token) (args : List (Argument α)) (ts : List Token) :
    Except FormError (Statement α × List Token) := do
  let (_, ts) ← expect stop .arrow ts
  -- Only behind the arrow is it sure that this is a rule, so the head is checked here.
  let head ← headOf name args
  let (body, ts) ← readBody stop ts
  let (_, ts) ← expect stop .dot ts
  return (.rule name.text head body name.position.line, ts)

/-- Reads a statement. -/
def read (ts : List Token) : Except FormError (Statement α × List Token) := do
  let (name, ts) ← expect stop .identifier ts
  let (args, ts) ← readArguments stop ts
  match ts with
  | [] => readRule stop name args []
  | t :: rest =>
    if t.kind = .dot then (factOf name args).map (·, rest) else readRule stop name args (t :: rest)

theorem length_of_readRule {name : Token} {args : List (Argument α)} {ts rest : List Token}
    {s : Statement α} (h : readRule stop name args ts = .ok (s, rest)) :
    rest.length < ts.length := by
  simp only [readRule, bind, Except.bind, pure, Except.pure] at h
  split at h
  · cases h
  · next hArrow =>
    split at h
    · cases h
    · split at h
      · cases h
      · next hBody =>
        split at h
        · cases h
        · next hDot =>
          cases h
          have h₁ := length_of_expect stop hArrow
          have h₂ := length_of_readBody stop hBody
          have h₃ := length_of_expect stop hDot
          omega

theorem length_of_read {ts rest : List Token} {s : Statement α}
    (h : read stop ts = .ok (s, rest)) : rest.length < ts.length := by
  simp only [read, bind, Except.bind] at h
  split at h
  · cases h
  · next hName =>
    split at h
    · cases h
    · next args hArgs =>
      have h₁ := length_of_expect stop hName
      have h₂ := length_of_readArguments stop hArgs
      split at h
      · have := length_of_readRule stop h
        simp at this
      · next t more hts =>
        rw [hts, List.length_cons] at h₂
        split at h
        · cases hf : factOf (α := α) _ _ with
          | error e => rw [hf] at h; cases h
          | ok f => rw [hf] at h; cases h; omega
        · have h₃ := length_of_readRule stop h
          rw [List.length_cons] at h₃
          omega

/-- Reads statements up to the end or the first error of form. -/
def readAll (ts : List Token) : Reading α :=
  match ts with
  | [] => ⟨[], none⟩
  | t :: more =>
    match _h : read stop (t :: more) with
    | .error e => ⟨[], some e⟩
    | .ok (s, rest) =>
      let r := readAll rest
      { r with statements := s :: r.statements }
termination_by ts.length
decreasing_by exact length_of_read stop _h

end Readers

end Statement

/-- The reading of a list of tokens. -/
def Reading.ofTokens (tokens : List Token) : Reading α :=
  Statement.readAll (Token.endOf tokens) tokens

end Verdict

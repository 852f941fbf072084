import Mathlib.Computability.Language
import Verdict.Proofs.Syntax.Unplaced

/-!
# Readers look one token ahead

What a reader does depends on the tokens that it reads and on the first one behind them (`Reads.ok`).
So the first error is where it is reported: in front of the token at fault the symbols can still go on,
with it there is the same error whatever comes behind (`Reads.error`, `Refused`). Readers are made of a few
parts, and each part hands this on to what is made of it (`Reads.bind`, `Reads.choose`).

The readers for the parts of a statement are put together from these (`reads_readArguments`,
`reads_readBody`); each reads off what the grammar writes for its part.
-/

namespace Verdict

variable {α β γ : Type}

/-! ## Where a reader gives up -/

/-- The kinds of token that denote constants. -/
def TokenKind.IsConstant : TokenKind → Prop
  | .identifier | .text | .truth _ => True
  | _ => False

/-- The symbol is what should have stood in the place of the text that was found. -/
def FormFault.Wants (found : String) (s : Symbol) : FormFault → Prop
  | .expected kind text => text = found ∧ s.1 = kind
  | .expectedTerm text => text = found ∧ (s.1 = .var ∨ s.1.IsConstant)
  | _ => False

/-- What reads off some of the tokens, given the place where the text ends. -/
abbrev Reader (β : Type) := Position → List Token → Except FormError (β × List Token)

section Reads

variable {L M : Language Symbol} {R : Reader β} {K : β → Reader γ} {ts : List Token}

/-- How a reader of `L` gives up: the tokens end where they could go on, or one of them can stand behind
those in front of it in no way. -/
inductive Refused (L : Language Symbol) (R : Reader β) (stop : Position) (ts : List Token) :
    FormError → Prop
  | ended {s : Symbol} {v : List Symbol} : ts.map Token.symbol ++ s :: v ∈ L →
    Refused L R stop ts ⟨.unexpectedEnd, stop⟩
  | met {before after : List Token} {t : Token} {fault : FormFault} {wanted : Symbol}
      {v : List Symbol} : ts = before ++ t :: after → fault.Wants t.text wanted →
    before.map Token.symbol ++ wanted :: v ∈ L →
    (∀ stop' after', R stop' (before ++ t :: after') = .error ⟨fault, t.position⟩) →
      Refused L R stop ts ⟨fault, t.position⟩

/-- On these tokens, `R` reads off symbols of `L` and looks one token ahead. -/
structure Reads (L : Language Symbol) (R : Reader β) (ts : List Token) : Prop where
  ok : ∀ stop b rest, R stop ts = .ok (b, rest) →
    ∃ front, ts = front ++ rest ∧ front.map Token.symbol ∈ L ∧
      ∀ stop' rest', rest'.head? = rest.head? → R stop' (front ++ rest') = .ok (b, rest')
  error : ∀ stop e, R stop ts = .error e → Refused L R stop ts e

theorem head?_append_congr {front : List Token} {a b : List Token} (h : a.head? = b.head?) :
    (front ++ a).head? = (front ++ b).head? := by
  simp [List.head?_append, h]

/-- With tokens in front that are read as before, and symbols behind that complete the others, a reader
gives up where it did. -/
theorem Refused.frame {R' : Reader γ} {stop : Position} {e : FormError} (front : List Token)
    (u : List Symbol) (h : Refused L R stop ts e)
    (hL : ∀ w ∈ L, front.map Token.symbol ++ (w ++ u) ∈ M)
    (hR : ∀ stop' us e, us.head? = ts.head? → R stop' us = .error e →
      R' stop' (front ++ us) = .error e) : Refused M R' stop (front ++ ts) e := by
  cases h with
  | @ended s v hv =>
    have hM := hL _ hv
    rw [List.append_assoc, ← List.append_assoc, ← List.map_append] at hM
    exact .ended hM
  | @met before after t fault wanted v hts hwants hv hsame =>
    have hsplit : front ++ ts = (front ++ before) ++ t :: after := by rw [hts, List.append_assoc]
    have hM := hL _ hv
    rw [List.append_assoc, ← List.append_assoc, ← List.map_append] at hM
    refine .met hsplit hwants hM ?_
    intro stop' after'
    rw [List.append_assoc]
    refine hR stop' _ _ ?_ (hsame stop' after')
    rw [hts]
    exact head?_append_congr rfl

theorem Reads.mono (h : Reads L R ts) (hLM : ∀ w ∈ L, w ∈ M) : Reads M R ts where
  ok stop b rest hread := by
    obtain ⟨front, hts, hfront, hsame⟩ := h.ok stop b rest hread
    exact ⟨front, hts, hLM _ hfront, hsame⟩
  error stop e hread :=
    .frame [] [] (h.error stop e hread) (by simpa using hLM) (fun _ _ _ _ herror => herror)

/-- It is enough to agree with a reader on tokens that begin as these do. -/
theorem Reads.congr {R' : Reader β} (h : Reads L R ts)
    (hR : ∀ stop us, us.head? = ts.head? → R' stop us = R stop us) : Reads L R' ts where
  ok stop b rest hread := by
    rw [hR stop ts rfl] at hread
    obtain ⟨front, rfl, hfront, hsame⟩ := h.ok stop b rest hread
    refine ⟨front, rfl, hfront, fun stop' rest' hhead => ?_⟩
    rw [hR stop' _ (head?_append_congr hhead)]
    exact hsame stop' rest' hhead
  error stop e hread := by
    rw [hR stop ts rfl] at hread
    refine .frame [] [] (h.error stop e hread) (by simp) (fun stop' us e' hhead herror => ?_)
    exact (hR stop' us hhead).trans herror

theorem Reads.pure (b : β) : Reads 1 (fun _ ts => .ok (b, ts)) ts where
  ok stop b' rest h := by
    cases h
    exact ⟨[], rfl, rfl, fun _ _ _ => rfl⟩
  error _ _ h := nomatch h

/-- **One reader behind another looks one token ahead if both do.** -/
theorem Reads.bind (hR : Reads L R ts)
    (hK : ∀ stop b rest, R stop ts = .ok (b, rest) → Reads M (K b) rest) (hM : ∃ w, w ∈ M) :
    Reads (L * M) (fun stop ts => R stop ts >>= fun r => K r.1 stop r.2) ts where
  ok stop c rest h := by
    obtain ⟨⟨b, mid⟩, hread, hnext⟩ := bind_eq_ok_iff.1 h
    obtain ⟨front, rfl, hfront, hsame⟩ := hR.ok stop b mid hread
    obtain ⟨front', rfl, hfront', hsame'⟩ := (hK stop b mid hread).ok stop c rest hnext
    refine ⟨front ++ front', (List.append_assoc _ _ _).symm, ?_, ?_⟩
    · rw [List.map_append]
      exact Language.append_mem_mul hfront hfront'
    · intro stop' rest' hhead
      have hmid : (front' ++ rest').head? = (front' ++ rest).head? := head?_append_congr hhead
      simp only [List.append_assoc, hsame stop' _ hmid]
      exact hsame' stop' rest' hhead
  error stop e h := by
    obtain ⟨w, hw⟩ := hM
    rcases bind_eq_error_iff.1 h with hread | ⟨⟨b, mid⟩, hread, hnext⟩
    · have hrefused := hR.error stop e hread
      refine .frame [] w hrefused (fun v hv => ?_) (fun stop' us e' _ herror => ?_)
      · exact Language.append_mem_mul (a := v) hv hw
      · exact bind_eq_error_iff.2 (Or.inl herror)
    · obtain ⟨front, rfl, hfront, hsame⟩ := hR.ok stop b mid hread
      have hrefused := (hK stop b mid hread).error stop e hnext
      refine .frame front [] hrefused (fun v hv => ?_) (fun stop' us e' hhead herror => ?_)
      · rw [List.append_nil]
        exact Language.append_mem_mul hfront hv
      · exact bind_eq_error_iff.2 (Or.inr ⟨_, hsame stop' us hhead, herror⟩)

theorem Reads.map (h : Reads L R ts) (f : β → γ) :
    Reads L (fun stop ts => R stop ts >>= fun r => .ok (f r.1, r.2)) ts := by
  have := h.bind (K := fun b _ ts => .ok (f b, ts)) (fun _ b _ _ => .pure (f b)) ⟨[], rfl⟩
  rw [mul_one] at this
  exact this

/-- **A choice by the next token looks one token ahead if both readers do.** -/
theorem Reads.choose {R' : Reader β} {p : Option Token → Bool}
    (h : p ts.head? = true → Reads L R ts) (h' : p ts.head? = false → Reads L R' ts) :
    Reads L (fun stop ts => if p ts.head? then R stop ts else R' stop ts) ts := by
  cases hp : p ts.head? with
  | true =>
    refine (h hp).congr fun stop us hhead => if_pos ?_
    rw [hhead, hp]
  | false =>
    refine (h' hp).congr fun stop us hhead => if_neg ?_
    rw [hhead, hp]
    exact Bool.false_ne_true

/-- A reader of one token. -/
theorem Reads.first (hnil : ∀ stop, R stop [] = .error ⟨.unexpectedEnd, stop⟩) (hL : ∃ s, [s] ∈ L)
    (hcons : ∀ t, (∃ b, [t.symbol] ∈ L ∧ ∀ stop more, R stop (t :: more) = .ok (b, more)) ∨
      ∃ fault wanted, fault.Wants t.text wanted ∧ [wanted] ∈ L ∧
        ∀ stop more, R stop (t :: more) = .error ⟨fault, t.position⟩) : Reads L R ts where
  ok stop b rest h := by
    cases ts with
    | nil =>
      rw [hnil] at h
      cases h
    | cons t more =>
      rcases hcons t with ⟨b', ht, hread⟩ | ⟨fault, wanted, -, -, hread⟩
      · rw [hread] at h
        cases h
        exact ⟨[t], rfl, ht, fun stop' rest' _ => hread stop' rest'⟩
      · rw [hread] at h
        cases h
  error stop e h := by
    cases ts with
    | nil =>
      rw [hnil] at h
      cases h
      obtain ⟨s, hs⟩ := hL
      exact .ended hs
    | cons t more =>
      rcases hcons t with ⟨b', -, hread⟩ | ⟨fault, wanted, hwants, hwanted, hread⟩
      · rw [hread] at h
        cases h
      · rw [hread] at h
        cases h
        have hsplit : t :: more = [] ++ t :: more := rfl
        exact .met hsplit hwants hwanted hread

end Reads

/-! ## The readers of the grammar -/

namespace Grammar

open Statement

/-- One symbol of the kind. -/
def one (kind : TokenKind) : Language Symbol := {w | ∃ text, w = [(kind, text)]}

def term (α : Type) : Language Symbol := {w | ∃ s, w = [s] ∧ ∃ t : Term α, Symbol.term? s = some t}

def terms (α : Type) : Language Symbol := {w | ∃ ts : List (Term α), OfTerms ts w}

def arguments (α : Type) : Language Symbol := {w | ∃ ts : List (Term α), OfArguments ts w}

def clauses (α : Type) : Language Symbol := {w | ∃ c : Clause α, OfClause c w}

def bodies (α : Type) : Language Symbol := {w | ∃ rule : Rule α, OfBody rule w}

theorem singleton_mem_one (kind : TokenKind) (text : String) : [(kind, text)] ∈ one kind :=
  ⟨text, rfl⟩

theorem one_nonempty (kind : TokenKind) : ∃ w, w ∈ one kind := ⟨_, "", rfl⟩

theorem terms_nonempty : ∃ w, w ∈ terms α := by
  have h : OfTerms [(.var "" : Term α)] [(.var, ""), (.rparen, "")] := .last rfl
  exact ⟨_, _, h⟩

theorem arguments_nonempty : ∃ w, w ∈ arguments α := ⟨_, _, .absent⟩

theorem bodies_nonempty : ∃ w, w ∈ bodies α := by
  have h : OfClause ({ relation := "", terms := [] } : Clause α) [(.identifier, "")] := .plain .absent
  exact ⟨_, _, .last h⟩

theorem mul_nonempty {L M : Language Symbol} (hL : ∃ w, w ∈ L) (hM : ∃ w, w ∈ M) :
    ∃ w, w ∈ L * M := by
  obtain ⟨w, hw⟩ := hL
  obtain ⟨v, hv⟩ := hM
  exact ⟨w ++ v, Language.append_mem_mul hw hv⟩

theorem forall_mem_mul {L M N : Language Symbol} (h : ∀ w ∈ L, ∀ v ∈ M, w ++ v ∈ N) :
    ∀ u ∈ L * M, u ∈ N := by
  intro u hu
  obtain ⟨w, hw, v, hv, rfl⟩ := Language.mem_mul.1 hu
  exact h w hw v hv

/-- Whether a token of the kind comes next. -/
def comesNext (kind : TokenKind) (t? : Option Token) : Bool :=
  t?.any (·.kind = kind)

section Readers

variable (ts : List Token)

theorem reads_expect (kind : TokenKind) : Reads (one kind) (fun stop => expect stop kind) ts := by
  refine .first (fun _ => rfl) ⟨(kind, ""), "", rfl⟩ fun t => ?_
  by_cases h : t.kind = kind
  · refine Or.inl ⟨t, ⟨t.text, ?_⟩, fun _ _ => if_pos h⟩
    rw [Token.symbol, h]
  · exact Or.inr ⟨.expected kind t.text, (kind, ""), ⟨rfl, rfl⟩, ⟨"", rfl⟩, fun _ _ => if_neg h⟩

theorem reads_readTerm : Reads (term α) (fun stop => readTerm (α := α) stop) ts := by
  refine .first (fun _ => rfl) ⟨(.var, ""), _, rfl, .var "", rfl⟩ fun t => ?_
  cases h : (term? t : Option (Term α)) with
  | some term =>
    refine Or.inl ⟨(t, term), ⟨_, rfl, term, h⟩, fun stop more => ?_⟩
    rw [readTerm, h]
  | none =>
    refine Or.inr ⟨.expectedTerm t.text, (.var, ""), ⟨rfl, Or.inl rfl⟩, ⟨_, rfl, .var "", rfl⟩,
      fun stop more => ?_⟩
    rw [readTerm, h]

/-- Behind a term stands a comma with more terms, or the closing parenthesis. -/
theorem readTerms_eq (stop : Position) : readTerms (α := α) stop ts =
    readTerm stop ts >>= fun a =>
      if comesNext .comma a.2.head? then
        expect stop .comma a.2 >>= fun c => readTerms stop c.2 >>= fun m => .ok (a.1 :: m.1, m.2)
      else expect stop .rparen a.2 >>= fun c => .ok ([a.1], c.2) := by
  cases ts with
  | nil => rfl
  | cons t ts =>
    cases h : (term? t : Option (Term α)) with
    | none => simp [readTerms, readTerm, h, bind, Except.bind]
    | some term =>
      cases ts with
      | nil => simp [readTerms, readTerm, expect, comesNext, h, bind, Except.bind]
      | cons sep rest =>
        by_cases hcomma : sep.kind = .comma
        · simp only [readTerms, readTerm, expect, comesNext, h, hcomma, bind, Except.bind,
            List.head?_cons, Option.any_some, decide_true, if_true]
          cases readTerms (α := α) stop rest <;> rfl
        · by_cases hclose : sep.kind = .rparen
          · simp [readTerms, readTerm, expect, comesNext, h, hclose, bind, Except.bind]
          · simp [readTerms, readTerm, expect, comesNext, h, hcomma, hclose, bind, Except.bind]

theorem reads_readTerms : Reads (terms α) (fun stop => readTerms (α := α) stop) ts := by
  induction hn : ts.length using Nat.strong_induction_on generalizing ts with
  | _ n ih =>
    subst hn
    have behind (stop : Position) (a : Argument α) (rest : List Token)
        (ha : readTerm stop ts = .ok (a, rest)) :
        Reads (one .comma * terms α + one .rparen) (fun stop ts =>
          if comesNext .comma ts.head? then
            expect stop .comma ts >>= fun c => readTerms stop c.2 >>= fun m => .ok (a :: m.1, m.2)
          else expect stop .rparen ts >>= fun c => .ok ([a], c.2)) rest := by
      obtain ⟨front, rfl, -, -⟩ := (reads_readTerm ts).ok stop a rest ha
      refine .choose (fun _ => ?_) (fun _ => ?_)
      · refine Reads.mono ?_ (fun _ => Or.inl)
        have more (stop : Position) (c : Token) (more : List Token)
            (hc : expect stop .comma rest = .ok (c, more)) :
            Reads (terms α) (fun stop ts =>
              readTerms stop ts >>= fun m => .ok (a :: m.1, m.2)) more := by
          have hlt : more.length < (front ++ rest).length := by
            have := length_of_expect stop hc
            rw [List.length_append]
            omega
          exact (ih _ hlt more rfl).map (a :: ·)
        exact (reads_expect rest .comma).bind more terms_nonempty
      · exact ((reads_expect rest .rparen).map fun _ => [a]).mono fun _ => Or.inr
    have hall := (reads_readTerm ts).bind behind ⟨_, Or.inr ⟨"", rfl⟩⟩
    refine (hall.congr fun stop ts _ => readTerms_eq ts stop).mono (forall_mem_mul ?_)
    rintro w ⟨s, rfl, t, hs⟩ v (hv | ⟨close, rfl⟩)
    · obtain ⟨_, ⟨comma, rfl⟩, v, ⟨ts, hts⟩, rfl⟩ := Language.mem_mul.1 hv
      exact ⟨t :: ts, .more hs hts⟩
    · exact ⟨[t], .last hs⟩

theorem readArguments_eq (stop : Position) : readArguments (α := α) stop ts =
    if comesNext .lparen ts.head? then
      expect stop .lparen ts >>= fun o =>
        if comesNext .rparen o.2.head? then expect stop .rparen o.2 >>= fun c => .ok ([], c.2)
        else readTerms stop o.2
    else .ok ([], ts) := by
  cases ts with
  | nil => rfl
  | cons t ts =>
    by_cases hopen : t.kind = .lparen
    · cases ts with
      | nil => simp [readArguments, expect, comesNext, hopen, bind, Except.bind]
      | cons u rest =>
        by_cases hclose : u.kind = .rparen
        · simp [readArguments, expect, comesNext, hopen, hclose, bind, Except.bind]
        · simp [readArguments, expect, comesNext, hopen, hclose, bind, Except.bind]
    · simp [readArguments, comesNext, hopen]

theorem reads_readArguments :
    Reads (arguments α) (fun stop => readArguments (α := α) stop) ts := by
  refine Reads.congr (.choose (fun _ => ?_) (fun _ => ?_)) fun stop ts _ =>
    readArguments_eq ts stop
  · have inside (stop : Position) (o : Token) (rest : List Token)
        (_ : expect stop .lparen ts = .ok (o, rest)) :
        Reads (one .rparen + terms α) (fun stop ts =>
          if comesNext .rparen ts.head? then
            expect stop .rparen ts >>= fun c => .ok (([] : List (Argument α)), c.2)
          else readTerms stop ts) rest := by
      refine .choose (fun _ => ?_) (fun _ => ?_)
      · exact ((reads_expect rest .rparen).map fun _ => []).mono fun _ => Or.inl
      · exact (reads_readTerms rest).mono fun _ => Or.inr
    have hall := (reads_expect ts .lparen).bind inside ⟨_, Or.inl ⟨"", rfl⟩⟩
    refine hall.mono (forall_mem_mul ?_)
    rintro w ⟨opening, rfl⟩ v (⟨close, rfl⟩ | ⟨ts, hts⟩)
    · exact ⟨[], .empty⟩
    · exact ⟨ts, .some hts⟩
  · refine (Reads.pure []).mono ?_
    rintro w rfl
    exact ⟨[], .absent⟩

theorem readNegation_eq (stop : Position) : (.ok (readNegation ts) : Except FormError _) =
    if comesNext .negation ts.head? then expect stop .negation ts >>= fun c => .ok (true, c.2)
    else .ok (false, ts) := by
  cases ts with
  | nil => rfl
  | cons t rest =>
    by_cases h : t.kind = .negation
    · simp [readNegation, expect, comesNext, h, bind, Except.bind]
    · simp [readNegation, comesNext, h]

theorem reads_readNegation :
    Reads (one .negation + 1) (fun _ ts => .ok (readNegation ts)) ts := by
  refine Reads.congr (.choose (fun _ => ?_) (fun _ => ?_)) fun stop ts _ =>
    readNegation_eq ts stop
  · exact ((reads_expect ts .negation).map fun _ => true).mono fun _ => Or.inl
  · exact (Reads.pure false).mono fun _ => Or.inr

theorem reads_readClause : Reads (clauses α) (fun stop => readClause (α := α) stop) ts := by
  have atom (negated : Bool) (ts : List Token) :
      Reads (one .identifier * arguments α) (fun stop ts => expect stop .identifier ts >>= fun n =>
        readArguments stop n.2 >>= fun a =>
          .ok ({ relation := n.1.text, terms := a.1.map Prod.snd, negated : Clause α }, a.2)) ts := by
    have behind (stop : Position) (n : Token) (rest : List Token)
        (_ : expect stop .identifier ts = .ok (n, rest)) :
        Reads (arguments α) (fun stop ts => readArguments stop ts >>= fun a =>
          .ok ({ relation := n.text, terms := a.1.map Prod.snd, negated : Clause α }, a.2)) rest :=
      (reads_readArguments rest).map fun args : List (Argument α) =>
        { relation := n.text, terms := args.map Prod.snd, negated : Clause α }
    exact (reads_expect ts .identifier).bind behind arguments_nonempty
  have hall := (reads_readNegation ts).bind (fun _ negated rest _ => atom negated rest)
    (mul_nonempty (one_nonempty _) arguments_nonempty)
  refine Reads.mono hall (forall_mem_mul ?_)
  intro u hu v hv
  obtain ⟨_, ⟨name, rfl⟩, v, ⟨ts, hts⟩, rfl⟩ := Language.mem_mul.1 hv
  rcases hu with ⟨word, rfl⟩ | rfl
  · exact ⟨_, .denied hts⟩
  · exact ⟨_, .plain hts⟩

/-- Behind a clause stands a comma with more clauses, or the body is at its end. -/
theorem readBody_eq (stop : Position) : readBody (α := α) stop ts =
    readClause stop ts >>= fun c =>
      if comesNext .comma c.2.head? then
        expect stop .comma c.2 >>= fun s => readBody stop s.2 >>= fun b => .ok (c.1 :: b.1, b.2)
      else .ok ([c.1], c.2) := by
  cases h : readClause (α := α) stop ts with
  | error e => exact readBody_of_error stop h
  | ok r =>
    obtain ⟨c, rest⟩ := r
    rw [readBody_of_readClause stop h]
    cases rest with
    | nil => rfl
    | cons t more =>
      by_cases hcomma : t.kind = .comma
      · simp only [comesNext, expect, hcomma, bind, Except.bind, List.head?_cons, Option.any_some,
          decide_true, if_true]
        cases readBody (α := α) stop more <;> rfl
      · simp [comesNext, hcomma, bind, Except.bind]

theorem reads_readBody : Reads (bodies α) (fun stop => readBody (α := α) stop) ts := by
  induction hn : ts.length using Nat.strong_induction_on generalizing ts with
  | _ n ih =>
    subst hn
    have behind (stop : Position) (c : Clause α) (rest : List Token)
        (hc : readClause stop ts = .ok (c, rest)) :
        Reads (one .comma * bodies α + 1) (fun stop ts =>
          if comesNext .comma ts.head? then
            expect stop .comma ts >>= fun s => readBody stop s.2 >>= fun b => .ok (c :: b.1, b.2)
          else .ok ([c], ts)) rest := by
      refine .choose (fun _ => ?_) (fun _ => ?_)
      · refine Reads.mono ?_ (fun _ => Or.inl)
        have more (stop' : Position) (s : Token) (more : List Token)
            (hs : expect stop' .comma rest = .ok (s, more)) :
            Reads (bodies α) (fun stop ts =>
              readBody stop ts >>= fun b => .ok (c :: b.1, b.2)) more := by
          have hlt : more.length < ts.length := by
            have h₁ := length_of_readClause stop hc
            have h₂ := length_of_expect stop' hs
            omega
          exact (ih _ hlt more rfl).map (c :: ·)
        exact (reads_expect rest .comma).bind more bodies_nonempty
      · exact (Reads.pure [c]).mono fun _ => Or.inr
    have hall := (reads_readClause ts).bind behind ⟨[], Or.inr rfl⟩
    refine (hall.congr fun stop ts _ => readBody_eq ts stop).mono (forall_mem_mul ?_)
    rintro w ⟨c, hc⟩ v (hv | rfl)
    · obtain ⟨_, ⟨comma, rfl⟩, v, ⟨rule, hrule⟩, rfl⟩ := Language.mem_mul.1 hv
      exact ⟨c :: rule, .more hc hrule⟩
    · rw [List.append_nil]
      exact ⟨[c], .last hc⟩

end Readers

end Grammar

end Verdict

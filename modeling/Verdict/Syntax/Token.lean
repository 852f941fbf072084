import Verdict.Syntax.Error

/-!
# Lexemes and tokens

A program text is cut into lexemes: layout, comments and tokens. `scan` takes the first lexeme off a
text, and loses nothing (`scan_eq_append`); `lexemes` repeats this to the end and notes where each
lexeme starts; `tokenize` keeps the tokens.

Letters and digits of words are those of ASCII. A quoted text may run over several lines, but a
backslash before a line feed is no escape, and a text that holds one has no end.
-/

namespace Verdict

namespace Lexeme

inductive Kind where
  /-- A run of spaces, tabs and line ends. -/
  | layout
  /-- A comment up to the end of the line. -/
  | comment
  | token (kind : TokenKind)
deriving DecidableEq, Repr

end Lexeme

/-- A piece of program text. -/
structure Lexeme where
  kind : Lexeme.Kind
  text : List Char
  position : Position
deriving DecidableEq, Repr

/-- A piece of program text that means something. -/
structure Token where
  kind : TokenKind
  /-- Its characters, quotes and escapes included. -/
  text : String
  position : Position
deriving DecidableEq, Repr

namespace Lexeme

def isLayout (c : Char) : Bool :=
  c == ' ' || c == '\t' || c == '\r' || c == '\n'

def isSmall (c : Char) : Bool := 'a' ≤ c && c ≤ 'z'

def isCapital (c : Char) : Bool := 'A' ≤ c && c ≤ 'Z'

/-- Whether `c` can go on a word. -/
def inWord (c : Char) : Bool :=
  isSmall c || isCapital c || ('0' ≤ c && c ≤ '9') || c == '_'

/-- The kind of a word with a small first letter. -/
def wordKind (word : List Char) : TokenKind :=
  if word = ['n', 'o', 't'] then .negation
  else if word = ['t', 'r', 'u', 'e'] then .truth true
  else if word = ['f', 'a', 'l', 's', 'e'] then .truth false
  else .identifier

/-- Splits what follows an opening quote behind the quote that closes it. -/
def closeQuote (mark : Char) : List Char → Option (List Char × List Char)
  | [] => none
  | '\\' :: c :: cs =>
    if c = '\n' then none
    else (closeQuote mark cs).map fun (body, rest) => ('\\' :: c :: body, rest)
  | c :: cs =>
    if c = mark then some ([c], cs)
    else if c = '\\' then none
    else (closeQuote mark cs).map fun (body, rest) => (c :: body, rest)

/-- How a lexeme goes on after its first character. -/
inductive Opening where
  | layout
  | comment
  /-- The first half of the arrow. -/
  | arrow
  | mark (kind : TokenKind)
  | capital
  | small
  | quote
deriving DecidableEq, Repr

/-- The lexemes that start with `c`. No character starts two of them. -/
def opening? (c : Char) : Option Opening :=
  if isLayout c then some .layout
  else if isCapital c then some .capital
  else if isSmall c then some .small
  else match c with
    | '%' => some .comment
    | ':' => some .arrow
    | ',' => some (.mark .comma)
    | '(' => some (.mark .lparen)
    | ')' => some (.mark .rparen)
    | '.' => some (.mark .dot)
    | '"' | '\'' => some .quote
    | _ => none

/-- Takes the first lexeme off a text: its kind, its characters and the rest. -/
def scan : List Char → Option (Kind × List Char × List Char)
  | [] => none
  | c :: cs =>
    match opening? c with
    | none => none
    | some .layout => some (.layout, c :: cs.takeWhile isLayout, cs.dropWhile isLayout)
    | some .comment => some (.comment, c :: cs.takeWhile (· != '\n'), cs.dropWhile (· != '\n'))
    | some .arrow =>
      -- A colon alone is no lexeme.
      if cs.head? = some '-' then some (.token .arrow, [c, '-'], cs.tail) else none
    | some (.mark kind) => some (.token kind, [c], cs)
    | some .capital => some (.token .var, c :: cs.takeWhile inWord, cs.dropWhile inWord)
    | some .small =>
      let word := c :: cs.takeWhile inWord
      some (.token (wordKind word), word, cs.dropWhile inWord)
    | some .quote => (closeQuote c cs).map fun (body, rest) => (.token .text, c :: body, rest)

theorem closeQuote_eq_append {mark : Char} {cs body rest : List Char}
    (h : closeQuote mark cs = some (body, rest)) : cs = body ++ rest := by
  fun_induction closeQuote mark cs generalizing body with
  | case1 => cases h
  | case2 => cases h
  | case3 c cs hc ih =>
    obtain ⟨⟨b, r⟩, hb, e⟩ := Option.map_eq_some_iff.1 h
    cases e
    simp [ih hb]
  | case4 => cases h; rfl
  | case5 => cases h
  | case6 c cs _ hc hb ih =>
    obtain ⟨⟨b, r⟩, hb, e⟩ := Option.map_eq_some_iff.1 h
    cases e
    simp [ih hb]

/-- Scanning splits the text into a first part that is not empty, and the rest. -/
theorem scan_eq_append {cs text rest : List Char} {kind : Kind}
    (h : scan cs = some (kind, text, rest)) : cs = text ++ rest ∧ text ≠ [] := by
  cases cs with
  | nil => cases h
  | cons c cs =>
    have run (p : Char → Bool) : c :: cs = (c :: cs.takeWhile p) ++ cs.dropWhile p := by simp
    rw [scan] at h
    cases ho : opening? c with
    | none => rw [ho] at h; cases h
    | some o =>
      rw [ho] at h
      cases o with
      | layout => cases h; exact ⟨run _, by simp⟩
      | comment => cases h; exact ⟨run _, by simp⟩
      | capital => cases h; exact ⟨run _, by simp⟩
      | small => cases h; exact ⟨run _, by simp⟩
      | mark kind => cases h; exact ⟨rfl, by simp⟩
      | arrow =>
        cases cs with
        | nil => cases h
        | cons d ds =>
          by_cases hd : d = '-'
          · subst hd; cases h; exact ⟨rfl, by simp⟩
          · simp [hd] at h
      | quote =>
        obtain ⟨⟨b, r⟩, hb, e⟩ := Option.map_eq_some_iff.1 h
        cases e
        exact ⟨by rw [closeQuote_eq_append hb]; rfl, by simp⟩

theorem length_scan_lt {cs text rest : List Char} {kind : Kind}
    (h : scan cs = some (kind, text, rest)) : rest.length < cs.length := by
  obtain ⟨rfl, ne⟩ := scan_eq_append h
  have := List.length_pos_iff.2 ne
  rw [List.length_append]
  omega

/-- The lexemes of a text that starts at the given place. -/
def lexemesFrom (p : Position) (cs : List Char) : Except FormError (List Lexeme) :=
  match _h : scan cs with
  | some (kind, text, rest) =>
    (lexemesFrom (p.advance text) rest).map ({ kind, text, position := p } :: ·)
  | none =>
    match cs with
    | [] => .ok []
    | c :: _ => .error ⟨.unexpectedCharacter c, p⟩
termination_by cs.length
decreasing_by exact length_scan_lt _h

/-- The token, unless the lexeme is layout or a comment. -/
def token? (l : Lexeme) : Option Token :=
  match l.kind with
  | .token kind => some { kind, text := String.ofList l.text, position := l.position }
  | _ => none

end Lexeme

def lexemes (source : String) : Except FormError (List Lexeme) :=
  Lexeme.lexemesFrom .start source.toList

def tokenize (source : String) : Except FormError (List Token) :=
  (lexemes source).map (·.filterMap Lexeme.token?)

namespace Token

/-- The character that a backslash and `c` stand for. -/
def unescape (c : Char) : Char :=
  if c = 'n' then '\n' else if c = 't' then '\t' else if c = 'r' then '\r' else c

def unescapeAll : List Char → List Char
  | '\\' :: c :: cs => unescape c :: unescapeAll cs
  | c :: cs => c :: unescapeAll cs
  | [] => []

def unquote (text : String) : String :=
  String.ofList (unescapeAll (text.toList.tail.dropLast))

/-- The place behind a token, as if it stood on one line. -/
def stop (t : Token) : Position :=
  { t.position with column := t.position.column + t.text.length }

/-- Where a text made of these tokens ends. -/
def endOf (tokens : List Token) : Position :=
  (tokens.getLast?.map stop).getD .start

end Token

end Verdict

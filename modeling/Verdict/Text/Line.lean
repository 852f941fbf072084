import Verdict.Text.Split

/-!
# Lines

Cutting a text into lines. A line ends at a line feed, a carriage return, the two together, or one
of the rarer separators; the break belongs to no line, and a break at the very end opens no further
line.
-/

namespace Verdict.Text

/-- Whether `c` ends a line. -/
def isLineBreak (c : Char) : Bool :=
  c == '\n' || c == '\r' || c == '\x0b' || c == '\x0c' || c == '\x1c' || c == '\x1d' ||
    c == '\x1e' || c == '\u0085' || c == '\u2028' || c == '\u2029'

/-- The lines of a text, without their breaks. -/
def lines : List Char → List (List Char)
  | [] => []
  | '\r' :: '\n' :: cs => [] :: lines cs
  | c :: cs => if isLineBreak c then [] :: lines cs else consFirst c (lines cs)

/-- Every line break of a file becomes a single line feed: `\r\n` together, and `\r` alone. -/
def normalizeNewlines : List Char → List Char
  | [] => []
  | '\r' :: '\n' :: cs => '\n' :: normalizeNewlines cs
  | c :: cs => (if c == '\r' then '\n' else c) :: normalizeNewlines cs

theorem lines_eq_singleton {cs : List Char} (ne : cs ≠ [])
    (h : ∀ c ∈ cs, isLineBreak c = false) : lines cs = [cs] := by
  fun_induction lines cs with
  | case1 => contradiction
  | case2 cs => simp [isLineBreak] at h
  | case3 c cs _ hc => simp [h c] at hc
  | case4 c cs _ _ ih =>
    cases cs with
    | nil => rfl
    | cons d ds => rw [ih (by simp) fun x hx => h x (List.mem_cons_of_mem _ hx)]; rfl

end Verdict.Text

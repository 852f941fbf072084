import Verdict.Files.Tree
import Verdict.Text.Quoted

/-!
# Path patterns

A pattern selects paths below a directory. It is written like a path, and its components are matched
one by one: a plain name stands for itself, `..` for the parent directory, `**` for any number of
directories, also none, and a component with `*`, `?` or a bracketed class for every name that it
matches. A slash at the end selects directories only.

Classes are written as in shells: `[abc]`, `[a-z]`, `[!abc]`. A bracket that comes first is a member,
and one that is never closed stands for itself. A range whose ends are reversed vanishes, and if that
brings an exclamation mark to the front, it negates the class.

`Tree.select` lists the selected paths in order of their steps.
-/

namespace Verdict

/-- Why a text is no pattern. -/
inductive PatternError where
  | empty
  /-- It starts at the root of the file system. -/
  | absolute
  /-- Two stars stand beside something else in a component. -/
  | doubleStar
  /-- It has no component; if it is written with a slash at the end, it asks for directories. -/
  | noComponent (directoriesOnly : Bool)
deriving DecidableEq, Repr

def PatternError.message : PatternError → String
  | empty => "Unacceptable pattern: " ++ Text.quote ""
  | absolute => "Non-relative patterns are unsupported"
  | doubleStar => "Invalid pattern: '**' can only be an entire path component"
  | noComponent false => "tuple index out of range"
  | noComponent true => "'_TerminatingSelector' object has no attribute 'select_from'"

namespace Pattern

/-! ## Names -/

/-- A member of a class. -/
inductive Member where
  | single (c : Char)
  /-- The characters from one to another. -/
  | range (a b : Char)
deriving DecidableEq, Repr

def Member.accepts : Member → Char → Bool
  | single d, c => c = d
  | range a b, c => a ≤ c && c ≤ b

/-- Whether a range, if it is one, does not run backwards. -/
def Member.isOrdered : Member → Bool
  | single _ => true
  | range a b => a ≤ b

/-- What one place of a name pattern matches. -/
inductive Piece where
  /-- Any characters, also none. -/
  | star
  | any
  | exactly (c : Char)
  /-- One character that is a member, or one that is none. -/
  | oneOf (negated : Bool) (members : List Member)
deriving DecidableEq, Repr

/-- The members of a class: a hyphen with a character on either side makes a range. -/
def members : List Char → List Member
  | a :: '-' :: b :: rest => .range a b :: members rest
  | a :: rest => .single a :: members rest
  | [] => []

def classOf (body : List Char) : Piece :=
  match body with
  | '!' :: rest => .oneOf true ((members rest).filter Member.isOrdered)
  | _ =>
    -- Ranges that run backwards vanish before the mark of negation is looked for.
    match (members body).filter Member.isOrdered with
    | .single '!' :: rest => .oneOf true rest
    -- A range loses its start to the mark, and its hyphen then stands for itself.
    | .range '!' b :: rest => .oneOf true (.single '-' :: .single b :: rest)
    | ms => .oneOf false ms

/-- Takes the character off the start, if it is there. -/
def takeOne (c : Char) (cs : List Char) : List Char × List Char :=
  if cs.head? = some c then ([c], cs.tail) else ([], cs)

theorem length_of_takeOne (c : Char) (cs : List Char) : (takeOne c cs).2.length ≤ cs.length := by
  unfold takeOne
  split <;> simp

/-- Splits what follows an opening bracket at the bracket that closes it. A bracket right at the
start, or right behind the mark of negation, is a member. -/
def closeClass (cs : List Char) : Option (List Char × List Char) :=
  let (mark, cs) := takeOne '!' cs
  let (first, cs) := takeOne ']' cs
  match cs.dropWhile (· != ']') with
  | [] => none
  | _ :: rest => some (mark ++ first ++ cs.takeWhile (· != ']'), rest)

theorem length_of_closeClass {cs body rest : List Char} (h : closeClass cs = some (body, rest)) :
    rest.length < cs.length := by
  unfold closeClass at h
  dsimp only at h
  split at h
  · cases h
  · next e =>
    cases h
    have h₁ := length_of_takeOne '!' cs
    have h₂ := length_of_takeOne ']' (takeOne '!' cs).2
    have h₃ := (List.dropWhile_sublist (l := (takeOne ']' (takeOne '!' cs).2).2) (· != ']')).length_le
    rw [e, List.length_cons] at h₃
    omega

def pieces (cs : List Char) : List Piece :=
  match cs with
  | [] => []
  | '*' :: rest => .star :: pieces rest
  | '?' :: rest => .any :: pieces rest
  | '[' :: rest =>
    match _h : closeClass rest with
    | some (body, rest) => classOf body :: pieces rest
    | none => .exactly '[' :: pieces rest
  | c :: rest => .exactly c :: pieces rest
termination_by cs.length
decreasing_by
  all_goals simp only [List.length_cons]
  · exact Nat.lt_succ_self _
  · exact Nat.lt_succ_self _
  · exact Nat.lt_succ_of_lt (length_of_closeClass _h)
  · exact Nat.lt_succ_self _
  · exact Nat.lt_succ_self _

/-- Whether a character is what a piece other than the star asks for. -/
def Piece.accepts : Piece → Char → Bool
  | star, _ => false
  | any, _ => true
  | exactly d, c => c = d
  | oneOf negated ms, c => (ms.any fun m => m.accepts c) != negated

def matchesName : List Piece → List Char → Bool
  | [], [] => true
  | [], _ :: _ => false
  | .star :: ps, [] => matchesName ps []
  | .star :: ps, c :: cs => matchesName ps (c :: cs) || matchesName (.star :: ps) cs
  | _ :: _, [] => false
  | p :: ps, c :: cs => p.accepts c && matchesName ps cs
termination_by ps cs => (ps.length, cs.length)

/-! ## Paths -/

/-- What one component of a pattern stands for. -/
inductive Component where
  /-- The thing of this name. -/
  | name (s : String)
  | parent
  /-- Everything whose name matches. -/
  | wildcard (ps : List Piece)
  /-- Every directory below, and this one. -/
  | anyDepth
deriving DecidableEq, Repr

def hasDoubleStar : List Char → Bool
  | '*' :: '*' :: _ => true
  | _ :: cs => hasDoubleStar cs
  | [] => false

/-- The component that is written so. -/
def Component.ofString (s : String) : Except PatternError Component :=
  let cs := s.toList
  if s = "**" then .ok .anyDepth
  else if s = Path.up then .ok .parent
  else if hasDoubleStar cs then .error .doubleStar
  else if cs.any fun c => c = '*' ∨ c = '?' ∨ c = '[' then .ok (.wildcard (pieces cs))
  else .ok (.name s)

end Pattern

structure Pattern where
  components : List Pattern.Component
  /-- Whether only directories are meant. -/
  directoriesOnly : Bool

/-- The pattern that is written so. -/
def Pattern.ofString (s : String) : Except PatternError Pattern := do
  if s = "" then throw .empty
  if s.toList.head? = some '/' then throw .absolute
  let directoriesOnly : Bool := s.toList.getLast? = some '/'
  let components ← (Path.ofString s).steps.mapM Component.ofString
  if components = [] then throw (.noComponent directoriesOnly)
  return { components, directoriesOnly }

/-- A directory or file that was reached: by which path, and where it is. -/
structure Place where
  /-- The path, which may lead upwards now and then. -/
  path : Path
  location : Location
deriving DecidableEq, Repr

/-- The place of a name in a directory. -/
def Place.child (p : Place) (name : String) : Place where
  path := p.path.step name
  location := p.location ++ [name]

/-- Refuses a place whose path is too long to enter the directory there. -/
def Place.enter (p : Place) : Except FileError Unit :=
  if Path.maxByteSize < p.path.byteSize then .error .tooLong else .ok ()

namespace Tree

open Pattern

/-- The places that match the rest of a pattern, from a directory. -/
def selectFrom (t : Tree) (directoriesOnly : Bool) :
    List Component → Place → Except FileError (List Place)
  | [], place => .ok [place]
  | component :: rest, place => do
    let wanted (e : Entry) : Bool := e.isDirectory || (rest.isEmpty && ! directoriesOnly)
    let next ← match component with
      | .name s =>
        let child := place.child s
        match ← t.seek child.path with
        | some (_, e) => pure (if wanted e then [child] else [])
        | none => pure []
      | .parent =>
        pure [{ path := place.path.step Path.up, location := place.location.dropLast : Place }]
      | .wildcard ps =>
        place.enter
        pure <| (t.childrenOf place.location).filterMap fun (name, e) =>
          if wanted e && matchesName ps name.toList then some (place.child name) else none
      | .anyDepth =>
        let below := (t.directoriesFrom place.location).map fun l =>
          (l.drop place.location.length).foldl Place.child place
        below.forM Place.enter
        pure below
    let found ← next.mapM (t.selectFrom directoriesOnly rest)
    return found.flatten.eraseDups

/-- The paths that a pattern selects below a directory, from the root and in order. A directory that is
missing, or a file, has none. -/
def select (t : Tree) (directory : Path) (p : Pattern) : Except FileError (List Path) := do
  let path := t.resolve directory
  match ← t.seek path with
  | some (location, .directory) =>
    let places ← t.selectFrom p.directoriesOnly p.components { path, location }
    return (places.map (·.path)).mergeSort Path.precedes
  | _ => return []

end Tree

end Verdict

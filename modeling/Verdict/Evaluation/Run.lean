import Verdict.Evaluation.Rule

/-!
# Rounds and runs

A *round* recomputes every predicate from scratch, in declared order, and writes each result to the
store at once, so that later predicates of the round see it. Since predicates are recomputed and not
only grown, a fact may disappear again once the relation that its rule denies has caught up.

A *run* repeats rounds until one of them changes nothing, or until the cap is reached. It keeps the
store after each round, the *snapshots*; the last snapshot of a run that settles is the fixpoint.
Nothing here looks for negation that cannot be stratified: such a program settles on the fixpoint
that its order leads to, or runs into the cap.
-/

namespace Verdict

variable {α : Type} [DecidableEq α]

namespace Program

/-- Recomputes one predicate: the store with the new facts, or `none` if it holds just these facts
already. A predicate without an entry compares as empty, so one that never derives anything gets no
entry. -/
def update (p : Program α) (store : Store α) (name : String) (pred : Predicate α) :
    Except (UnifyError α) (Option (Store α)) := do
  let derived ← p.derive store pred
  return if ((store.get? name).getD ∅).SameFacts derived then none
    else some (store.insert name derived)

/-- Recomputes the given predicates one after another, and says whether one of them changed. -/
def sweep (p : Program α) :
    List (String × Predicate α) → Store α → Except (UnifyError α) (Store α × Bool)
  | [], store => .ok (store, false)
  | (name, pred) :: rest, store => do
    match ← p.update store name pred with
    | none => p.sweep rest store
    -- The later predicates already see the change.
    | some changed => return ((← p.sweep rest changed).1, true)

/-- One round: recomputes every predicate in declared order. -/
def round (p : Program α) (store : Store α) : Except (UnifyError α) (Store α × Bool) :=
  p.sweep p.predicates store

end Program

inductive Ending (α : Type := Empty) where
  /-- The last round changed nothing. -/
  | settled
  /-- Every allowed round changed something. -/
  | capReached
  /-- A round could not be completed. -/
  | failed (e : UnifyError α)
deriving DecidableEq, Repr

structure Run (α : Type := Empty) where
  snapshots : List (Store α)
  ending : Ending α

def Run.cons (store : Store α) (r : Run α) : Run α :=
  { r with snapshots := store :: r.snapshots }

/-- At most `n` rounds, starting from a store. -/
def Program.run (p : Program α) : Nat → Store α → Run α
  | 0, _ => ⟨[], .capReached⟩
  | n + 1, store =>
    match p.round store with
    | .error e => ⟨[], .failed e⟩
    | .ok (next, true) => .cons next (p.run n next)
    | .ok (next, false) => ⟨[next], .settled⟩

/-! ## The cap -/

/-- How many rounds an evaluation may take: at least one. -/
structure Cap where
  rounds : Nat
  pos : 0 < rounds := by decide
deriving DecidableEq, Repr

structure CapError where
  asked : Int
deriving DecidableEq, Repr

def CapError.message (e : CapError) : String :=
  s!"max_iterations must be positive, got {e.asked}"

namespace Cap

/-- The cap in use unless another is asked for. -/
def standard : Cap := { rounds := 1000 }

def ofInt (n : Int) : Except CapError Cap :=
  if h : 0 < n.toNat then .ok ⟨n.toNat, h⟩ else .error ⟨n⟩

end Cap

/-- The snapshots of a run under a cap, and its ending. With `take`, only so many rounds are asked
for; then there is no ending unless the run ended before. -/
def Program.rounds (p : Program α) (cap : Cap) (take : Option Nat) :
    List (Store α) × Option (Ending α) :=
  match take with
  | none =>
    let r := p.run cap.rounds p.computed
    (r.snapshots, some r.ending)
  | some k =>
    let r := p.run (min cap.rounds k) p.computed
    (r.snapshots, if r.snapshots.length = k then none else some r.ending)

end Verdict

/-! # Runs of code points

Character properties are given by tables of runs of code points, sorted and disjoint.  A run has a
first and a last member and a step: letters whose two cases alternate form runs of step two. -/

namespace Schemata.Text

/-- The code points `first, first + step, …, last`. -/
structure CodeRun where
  first : Nat
  last : Nat
  step : Nat
deriving Repr

/-- Membership of a code point in a run. -/
def CodeRun.contains (run : CodeRun) (n : Nat) : Bool :=
  run.first ≤ n && n ≤ run.last && (n - run.first) % run.step == 0

/-- Membership of a code point in one of several closed ranges. -/
def inRanges (ranges : List (Nat × Nat)) (n : Nat) : Bool :=
  ranges.any fun r => r.1 ≤ n && n ≤ r.2

/-- Membership of a code point in one of several runs. -/
def inRuns (runs : List CodeRun) (n : Nat) : Bool :=
  runs.any (·.contains n)

/-- A run of code points that one displacement maps to their counterparts in the other case. -/
structure CaseRun extends CodeRun where
  shift : Int
deriving Repr

/-- The counterpart of a code point, itself when no run has it. -/
def shifted (runs : List CaseRun) (n : Nat) : Nat :=
  match runs.find? (·.contains n) with
  | some run => (Int.ofNat n + run.shift).toNat
  | none => n

end Schemata.Text

import PocketCalc.Number.Decimal

/-!
# The shortest decimal that reads back

Of the decimals whose nearest double is a given one, `shortest` finds one with the fewest
significant digits, and among those the closest. It walks down the decimal places from the leading
digit. At each place only the two neighbours of the number need a look, and the walk ends because
at place `-1074` the number is its own neighbour.
-/

namespace PocketCalc.Number

/-- Which of two equally close decimals is preferred. -/
inductive Tie where
  /-- The larger one. -/
  | up
  /-- The one whose last digit is even. -/
  | even
  deriving DecidableEq

/-- Whether the larger of two neighbours wins a tie, given the coefficient of the smaller. -/
def Tie.prefersUpper (tie : Tie) (below : Nat) : Bool :=
  match tie with
  | .up => true
  | .even => below % 2 == 1

/-- The multiples of `10 ^ place` on either side of `num / den`, the closer one first. -/
def neighbours (tie : Tie) (num den : Nat) (place : Int) : List Decimal :=
  let scaled := inPlaces num den place
  let below := scaled.1 / scaled.2
  let rest := 2 * (scaled.1 % scaled.2)
  if scaled.2 < rest ∨ (scaled.2 = rest ∧ tie.prefersUpper below) then
    [⟨below + 1, place⟩, ⟨below, place⟩]
  else
    [⟨below, place⟩, ⟨below + 1, place⟩]

/-- The walk down the places: `steps` places above `-1074` are still to be tried. -/
def shortestFrom (tie : Tie) (rank : Nat) : Nat → Decimal
  | 0 => ⟨units rank * Nat.pow 5 1074, -1074⟩
  | steps + 1 =>
    match (neighbours tie (units rank) unitsPerOne ((steps : Int) + 1 - 1074)).find?
        (·.rank == rank) with
    | some d => d
    | none => shortestFrom tie rank steps

/-- The shortest decimal whose nearest double has the given rank, which is finite and not zero. -/
def shortest (tie : Tie) (rank : Nat) : Decimal :=
  (shortestFrom tie rank (decade (units rank) unitsPerOne + 1074).toNat).trimmed

end PocketCalc.Number

import PocketCalc.Evaluation

/-!
# Calculators

A calculator is what a session works with throughout: the environment that expressions are
evaluated in and the precision that results are shown with. It never changes during a session.
-/

namespace PocketCalc

/-- The fixed part of a session. -/
structure Calculator where
  env : Environment := {}
  /-- Significant digits shown. -/
  precision : Nat := Number.defaultPrecision
  deriving DecidableEq

namespace Calculator

/-- Evaluates a text and shows the value. -/
def report (calculator : Calculator) (cs : List Char) : Report :=
  Report.ofText calculator.env calculator.precision cs

/-- The text of a number on the display. -/
def shown (calculator : Calculator) (x : Float) : List Char := Number.shown calculator.precision x

end Calculator

end PocketCalc

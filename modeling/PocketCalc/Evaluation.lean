import PocketCalc.Expr.Eval
import PocketCalc.Expr.Parse
import PocketCalc.Number.Shown
import PocketCalc.Text.JsonString

/-!
# Evaluating text

From a text to a number: two stars take the place of every `pow`, the result is parsed, and the
tree is evaluated. A report keeps what was asked beside what came out.
-/

namespace PocketCalc

/-- The text with two stars in place of each `pow`, from left to right, also inside a longer
name. -/
def expandPow : List Char → List Char
  | [] => []
  | 'p' :: 'o' :: 'w' :: cs => '*' :: '*' :: expandPow cs
  | c :: cs => c :: expandPow cs

/-- The number that a text evaluates to. -/
def evaluate (env : Environment) (cs : List Char) : Except Error Float := do
  let tree ← (Expr.parse (expandPow cs)).mapError .malformed
  (← tree.eval env).asNumber

/-- The outcome of an evaluation. -/
inductive Report where
  /-- The text, its value, and the value as the display shows it. -/
  | success (expression : String) (value : Float) (display : String)
  | failure (expression : String) (error : Error)
  deriving DecidableEq

namespace Report

/-- Evaluates a text, ignoring blanks around it, and shows the value. A blank text has nothing to
evaluate. -/
def ofText (env : Environment) (precision : Nat) (cs : List Char) : Report :=
  let trimmed := Text.trim cs
  let expression := String.ofList trimmed
  if trimmed.isEmpty then .failure expression .emptyInput
  else match evaluate env trimmed with
    | .ok value => .success expression value (String.ofList (Number.shown precision value))
    | .error error => .failure expression error

/-- The text that was evaluated. -/
def expression : Report → String
  | .success expression _ _ => expression
  | .failure expression _ => expression

/-- What the display shows: the value or a short message. -/
def display : Report → String
  | .success _ _ display => display
  | .failure _ error => error.shortMessage

/-- The value or the error. -/
def result : Report → Except Error Float
  | .success _ value _ => .ok value
  | .failure _ error => .error error

/-- A report of success displays the shown form of its value. -/
theorem display_of_success {env : Environment} {precision : Nat} {cs : List Char} {value : Float}
    {expression display : String}
    (h : ofText env precision cs = .success expression value display) :
    display.toList = Number.shown precision value := by
  unfold ofText at h
  dsimp only at h
  split at h
  · cases h
  · split at h
    · cases h; exact String.toList_ofList
    · cases h

/-- A report of a text without blanks around it has the value of the text, or its error. -/
theorem result_ofText {env : Environment} {precision : Nat} {cs : List Char}
    (h : Text.trim cs = cs) (hne : cs ≠ []) : (ofText env precision cs).result = evaluate env cs := by
  have hempty : cs.isEmpty = false := List.isEmpty_eq_false_iff.mpr hne
  unfold ofText
  dsimp only
  rw [h, hempty]
  cases evaluate env cs with
  | ok value => rfl
  | error error => rfl

/-- The fields of a report, each with its value in JSON. -/
def jsonFields : Report → List (String × String)
  | .success expression value display =>
    [("status", Text.jsonString "success"), ("expression", Text.jsonString expression),
     ("value", String.ofList (Number.jsonStyle.write value)), ("display", Text.jsonString display)]
  | .failure expression error =>
    [("status", Text.jsonString "error"), ("expression", Text.jsonString expression),
     ("message", Text.jsonString error.message)]

/-- The report as a JSON object, one field a line. -/
def toJson (report : Report) : String :=
  let lines := report.jsonFields.map fun field =>
    "  " ++ Text.jsonString field.1 ++ ": " ++ field.2
  "\x7b\n" ++ ",\n".intercalate lines ++ "\n\x7d"

end Report

end PocketCalc

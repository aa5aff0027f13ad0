import PocketCalc.Environment
import PocketCalc.Text.Blank

/-!
# Keys

The keys of the keypad and the labels that stand for them.
-/

namespace PocketCalc

/-- What the keys of the memory register do. -/
inductive MemoryAction where
  | clear
  | recall
  | store
  | add
  | subtract
  deriving DecidableEq, Repr

/-- A key. -/
inductive Key where
  | digit (c : Char)
  | point
  | operator (op : BinaryOperation)
  /-- A function, by the name that it types. -/
  | function (name : String)
  /-- A constant, by the name that it types. -/
  | constant (name : String)
  | openParen
  | closeParen
  | clearAll
  | clearLast
  | evaluate
  | memory (action : MemoryAction)
  deriving DecidableEq, Repr

/-- What an operator key types. -/
def BinaryOperation.typed : BinaryOperation → String
  | add => "+"
  | subtract => "-"
  | multiply => "*"
  | divide => "/"
  | power => "pow"

namespace Key

/-- The labels that stand for a key by themselves. -/
def ofSign? : String → Option Key
  | "." => some .point
  | "+" => some (.operator .add)
  | "-" => some (.operator .subtract)
  | "−" => some (.operator .subtract)
  | "*" => some (.operator .multiply)
  | "×" => some (.operator .multiply)
  | "/" => some (.operator .divide)
  | "÷" => some (.operator .divide)
  | "pow" => some (.operator .power)
  | "π" => some (.constant "pi")
  | "(" => some .openParen
  | ")" => some .closeParen
  | "C" => some .clearAll
  | "CE" => some .clearLast
  | "=" => some .evaluate
  | "MC" => some (.memory .clear)
  | "MR" => some (.memory .recall)
  | "MS" => some (.memory .store)
  | "M+" => some (.memory .add)
  | "M-" => some (.memory .subtract)
  | "M−" => some (.memory .subtract)
  | _ => none

/-- The digit key of a label that is one ASCII digit. -/
def ofDigit? : List Char → Option Key
  | [c] => if c.isDigit then some (.digit c) else none
  | _ => none

/-- The key of a name that the environment binds. -/
def ofName? (env : Environment) (name : String) : Option Key :=
  match env.lookup name with
  | some (.function _) => some (.function name)
  | some (.constant _) => some (.constant name)
  | none => none

/-- The key that a label stands for. Blanks around the label do not count. -/
def ofLabel (env : Environment) (label : List Char) : Except Error Key :=
  let trimmed := Text.trim label
  let name := String.ofList trimmed
  match ofSign? name <|> ofDigit? trimmed <|> ofName? env name with
  | some key => .ok key
  | none => .error (.unknownKey name)

/-- What an environment asks of a key: a digit key has an ASCII digit, and a key with a name has
one that is bound to what the key types. -/
def Bound (env : Environment) : Key → Prop
  | .digit c => c.isDigit = true
  | .function name => ∃ op, env.lookup name = some (.function op)
  | .constant name => ∃ value, env.lookup name = some (.constant value)
  | _ => True

/-- Whether the key leaves the last result in place. -/
def keepsResult : Key → Bool
  | .evaluate | .memory _ => true
  | _ => false

/-- A label of the key. -/
def label : Key → String
  | .digit c => String.ofList [c]
  | .point => "."
  | .operator op => op.typed
  | .function name => name
  | .constant name => name
  | .openParen => "("
  | .closeParen => ")"
  | .clearAll => "C"
  | .clearLast => "CE"
  | .evaluate => "="
  | .memory .clear => "MC"
  | .memory .recall => "MR"
  | .memory .store => "MS"
  | .memory .add => "M+"
  | .memory .subtract => "M-"

/-! ## The keys of labels -/

theorem bound_ofDigit? {env : Environment} {label : List Char} {key : Key}
    (h : ofDigit? label = some key) : key.Bound env := by
  unfold ofDigit? at h
  split at h
  · split at h
    · cases h; assumption
    · cases h
  · cases h

theorem bound_ofName? {env : Environment} {name : String} {key : Key}
    (h : ofName? env name = some key) : key.Bound env := by
  unfold ofName? at h
  split at h
  · cases h; exact ⟨_, by assumption⟩
  · cases h; exact ⟨_, by assumption⟩
  · cases h

theorem bound_pi (env : Environment) : Bound env (.constant "pi") := by
  obtain ⟨tolerance, physical⟩ := env
  cases physical <;> exact ⟨_, rfl⟩

/-- The label of the circle constant needs no check: every environment binds it. -/
theorem bound_ofSign? {env : Environment} {name : String} {key : Key}
    (h : ofSign? name = some key) : key.Bound env := by
  unfold ofSign? at h
  split at h <;> cases h <;> first | exact bound_pi env | trivial

/-- **A label stands for a key that the environment has.** -/
theorem bound_ofLabel {env : Environment} {label : List Char} {key : Key}
    (h : ofLabel env label = .ok key) : key.Bound env := by
  unfold ofLabel at h
  dsimp only at h
  split at h
  · rename_i found hf
    cases h
    simp only [Option.orElse_eq_orElse, Option.orElse_eq_or] at hf
    rcases Option.or_eq_some_iff.mp hf with hs | ⟨-, hr⟩
    · exact bound_ofSign? hs
    · rcases Option.or_eq_some_iff.mp hr with hd | ⟨-, hn⟩
      · exact bound_ofDigit? hd
      · exact bound_ofName? hn
  · cases h

end Key

end PocketCalc

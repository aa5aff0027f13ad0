import PocketCalc.Keypad
import PocketCalc.Proofs.Precedence

/-!
# Phrases of keys

A *key phrase* is a sequence of keys that makes sense as an expression:

    expression := ['-'] operand links
    links      := nothing, or operator operand links, or function expression ')' links
    operand    := number | constant | function expression ')' | '(' expression ')'

where the second kind of link leaves out the key of a multiplication. `Phrase` is the type of these
phrases. Each one has its keys, the text they are meant to type, the tokens of that text, a
derivation of the tokens and a value, all defined by recursion on the phrase and without regard to
the keypad or to the readers.
-/

namespace PocketCalc

namespace Typing

open Number Precedence Grammar

/-- A number as it is typed: digits, with a point between them where there is a fraction. -/
structure Numeral where
  whole : List Char
  fraction : Option (List Char)
  isDigit : ∀ c ∈ whole ++ fraction.getD [], c.isDigit = true
  nonempty : whole ++ fraction.getD [] ≠ []
  /-- No zero in front of another digit of the whole part. -/
  noLeadingZero : whole.head? = some '0' → whole = ['0']

namespace Numeral

/-- The digits behind the point, with the point. -/
def tail (n : Numeral) : List Char := (n.fraction.map ('.' :: ·)).getD []

def text (n : Numeral) : List Char := n.whole ++ n.tail

def keys (n : Numeral) : List Key :=
  n.whole.map .digit ++ (n.fraction.map fun ds => .point :: ds.map .digit).getD []

/-- The double nearest to the decimal number that is typed. -/
def value (n : Numeral) : Float :=
  Decimal.toFloat false
    ⟨Nat.ofDigitChars 10 (n.whole ++ n.fraction.getD []) 0, -(n.fraction.getD []).length⟩

/-- A number of one digit. -/
def ofDigit (c : Char) (h : c.isDigit = true) : Numeral where
  whole := [c]
  fraction := none
  isDigit := by simpa using h
  nonempty := List.cons_ne_nil _ _
  noLeadingZero hc := by rw [Option.some.inj hc]

theorem isDigit_or_eq_point (n : Numeral) {c : Char} (h : c ∈ n.text) :
    c.isDigit = true ∨ c = '.' := by
  have hdigit := n.isDigit c
  unfold text tail at h
  cases hf : n.fraction with
  | none =>
      simp only [hf, Option.map_none, Option.getD_none, List.append_nil] at h hdigit
      exact .inl (hdigit h)
  | some ds =>
      simp only [hf, Option.map_some, Option.getD_some, List.mem_append, List.mem_cons] at h hdigit
      rcases h with h | h | h
      · exact .inl (hdigit (.inl h))
      · exact .inr h
      · exact .inl (hdigit (.inr h))

theorem text_ne_nil (n : Numeral) : n.text ≠ [] := by
  have hne := n.nonempty
  unfold text tail
  cases hf : n.fraction with
  | none => simpa [hf] using hne
  | some ds => simp

end Numeral

/-- A constant key of an environment. -/
structure Constant (env : Environment) where
  name : String
  value : Float
  bound : env.lookup name = some (.constant value)

/-- A function key of an environment. -/
structure Function (env : Environment) where
  name : String
  operation : UnaryOperation
  bound : env.lookup name = some (.function operation)

/-- The parts of a key phrase. -/
inductive Part where
  | expression
  | operand
  /-- What follows the first operand of an expression. -/
  | links
  deriving DecidableEq, Repr

/-- A key phrase, or a part of one. -/
inductive Phrase (env : Environment) : Part → Type where
  | expression (negated : Bool) (first : Phrase env .operand) (links : Phrase env .links) :
      Phrase env .expression
  | number (n : Numeral) : Phrase env .operand
  | constant (c : Constant env) : Phrase env .operand
  | application (f : Function env) (argument : Phrase env .expression) : Phrase env .operand
  | parenthesized (inner : Phrase env .expression) : Phrase env .operand
  | noLinks : Phrase env .links
  | link (op : BinaryOperation) (operand : Phrase env .operand) (links : Phrase env .links) :
      Phrase env .links
  /-- A function key behind an operand, without the key of the multiplication. -/
  | juxtaposed (f : Function env) (argument : Phrase env .expression)
      (links : Phrase env .links) : Phrase env .links

variable {env : Environment}

namespace Phrase

/-- The keys of the phrase, in the order in which they are pressed. -/
def keys : {p : Part} → Phrase env p → List Key
  | _, expression negated first links =>
    (if negated then [.operator .subtract] else []) ++ (first.keys ++ links.keys)
  | _, number n => n.keys
  | _, constant c => [.constant c.name]
  | _, application f argument => .function f.name :: (argument.keys ++ [.closeParen])
  | _, parenthesized inner => .openParen :: (inner.keys ++ [.closeParen])
  | _, noLinks => []
  | _, link op operand links => .operator op :: (operand.keys ++ links.keys)
  | _, juxtaposed f argument links =>
    .function f.name :: (argument.keys ++ .closeParen :: links.keys)

/-- The text of the phrase: binary operators stand between blanks, and the multiplication that was
left out is there. -/
def text : {p : Part} → Phrase env p → List Char
  | _, expression negated first links =>
    (if negated then ['-'] else []) ++ (first.text ++ links.text)
  | _, number n => n.text
  | _, constant c => c.name.toList
  | _, application f argument => f.name.toList ++ '(' :: (argument.text ++ [')'])
  | _, parenthesized inner => '(' :: (inner.text ++ [')'])
  | _, noLinks => []
  | _, link op operand links =>
    ' ' :: (op.typed.toList ++ ' ' :: (operand.text ++ links.text))
  | _, juxtaposed f argument links =>
    " * ".toList ++ (f.name.toList ++ '(' :: (argument.text ++ ')' :: links.text))

/-- The tokens of the phrase. -/
def tokens : {p : Part} → Phrase env p → List TokenKind
  | _, expression negated first links => signTokens negated ++ (first.tokens ++ links.tokens)
  | _, number n => [.number n.value]
  | _, constant c => [.identifier c.name]
  | _, application f argument =>
    .identifier f.name :: .openParen :: (argument.tokens ++ [.closeParen])
  | _, parenthesized inner => .openParen :: (inner.tokens ++ [.closeParen])
  | _, noLinks => []
  | _, link op operand links => op.token :: (operand.tokens ++ links.tokens)
  | _, juxtaposed f argument links =>
    .star :: .identifier f.name :: .openParen :: (argument.tokens ++ .closeParen :: links.tokens)

end Phrase

/-- What a part of a phrase means where an operand means an `α`. -/
abbrev Part.Meaning (α β : Type) : Part → Type
  | expression => β
  | operand => α
  | links => List (BinaryOperation × α)

/-- The derivation of a function that is applied to one argument. -/
def Function.derivation (f : Function env) (argument : Derivation .expression) :
    Derivation .call :=
  .called (.name f.name) (.trailer (.arguments argument .lastArgument) .noTrailers)

/-- What a function amounts to for an argument. -/
def Function.apply (f : Function env) (argument : Amount) : Amount := do
  let x ← argument
  f.operation.apply env.tangentTolerance x

namespace Phrase

/-- The derivation of the tokens of the phrase. -/
def derivation : {p : Part} → Phrase env p →
    p.Meaning (Derivation .call) (Derivation .expression)
  | _, expression negated first links =>
    Precedence.derivation negated (group first.derivation links.derivation)
  | _, number n => Derivation.called (.number n.value) .noTrailers
  | _, constant c => Derivation.called (.name c.name) .noTrailers
  | _, application f argument => f.derivation argument.derivation
  | _, parenthesized inner => Derivation.called (.parenthesized inner.derivation) .noTrailers
  | _, noLinks => ([] : List (BinaryOperation × Derivation .call))
  | _, link op operand links =>
    ((op, operand.derivation) :: links.derivation : List (BinaryOperation × Derivation .call))
  | _, juxtaposed f argument links =>
    ((.multiply, f.derivation argument.derivation) :: links.derivation :
      List (BinaryOperation × Derivation .call))

/-- The value of the phrase under the usual precedence, or the error of its evaluation. -/
def value : {p : Part} → Phrase env p → p.Meaning Amount Amount
  | _, expression negated first links => Precedence.value negated (group first.value links.value)
  | _, number n => (Except.ok n.value : Amount)
  | _, constant c => (Except.ok c.value : Amount)
  | _, application f argument => f.apply argument.value
  | _, parenthesized inner => (inner.value : Amount)
  | _, noLinks => ([] : List (BinaryOperation × Amount))
  | _, link op operand links =>
    ((op, operand.value) :: links.value : List (BinaryOperation × Amount))
  | _, juxtaposed f argument links =>
    ((.multiply, f.apply argument.value) :: links.value : List (BinaryOperation × Amount))

end Phrase

end Typing

end PocketCalc

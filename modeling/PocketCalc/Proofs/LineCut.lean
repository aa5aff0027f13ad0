import PocketCalc.Proofs.Literal
import PocketCalc.Proofs.NumberLines

/-!
# How the text loop reads a line of two literals

A literal is a signed numeral, so a line of two literals with an operator between them is a command
on exactly these two. Each of them is read as the double that it stands for. Only a whole zero loses
its sign.
-/

namespace PocketCalc

open Number

/-! ## Literals as operands -/

namespace Literal

variable (a : Literal)

/-- A literal is a signed numeral. -/
def signed : SignedNumeral := ⟨a.sign, a.numeral, a.isSign, a.written⟩

theorem isBlank_eq_false {c : Char} (hc : c ∈ a.text) : Text.isBlank c = false :=
  a.signed.isBlank_eq_false hc

theorem exists_start : ∃ c cs, a.text = c :: cs ∧ c.isAlpha = false ∧ c ≠ '*' :=
  a.signed.exists_start

theorem text_ne_nil : a.text ≠ [] := a.signed.text_ne_nil

theorem splitSign_text (rest : List Char) :
    splitSign (a.text ++ rest) = (a.sign, a.numeral.text ++ rest) :=
  a.signed.splitSign_text rest

/-- The text of a literal tells its sign and its numeral. -/
theorem eq_of_text {a b : Literal} (h : a.text = b.text) :
    a.sign = b.sign ∧ a.numeral = b.numeral := by
  have hsign : (a.sign, a.numeral.text ++ []) = (b.sign, b.numeral.text ++ []) := by
    rw [← a.splitSign_text, ← b.splitSign_text, h]
  obtain ⟨hs, htext⟩ := Prod.mk.inj hsign
  have hsplit (c : Literal) : Numeral.split Char.isDigit (c.numeral.text ++ []) = (c.numeral, []) :=
    split_numeral isDigitClass_isDigit c.written endsNumeral_nil
  have hnumeral : (a.numeral, ([] : List Char)) = (b.numeral, []) := by
    rw [← hsplit a, ← hsplit b, htext]
  exact ⟨hs, (Prod.mk.inj hnumeral).1⟩

/-- **A literal is read as the number that it stands for**, up to the sign of zero. -/
theorem exists_value_read :
    ∃ x, (Operand.read a.text).value = .ok x ∧ SameNumber x a.value :=
  a.signed.exists_value_read

end Literal

/-! ## Lines of two literals -/

/-- The mark of an operator. -/
def ChainOperator.mark : ChainOperator → Char
  | add => '+'
  | subtract => '-'
  | multiply => '*'
  | divide => '/'

/-- Two literals with an operator between them, and blanks at will on either side of it. -/
structure LiteralLine where
  lhs : Literal
  before : List Char
  op : ChainOperator
  after : List Char
  rhs : Literal
  isBlank_before : ∀ c ∈ before, Text.isBlank c = true
  isBlank_after : ∀ c ∈ after, Text.isBlank c = true

namespace LiteralLine

variable (line : LiteralLine)

/-- What follows the operator. -/
def back : List Char := line.after ++ line.rhs.text

/-- The line as typed. -/
def text : List Char := line.lhs.text ++ (line.before ++ line.op.mark :: line.back)

/-- Neither a blank nor a mark carries the first literal on. -/
theorem endsNumeral :
    EndsNumeral Text.isDecimalDigit (line.before ++ line.op.mark :: line.back) := by
  refine endsNumeral_blanks_append line.isBlank_before fun c hc => ?_
  obtain rfl : line.op.mark = c := Option.some.inj hc
  cases line.op <;> decide

theorem endsNumeral_isDigit :
    EndsNumeral Char.isDigit (line.before ++ line.op.mark :: line.back) := by
  intro c hc
  obtain ⟨hdecimal, hother⟩ := line.endsNumeral c hc
  refine ⟨?_, hother⟩
  rw [Bool.eq_false_iff]
  intro hd
  rw [Text.isDecimalDigit_of_isDigit hd] at hdecimal
  cases hdecimal

/-- No second star follows the operator. -/
theorem head_back : ∀ c ∈ line.back.head?, c ≠ '*' :=
  line.rhs.signed.head_blanks_append line.isBlank_after

/-- The mark is a spelling of the operation. -/
def numberLine : NumberLine where
  lhs := line.lhs.signed
  before := line.before
  op := line.op.operation
  symbol := String.ofList [line.op.mark]
  after := line.after
  rhs := line.rhs.signed
  mem_symbols := by cases line.op <;> decide
  isBlank_before := line.isBlank_before
  isBlank_after := line.isBlank_after
  separated hword := by
    have hmark : ¬ (String.ofList [line.op.mark]).toList.all Char.isAlpha = true := by
      cases line.op <;> decide
    exact absurd hword hmark

theorem text_numberLine : line.numberLine.text = line.text := by
  have hsymbol : line.numberLine.symbol.toList = [line.op.mark] := String.toList_ofList
  rw [NumberLine.text, NumberLine.back, hsymbol]
  rfl

theorem trim_text : Text.trim line.text = line.text := by
  rw [← line.text_numberLine, line.numberLine.trim_text]

/-- **A line of two literals is a command on them.** -/
theorem ofLine_text : Command.ofLine line.text =
    .ok (.binary line.op.operation (Operand.read line.lhs.text) (Operand.read line.rhs.text)) := by
  rw [← line.text_numberLine, line.numberLine.ofLine_text]
  rfl

end LiteralLine

end PocketCalc

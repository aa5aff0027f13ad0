import PocketCalc.Text.Blank

/-!
# The expression buffer

The text being typed, exactly as it is shown. The questions that the keypad asks about it concern
its end only.
-/

namespace PocketCalc

/-- The text being typed. -/
structure Buffer where
  chars : List Char := []
  deriving DecidableEq

namespace Buffer

/-- The text as it is shown. -/
def text (b : Buffer) : String := String.ofList b.chars

def isEmpty (b : Buffer) : Bool := b.chars.isEmpty

/-- Nothing, or the lone zero that the display starts with. -/
def isInitial (b : Buffer) : Bool := b.chars.isEmpty || b.chars == ['0']

/-- The buffer with a character more. -/
def push (b : Buffer) (c : Char) : Buffer := ⟨b.chars ++ [c]⟩

/-- The buffer with a text behind it. -/
def append (b : Buffer) (cs : List Char) : Buffer := ⟨b.chars ++ cs⟩

/-- The buffer without its last character. -/
def dropLast (b : Buffer) : Buffer := ⟨b.chars.dropLast⟩

/-- The last character. -/
def last? (b : Buffer) : Option Char := b.chars.getLast?

/-- The operators of one character, and the opening parenthesis. -/
def isOperatorOrOpen (c : Char) : Bool :=
  c == '+' || c == '-' || c == '*' || c == '/' || c == '('

/-- Whether the text ends in an operator, `pow` included, or in an opening parenthesis. Blanks at
the end do not count. -/
def endsWithOperatorOrOpen (b : Buffer) : Bool :=
  let trimmed := Text.trimEnd b.chars
  trimmed.getLast?.any isOperatorOrOpen || "pow".toList.isSuffixOf trimmed

/-- Whether the text ends in an opening parenthesis. -/
def endsWithOpenParen (b : Buffer) : Bool := b.last? == some '('

/-- The characters that end a number in the buffer. -/
def isSegmentBreak (c : Char) : Bool :=
  c == ' ' || c == '+' || c == '-' || c == '*' || c == '/' || c == '(' || c == ')'

/-- The characters behind the last segment break. -/
def trailingSegment (b : Buffer) : List Char :=
  (b.chars.reverse.takeWhile (!isSegmentBreak ·)).reverse

/-- Whether the number being typed has its point. -/
def trailingSegmentHasPoint (b : Buffer) : Bool := b.trailingSegment.contains '.'

/-! ## The segment behind a character more -/

theorem trailingSegment_push_of_break {c : Char} (b : Buffer) (h : isSegmentBreak c = true) :
    (b.push c).trailingSegment = [] := by
  simp [trailingSegment, push, h]

theorem trailingSegment_push_of_not_break {c : Char} (b : Buffer)
    (h : isSegmentBreak c = false) :
    (b.push c).trailingSegment = b.trailingSegment ++ [c] := by
  simp [trailingSegment, push, h]

/-! ## The operator behind a character more -/

theorem endsWithOperatorOrOpen_push_blank (b : Buffer) :
    (b.push ' ').endsWithOperatorOrOpen = b.endsWithOperatorOrOpen := by
  unfold endsWithOperatorOrOpen push
  rw [Text.trimEnd_concat_of_isBlank _ (by decide)]

theorem endsWithOperatorOrOpen_push {c : Char} (b : Buffer) (h : Text.isBlank c = false) :
    (b.push c).endsWithOperatorOrOpen =
      (isOperatorOrOpen c || "pow".toList.isSuffixOf (b.push c).chars) := by
  unfold endsWithOperatorOrOpen push
  rw [Text.trimEnd_concat_of_not_isBlank _ h]
  simp

/-- A text that ends in `pow` has a `w` for its last character. -/
theorem eq_w_of_isSuffixOf_push {c : Char} {b : Buffer}
    (h : "pow".toList.isSuffixOf (b.push c).chars = true) : c = 'w' := by
  obtain ⟨rest, hr⟩ := List.isSuffixOf_iff_suffix.mp h
  have := congrArg List.getLast? hr
  simpa [push] using this.symm

end Buffer

end PocketCalc

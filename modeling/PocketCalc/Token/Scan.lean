import PocketCalc.Error
import PocketCalc.Number.Numeral
import PocketCalc.Text.Blank

/-!
# Cutting an expression into tokens

A text is scanned from the left. Blanks are skipped, and at any other place the longest token is
taken. The scan fails at the first place where no token starts or where a number is malformed.
Positions are byte offsets in the UTF-8 form of the text.
-/

namespace PocketCalc

open PocketCalc.Number

/-- The length of a text in UTF-8 bytes. -/
def byteLength : List Char → Nat
  | [] => 0
  | c :: cs => c.utf8Size + byteLength cs

/-- The characters of an identifier behind the first. -/
def isNameChar (c : Char) : Bool := Text.isLetterOrNumeral c || c == '_'

/-- The characters that an identifier can start with. -/
def isNameStart (c : Char) : Bool := Text.isLetter c || c == '_'

/-- A token without its position: what it is, how it is spelled, and the text behind it. -/
structure Lexeme where
  kind : TokenKind
  spelling : List Char
  rest : List Char

namespace Lexeme

/-- The lexeme of a text that starts with a digit or a point. -/
def number (position : Nat) (cs : List Char) : Except SyntaxFault Lexeme :=
  let (numeral, rest) := Numeral.split Char.isDigit cs
  if numeral.digits = [] then .error (.lonePoint position)
  else if numeral.hasLeadingZero then .error (.leadingZeros (String.ofList numeral.text))
  else .ok ⟨.number (numeral.decimal.toFloat false), numeral.text, rest⟩

/-- The lexeme of a text that starts with a character an identifier can start with. -/
def identifier (cs : List Char) : Lexeme :=
  let name := cs.takeWhile isNameChar
  ⟨.identifier (String.ofList name), name, cs.dropWhile isNameChar⟩

/-- The operators, parentheses and the comma. -/
def symbol? : List Char → Option Lexeme
  | '+' :: cs => some ⟨.plus, ['+'], cs⟩
  | '-' :: cs => some ⟨.minus, ['-'], cs⟩
  | '*' :: '*' :: cs => some ⟨.power, ['*', '*'], cs⟩
  | '*' :: cs => some ⟨.star, ['*'], cs⟩
  | '/' :: cs => some ⟨.slash, ['/'], cs⟩
  | '(' :: cs => some ⟨.openParen, ['('], cs⟩
  | ')' :: cs => some ⟨.closeParen, [')'], cs⟩
  | ',' :: cs => some ⟨.comma, [','], cs⟩
  | _ => none

/-- The longest token at the front of a text that starts with `c`, which is not blank. -/
def first (position : Nat) (c : Char) (cs : List Char) : Except SyntaxFault Lexeme :=
  if c.isDigit || c == '.' then number position (c :: cs)
  else if isNameStart c then .ok (identifier (c :: cs))
  else match symbol? (c :: cs) with
    | some lexeme => .ok lexeme
    | none => .error (.unexpectedCharacter c position)

/-! ## A lexeme is a front of the text, and it is not empty -/

theorem number_append {position : Nat} {cs : List Char} {l : Lexeme}
    (h : number position cs = .ok l) : l.spelling ++ l.rest = cs := by
  have hs := Numeral.split_append Char.isDigit cs
  simp only [number] at h
  split at h
  · cases h
  split at h
  · cases h
  cases h
  exact hs

theorem number_ne_nil {position : Nat} {cs : List Char} {l : Lexeme}
    (h : number position cs = .ok l) : l.spelling ≠ [] := by
  simp only [number] at h
  split at h
  · cases h
  rename_i hd
  split at h
  · cases h
  cases h
  intro ht
  apply hd
  simp only [Numeral.text, List.append_eq_nil_iff] at ht
  obtain ⟨⟨hw, hf⟩, -⟩ := ht
  cases hfr : (Numeral.split Char.isDigit cs).1.fraction with
  | none => simp [Numeral.digits, hw, hfr]
  | some f => simp [hfr] at hf

theorem identifier_append (cs : List Char) :
    (identifier cs).spelling ++ (identifier cs).rest = cs :=
  List.takeWhile_append_dropWhile

theorem symbol?_append {cs : List Char} {l : Lexeme} (h : symbol? cs = some l) :
    l.spelling ++ l.rest = cs ∧ l.spelling ≠ [] := by
  unfold symbol? at h
  split at h <;> cases h <;> simp

/-- A character that an identifier can start with can also stand inside one. -/
theorem isNameChar_of_isNameStart {c : Char} (h : isNameStart c = true) : isNameChar c = true := by
  simp only [isNameStart, isNameChar, Bool.or_eq_true] at h ⊢
  exact h.imp_left Text.isLetterOrNumeral_of_isLetter

/-- The first lexeme and the rest are the text. -/
theorem first_append {position : Nat} {c : Char} {cs : List Char} {l : Lexeme}
    (h : first position c cs = .ok l) : l.spelling ++ l.rest = c :: cs := by
  unfold first at h
  split at h
  · exact number_append h
  split at h
  · cases h
    exact identifier_append _
  split at h
  · cases h
    exact (symbol?_append (by assumption)).1
  · cases h

/-- The first lexeme is spelled with at least one character. -/
theorem first_ne_nil {position : Nat} {c : Char} {cs : List Char} {l : Lexeme}
    (h : first position c cs = .ok l) : l.spelling ≠ [] := by
  unfold first at h
  split at h
  · exact number_ne_nil h
  split at h
  · rename_i hc
    cases h
    simp [identifier, isNameChar_of_isNameStart hc]
  split at h
  · cases h
    exact (symbol?_append (by assumption)).2
  · cases h

/-- What follows the first lexeme is shorter than the text. -/
theorem length_rest_lt {position : Nat} {c : Char} {cs : List Char} {l : Lexeme}
    (h : first position c cs = .ok l) : l.rest.length < (c :: cs).length := by
  rw [← first_append h, List.length_append]
  have := List.length_pos_iff.mpr (first_ne_nil h)
  omega

end Lexeme

namespace Token

/-- The tokens of a text whose first byte is at `position`. -/
def scanFrom (position : Nat) (cs : List Char) : Except SyntaxFault (List Token) :=
  match cs with
  | [] => .ok []
  | c :: cs =>
    if Text.isBlank c then scanFrom (position + c.utf8Size) cs
    else
      match h : Lexeme.first position c cs with
      | .error fault => .error fault
      | .ok lexeme =>
        have := Lexeme.length_rest_lt h
        let stop := position + byteLength lexeme.spelling
        (scanFrom stop lexeme.rest).map (⟨lexeme.kind, position, stop⟩ :: ·)
termination_by cs.length
decreasing_by
  · exact Nat.lt_succ_self _
  · assumption

/-- The tokens of a text. -/
def scan (cs : List Char) : Except SyntaxFault (List Token) := scanFrom 0 cs

end Token

end PocketCalc

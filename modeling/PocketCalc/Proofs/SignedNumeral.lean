import PocketCalc.Operand
import PocketCalc.Proofs.Blanks
import PocketCalc.Proofs.SignedZero

/-!
# Signed numerals

A number as an operand is written: a sign, which may be left out, and a numeral in ASCII. It has no
blank in it, it starts with a character that starts nothing else, and it is read as the number that
is written. Only a whole zero loses its sign.
-/

namespace PocketCalc

open Number

/-- Decimal digits of all scripts are no other character of a numeral. -/
theorem isDigitClass_isDecimalDigit : IsDigitClass Text.isDecimalDigit where
  digit _ h := Text.isDecimalDigit_of_isDigit h
  point := by decide
  mark := by decide
  sign := by decide

/-- What ends a numeral ends it behind blanks, too. -/
theorem endsNumeral_blanks_append {blanks rest : List Char}
    (hb : ∀ c ∈ blanks, Text.isBlank c = true) (hr : EndsNumeral Text.isDecimalDigit rest) :
    EndsNumeral Text.isDecimalDigit (blanks ++ rest) := by
  cases blanks with
  | nil => exact hr
  | cons d blanks =>
      intro c hc
      obtain rfl : d = c := Option.some.inj hc
      have hblank := hb d List.mem_cons_self
      refine ⟨Text.isDecimalDigit_eq_false_of_isBlank hblank, ?_⟩
      refine ⟨?_, ?_, ?_⟩ <;> (rintro rfl; cases hblank)

/-- A number as an operand is written: a sign, which may be left out, and a numeral. There may be
zeros in front of it. -/
structure SignedNumeral where
  sign : Option Char
  numeral : Numeral
  isSign : ∀ c ∈ sign, IsSign c
  written : numeral.Written

namespace SignedNumeral

variable (a : SignedNumeral)

/-- The number as written. -/
def text : List Char := a.sign.toList ++ a.numeral.text

/-- Whether the sign is a minus. -/
def negative : Bool := a.sign == some '-'

/-- The double that is written. -/
def value : Float := a.numeral.decimal.toFloat a.negative

/-- The whole number that the digits alone are, under the sign. -/
def whole : Int :=
  if a.negative then -(a.numeral.decimal.coefficient : ℤ) else a.numeral.decimal.coefficient

theorem isDigit_or_mem {c : Char} (hc : c ∈ a.text) : c.isDigit = true ∨ c ∈ numberMarks :=
  a.written.signed_isDigit_or_mem a.isSign hc

theorem isBlank_eq_false {c : Char} (hc : c ∈ a.text) : Text.isBlank c = false :=
  isBlank_eq_false_of_isDigit_or_mem (a.isDigit_or_mem hc)

/-- It starts with a sign, a digit or a point. -/
theorem exists_start : ∃ c cs, a.text = c :: cs ∧ c.isAlpha = false ∧ c ≠ '*' := by
  obtain ⟨c, cs, hcs, hstart, -⟩ := a.written.exists_start
  have hc : c.isAlpha = false ∧ c ≠ '*' := by
    rw [Bool.or_eq_true, beq_iff_eq] at hstart
    rcases hstart with hd | rfl
    · refine ⟨?_, by rintro rfl; cases hd⟩
      rw [Bool.eq_false_iff]
      intro ha
      simp only [Char.isAlpha, Char.isUpper, Char.isLower, Char.isDigit, Bool.or_eq_true,
        Bool.and_eq_true, decide_eq_true_eq, UInt32.le_iff_toNat_le, ge_iff_le] at ha hd
      simp only [UInt32.reduceToNat, Char.reduceVal] at ha hd
      omega
    · exact ⟨rfl, by decide⟩
  cases hs : a.sign with
  | none => exact ⟨c, cs, by rw [text, hs, hcs]; rfl, hc⟩
  | some s =>
      refine ⟨s, a.numeral.text, by rw [text, hs]; rfl, ?_⟩
      rcases a.isSign s hs with rfl | rfl
      · decide
      · decide

theorem text_ne_nil : a.text ≠ [] := by
  obtain ⟨c, cs, hcs, -⟩ := a.exists_start
  rw [hcs]
  exact List.cons_ne_nil c cs

theorem trim_text : Text.trim a.text = a.text :=
  Text.trim_word fun _ hc => a.isBlank_eq_false hc

theorem words_text : Text.words a.text = [a.text] :=
  Text.words_word (fun _ hc => a.isBlank_eq_false hc) a.text_ne_nil

/-- No star stands at the front of it, nor at the front of blanks before it. -/
theorem head_blanks_append {blanks : List Char} (hb : ∀ c ∈ blanks, Text.isBlank c = true) :
    ∀ c ∈ (blanks ++ a.text).head?, c ≠ '*' := by
  intro c hc
  cases blanks with
  | nil =>
      obtain ⟨d, ds, hd, -, hne⟩ := a.exists_start
      rw [List.nil_append, hd] at hc
      obtain rfl : d = c := Option.some.inj hc
      exact hne
  | cons d ds =>
      obtain rfl : d = c := Option.some.inj hc
      have hblank := hb d List.mem_cons_self
      rintro rfl
      cases hblank

/-- The sign is split off, and the numeral stays. -/
theorem splitSign_text (rest : List Char) :
    splitSign (a.text ++ rest) = (a.sign, a.numeral.text ++ rest) := by
  rw [text, List.append_assoc]
  exact splitSign_of_sign a.isSign (a.written.head_not_isSign rest)

/-! ## Reading one as an operand -/

/-- Digits alone are read as a whole number if a word can hold it. -/
theorem readNumber?_text : Operand.readNumber? a.text = some
    (if a.numeral.isPlain && Operand.fitsWord a.whole then .int a.whole else .float a.value) := by
  have hsign := a.splitSign_text []
  have hsplit := split_numeral isDigitClass_isDigit a.written endsNumeral_nil
  rw [List.append_nil, List.append_nil] at hsign
  rw [List.append_nil] at hsplit
  have hnegative : a.sign = some '-' ↔ a.negative = true := by
    rw [negative, beq_iff_eq]
  simp only [Operand.readNumber?, hsign, hsplit]
  rw [if_neg (by simp [a.written.digits.nonempty])]
  simp only [hnegative, Bool.decide_eq_true]
  exact (apply_ite some _ _ _).symm

theorem read_text : Operand.read a.text =
    if a.numeral.isPlain && Operand.fitsWord a.whole then .int a.whole else .float a.value := by
  rw [Operand.read, a.trim_text, a.readNumber?_text]
  rfl

/-- A whole number is the double that is written, or both are zeros. -/
theorem sameNumber_ofInt (negative : Bool) (n : ℕ) :
    SameNumber (ofInt (if negative then -(n : ℤ) else n)) (Decimal.toFloat negative ⟨n, 0⟩) := by
  cases negative with
  | false =>
      left
      rw [if_neg (by decide), ofInt, Int.natAbs_natCast]
      congr 1
  | true =>
      rw [if_pos rfl, ofInt, Int.natAbs_neg, Int.natAbs_natCast]
      rcases Nat.eq_zero_or_pos n with rfl | hn
      · right
        have hzero : (⟨0, 0⟩ : Decimal).rank = 0 := rfl
        rw [Decimal.toFloat, Decimal.toFloat, hzero, rank_ofRank _ (Nat.zero_le _),
          rank_ofRank _ (Nat.zero_le _)]
        exact ⟨rfl, rfl⟩
      · left
        congr 1
        exact decide_eq_true (by omega)

/-- Digits alone are not scaled. -/
theorem decimal_of_isPlain {n : Numeral} (h : n.isPlain = true) :
    n.decimal = ⟨n.decimal.coefficient, 0⟩ := by
  simp only [Numeral.isPlain, Bool.and_eq_true, Option.isNone_iff_eq_none] at h
  simp [Numeral.decimal, h.1, h.2]

theorem sameNumber_whole (hplain : a.numeral.isPlain = true) :
    SameNumber (ofInt a.whole) a.value := by
  rw [whole, value, decimal_of_isPlain hplain]
  exact sameNumber_ofInt a.negative a.numeral.decimal.coefficient

/-- **It is read as the number that is written**, up to the sign of zero. -/
theorem exists_value_read :
    ∃ x, (Operand.read a.text).value = .ok x ∧ SameNumber x a.value := by
  rw [a.read_text]
  by_cases hint : (a.numeral.isPlain && Operand.fitsWord a.whole) = true
  · rw [if_pos hint]
    exact ⟨_, rfl, a.sameNumber_whole (Bool.and_eq_true_iff.mp hint).1⟩
  · rw [if_neg hint]
    exact ⟨_, rfl, .inl rfl⟩

end SignedNumeral

end PocketCalc

import PocketCalc.Proofs.Respacing
import PocketCalc.Proofs.ShownText
import PocketCalc.Proofs.SignedNumeral

/-!
# The texts that are operands

An operand is read from a text in two ways: digits that a word can hold are a whole number, and any
other numeral is rounded to a double. `ReadsAs` says which texts are numbers, which of them are
whole, and which double the others are, without the reader. Nothing else is a number, and the words
for infinity and for no number are texts like any other.

Both ways lead to the double nearest to the number that is written, up to the sign of a zero. So
does the lexer, and where the tokens of a text are a single number, that number is the operand's.
-/

namespace PocketCalc

open Number

/-! ## What is written -/

namespace Number

/-- `x` is the double that a number of either sign is rounded to: the nearest one, halves to even,
and infinity behind the largest finite one. The sign of a zero is left open. -/
structure RoundsToSigned (q : ℚ) (x : Float) : Prop where
  nearest : ∃ r, IsNearestRank |q| r ∧ rank x = min r infiniteRank
  sign : rank x ≠ 0 → isNegative x = decide (q < 0)

/-- A double is known by what it is rounded from and by its sign. -/
theorem RoundsToSigned.eq_of_isNegative_eq {q : ℚ} {x y : Float} (hx : RoundsToSigned q x)
    (hy : RoundsToSigned q y) (hsign : isNegative x = isNegative y) : x = y := by
  obtain ⟨r, hr, hxr⟩ := hx.nearest
  obtain ⟨s, hs, hys⟩ := hy.nearest
  rw [← ofRank_rank x, ← ofRank_rank y, hsign, hxr, hys, hr.unique hs]

/-- The rounding does not tell the zeros apart. -/
theorem RoundsToSigned.of_sameNumber {q : ℚ} {x y : Float} (h : RoundsToSigned q y)
    (hxy : SameNumber x y) : RoundsToSigned q x := by
  rcases hxy with rfl | ⟨hx, hy⟩
  · exact h
  · refine ⟨?_, fun hne => absurd hx hne⟩
    rw [hx, ← hy]
    exact h.nearest

end Number

/-- The text is a run of digits under a sign that may be left out, and `n` the whole number that it
writes. -/
def IsRun (t : List Char) (n : ℤ) : Prop :=
  ∃ (sign : Option Char) (digits : List Char), (∀ c ∈ sign, IsSign c) ∧ Digits digits ∧
    t = sign.toList ++ digits ∧ n = if sign = some '-' then -(Nat.ofDigitChars 10 digits 0 : ℤ)
      else Nat.ofDigitChars 10 digits 0

/-- The whole number is one of a signed word of 64 bits. -/
def InWord (n : ℤ) : Prop := -2 ^ 63 ≤ n ∧ n < 2 ^ 63

namespace SignedNumeral

variable (a : SignedNumeral)

/-- The number that is written, exactly. -/
def number : ℚ := signedRat a.negative a.numeral.decimal.value

theorem abs_number : |a.number| = a.numeral.decimal.value :=
  abs_signedRat _ a.numeral.decimal.value_nonneg

/-- A text is a signed numeral in one way only. -/
theorem eq_of_text_eq {a b : SignedNumeral} (h : a.text = b.text) : a = b := by
  have ha := a.splitSign_text []
  have hb := b.splitSign_text []
  rw [List.append_nil, List.append_nil] at ha hb
  rw [h, hb] at ha
  obtain ⟨hsign, htext⟩ := Prod.mk.inj ha
  have hnumeral := b.written.eq_of_text_eq a.written htext
  obtain ⟨sign, numeral, _, _⟩ := a
  obtain ⟨sign', numeral', _, _⟩ := b
  dsimp only at hsign hnumeral
  subst hsign hnumeral
  rfl

/-- The double that is written is the nearest one. -/
theorem roundsToSigned_value : RoundsToSigned a.number a.value := by
  have hle := Literal.rank_le_infiniteRank a.numeral.decimal
  have hrank : rank a.value = a.numeral.decimal.rank := rank_ofRank a.negative hle
  refine ⟨?_, fun hne => ?_⟩
  · obtain ⟨r, hr, hmin⟩ := a.numeral.decimal.exists_isNearestRank
    exact ⟨r, a.abs_number.symm ▸ hr, hrank.trans hmin⟩
  · -- a number that is rounded away from zero is not zero, so its sign shows
    have hcoefficient : a.numeral.decimal.coefficient ≠ 0 := by
      intro hzero
      rw [hrank, Decimal.rank, if_pos hzero] at hne
      exact hne rfl
    have hsign : isNegative a.value = a.negative := isNegative_ofRank a.negative hle
    rw [hsign]
    exact (signedRat_neg_iff a.negative (Decimal.value_pos hcoefficient)).symm

/-! ## Runs of digits -/

/-- A run of digits is a signed numeral with neither a point nor an exponent. -/
theorem isRun_iff {t : List Char} {n : ℤ} :
    IsRun t n ↔ ∃ a : SignedNumeral, a.text = t ∧ a.numeral.isPlain = true ∧ a.whole = n := by
  constructor
  · rintro ⟨sign, digits, hsign, hdigits, rfl, rfl⟩
    have hwritten : (⟨digits, none, none⟩ : Numeral).Written :=
      Numeral.written_of_digits (by simpa [Numeral.digits] using hdigits) rfl
    refine ⟨⟨sign, _, hsign, hwritten⟩, by simp [text, Numeral.text], rfl, ?_⟩
    simp [whole, negative, Numeral.decimal, Numeral.digits]
  · rintro ⟨⟨sign, ⟨digits, fraction, exponent⟩, hsign, hwritten⟩, rfl, hplain, rfl⟩
    simp only [Numeral.isPlain, Bool.and_eq_true, Option.isNone_iff_eq_none] at hplain
    obtain ⟨rfl, rfl⟩ := hplain
    refine ⟨sign, digits, hsign, by simpa [Numeral.digits] using hwritten.digits,
      by simp [text, Numeral.text], ?_⟩
    simp [whole, negative, Numeral.decimal, Numeral.digits]

theorem isRun_text_iff {n : ℤ} : IsRun a.text n ↔ a.numeral.isPlain = true ∧ a.whole = n := by
  rw [isRun_iff]
  constructor
  · rintro ⟨b, htext, hplain, hwhole⟩
    obtain rfl := eq_of_text_eq htext
    exact ⟨hplain, hwhole⟩
  · rintro ⟨hplain, hwhole⟩
    exact ⟨a, rfl, hplain, hwhole⟩

theorem fitsWord_iff {n : ℤ} : Operand.fitsWord n = true ↔ InWord n := by
  rw [Operand.fitsWord, Bool.and_eq_true, decide_eq_true_iff, decide_eq_true_iff]
  exact Iff.rfl

/-- The condition on which the reader makes a whole number. -/
theorem isPlain_and_fitsWord_iff :
    (a.numeral.isPlain && Operand.fitsWord a.whole) = true ↔ ∃ n, IsRun a.text n ∧ InWord n := by
  rw [Bool.and_eq_true, fitsWord_iff]
  constructor
  · rintro ⟨hplain, hfits⟩
    exact ⟨a.whole, a.isRun_text_iff.mpr ⟨hplain, rfl⟩, hfits⟩
  · rintro ⟨n, hrun, hfits⟩
    obtain ⟨hplain, rfl⟩ := a.isRun_text_iff.mp hrun
    exact ⟨hplain, hfits⟩

end SignedNumeral

/-! ## What is read -/

namespace Operand

/-- What a text without blanks around it is read as. -/
inductive ReadsAs (t : List Char) : Operand → Prop where
  | int (n : ℤ) (run : IsRun t n) (fits : InWord n) : ReadsAs t (.int n)
  | float (a : SignedNumeral) (x : Float) (text : a.text = t)
      (notWhole : ∀ n, IsRun t n → ¬ InWord n) (rounds : RoundsToSigned a.number x)
      (sign : isNegative x = a.negative) : ReadsAs t (.float x)
  | text (none : ∀ a : SignedNumeral, a.text ≠ t) : ReadsAs t (.text (String.ofList t))

variable {cs t : List Char} {operand : Operand}

/-- What is read as a number is a signed numeral. -/
theorem exists_of_readNumber? (h : readNumber? t = some operand) :
    ∃ a : SignedNumeral, a.text = t := by
  have hsign := splitSign_append t
  have hnumeral := Numeral.split_append Char.isDigit (splitSign t).2
  unfold readNumber? at h
  cases hsplit : Numeral.split Char.isDigit (splitSign t).2 with
  | mk numeral rest =>
  rw [hsplit] at hnumeral
  simp only [hsplit] at h
  split at h
  · cases h
  · rename_i hall
    obtain ⟨hdigits, hrest⟩ := not_or.mp hall
    have hrest : rest = [] := not_not.mp hrest
    have hwritten : numeral.Written := (writtenIn_of_split hsplit hdigits).written
    refine ⟨⟨(splitSign t).1, numeral, isSign_of_splitSign t, hwritten⟩, ?_⟩
    rw [hrest, List.append_nil] at hnumeral
    dsimp only at hnumeral
    rw [SignedNumeral.text]
    dsimp only
    rw [hnumeral, hsign]

theorem read_of_trim {a : SignedNumeral} (h : a.text = Text.trim cs) : read cs = read a.text := by
  rw [read, read, a.trim_text, h]

theorem read_of_none (h : ∀ a : SignedNumeral, a.text ≠ Text.trim cs) :
    read cs = .text (String.ofList (Text.trim cs)) := by
  rw [read]
  cases hread : readNumber? (Text.trim cs) with
  | none => rfl
  | some operand =>
      obtain ⟨a, ha⟩ := exists_of_readNumber? hread
      exact absurd ha (h a)

/-- **A text is read as what it reads as, and as nothing else.** -/
theorem read_eq_iff : read cs = operand ↔ ReadsAs (Text.trim cs) operand := by
  constructor
  · rintro rfl
    by_cases hnumber : ∃ a : SignedNumeral, a.text = Text.trim cs
    · obtain ⟨a, ha⟩ := hnumber
      rw [read_of_trim ha, a.read_text, ← ha]
      split
      · rename_i hwhole
        obtain ⟨hplain, hfits⟩ := Bool.and_eq_true_iff.mp hwhole
        exact .int a.whole (a.isRun_text_iff.mpr ⟨hplain, rfl⟩) (SignedNumeral.fitsWord_iff.mp hfits)
      · rename_i hother
        exact .float a a.value rfl
          (fun n hrun hfits => hother (a.isPlain_and_fitsWord_iff.mpr ⟨n, hrun, hfits⟩))
          a.roundsToSigned_value
          (isNegative_ofRank a.negative (Literal.rank_le_infiniteRank _))
    · have hnone : ∀ a : SignedNumeral, a.text ≠ Text.trim cs := fun a ha => hnumber ⟨a, ha⟩
      rw [read_of_none hnone]
      exact .text hnone
  · intro h
    cases h with
    | int n run fits =>
        obtain ⟨a, ha, hplain, rfl⟩ := SignedNumeral.isRun_iff.mp run
        have hwhole : (a.numeral.isPlain && fitsWord a.whole) = true :=
          a.isPlain_and_fitsWord_iff.mpr ⟨a.whole, ha ▸ run, fits⟩
        rw [read_of_trim ha, a.read_text, if_pos hwhole]
    | float a x text notWhole rounds sign =>
        have hother : ¬ (a.numeral.isPlain && fitsWord a.whole) = true := by
          intro hwhole
          obtain ⟨n, hrun, hfits⟩ := a.isPlain_and_fitsWord_iff.mp hwhole
          exact notWhole n (text ▸ hrun) hfits
        have hsign : isNegative a.value = a.negative :=
          isNegative_ofRank a.negative (Literal.rank_le_infiniteRank _)
        rw [read_of_trim text, a.read_text, if_neg hother]
        exact congrArg Operand.float
          (a.roundsToSigned_value.eq_of_isNegative_eq rounds (hsign.trans sign.symm))
    | text none => exact read_of_none none

/-- Whichever way a number is read, it is the nearest double. -/
theorem exists_value_of_text {a : SignedNumeral} (h : a.text = Text.trim cs) :
    ∃ x, (read cs).value = .ok x ∧ RoundsToSigned a.number x := by
  obtain ⟨x, hx, hsame⟩ := a.exists_value_read
  rw [read_of_trim h]
  exact ⟨x, hx, a.roundsToSigned_value.of_sameNumber hsame⟩

/-! ## The words for what is no finite number -/

/-- The words that other readers of numbers know, in small letters. -/
def numberWords : List (List Char) := ["inf".toList, "infinity".toList, "nan".toList]

/-- They have a letter in them that no numeral has. -/
theorem text_ne_of_mem_numberWords {sign : Option Char} {word : List Char}
    (h : word.map Char.toLower ∈ numberWords) (a : SignedNumeral) :
    a.text ≠ sign.toList ++ word := by
  intro htext
  have hwords : ∀ w ∈ numberWords, 'n' ∈ w := by decide
  obtain ⟨c, hc, hlower⟩ := List.mem_map.mp (hwords _ h)
  have hmem : c ∈ a.text := htext ▸ List.mem_append_right _ hc
  rcases a.isDigit_or_mem hmem with hdigit | hmark
  · have hupper : ¬ c.isUpper = true := by
      intro hupper
      simp only [Char.isDigit, Char.isUpper, Bool.and_eq_true, decide_eq_true_eq,
        UInt32.le_iff_toNat_le, ge_iff_le, UInt32.reduceToNat, Char.reduceVal] at hdigit hupper
      omega
    rw [Char.toLower_eq_of_not_isUpper hupper] at hlower
    subst hlower
    cases hdigit
  · have hmarks : numberMarks.all (·.toLower != 'n') = true := rfl
    exact bne_iff_ne.mp (List.all_eq_true.mp hmarks c hmark) hlower

end Operand

/-! ## A single token -/

/-- A text with a single token is that token with blanks around it. -/
theorem exists_word_of_scan {cs : List Char} {token : Token} (h : Token.scan cs = .ok [token]) :
    ∃ word, TokenText word token.kind ∧ Text.trim cs = word := by
  have hscan : ScansAs 0 cs (Token.scan cs) := scansAs_scanFrom 0 cs
  have hlaid := hscan.laysOut _ h
  obtain ⟨word, ⟨front, back, hcs, hstart, hstop⟩, htext⟩ := hlaid.spells token List.mem_cons_self
  rw [Nat.zero_add] at hstart
  -- what stands on either side of its span stands in no span
  have hfront : ∀ c ∈ front, Text.isBlank c = true := by
    intro c hc
    obtain ⟨before, behind, rfl⟩ := List.mem_iff_append.mp hc
    refine hlaid.blank before c (behind ++ word ++ back) (by rw [hcs]; simp) fun t ht => ?_
    obtain rfl := List.mem_singleton.mp ht
    have hpos := c.utf8Size_pos
    rw [byteLength_append, byteLength] at hstart
    left
    omega
  have hback : ∀ c ∈ back, Text.isBlank c = true := by
    intro c hc
    obtain ⟨before, behind, rfl⟩ := List.mem_iff_append.mp hc
    refine hlaid.blank (front ++ word ++ before) c behind (by rw [hcs]; simp) fun t ht => ?_
    obtain rfl := List.mem_singleton.mp ht
    rw [byteLength_append, byteLength_append]
    right
    omega
  refine ⟨word, htext, ?_⟩
  rw [hcs, List.append_assoc, Text.trim_blanks_append hfront hback]
  exact Text.trim_word fun c hc => htext.isBlank_eq_false hc

/-- **The lexer and the reader of operands agree** on every text that the lexer takes for one
number. -/
theorem Operand.value_read_of_scan {cs : List Char} {x : Float} {start stop : ℕ}
    (h : Token.scan cs = .ok [⟨.number x, start, stop⟩]) : (Operand.read cs).value = .ok x := by
  obtain ⟨word, htext, htrim⟩ := exists_word_of_scan h
  obtain ⟨-, operand, hread, hvalue⟩ := htext.of_number
  rw [read, htrim, hread]
  exact hvalue

/-- **Operands are the decimal numbers.** A text is read as a number exactly if it is a signed
numeral but for blanks around it, as a whole number exactly if it is a run of digits that a word can
hold, and as the text that it is otherwise; the words for infinity and for no number are texts, under
either sign and in letters of either case. A number is the double nearest to what is written, and it
is the one that the lexer finds if it finds nothing else. -/
theorem read_operand_spec (cs : List Char) :
    (∀ operand, Operand.read cs = operand ↔ Operand.ReadsAs (Text.trim cs) operand) ∧
    ((∃ x, (Operand.read cs).value = .ok x) ↔ ∃ a : SignedNumeral, a.text = Text.trim cs) ∧
    (∀ a : SignedNumeral, a.text = Text.trim cs →
      ∃ x, (Operand.read cs).value = .ok x ∧ RoundsToSigned a.number x) ∧
    (∀ (sign : Option Char) (word : List Char), (∀ c ∈ sign, IsSign c) →
      word.map Char.toLower ∈ Operand.numberWords → Text.trim cs = sign.toList ++ word →
      Operand.read cs = .text (String.ofList (Text.trim cs))) ∧
    (∀ x start stop, Token.scan cs = .ok [⟨.number x, start, stop⟩] →
      (Operand.read cs).value = .ok x) := by
  refine ⟨fun operand => Operand.read_eq_iff, ⟨?_, ?_⟩,
    fun a ha => Operand.exists_value_of_text ha, ?_,
    fun x start stop hscan => Operand.value_read_of_scan hscan⟩
  · rintro ⟨x, hx⟩
    by_contra hnone
    rw [Operand.read_of_none fun a ha => hnone ⟨a, ha⟩] at hx
    cases hx
  · rintro ⟨a, ha⟩
    obtain ⟨x, hx, -⟩ := Operand.exists_value_of_text ha
    exact ⟨x, hx⟩
  · intro sign word _ hword htrim
    refine Operand.read_of_none fun a ha => ?_
    exact Operand.text_ne_of_mem_numberWords hword a (ha.trans htrim)

/-- A whole number with blanks around it, infinity in capitals, and a number for the lexer, too. -/
theorem read_operand_spec_samples :
    (∃ x, (Operand.read " -7 ".toList).value = .ok x ∧ RoundsToSigned (-7) x) ∧
      Operand.read "-INFINITY".toList = .text "-INFINITY" ∧
      Token.scan " 2.5e1".toList = .ok [⟨.number 25, 1, 6⟩] ∧
      (Operand.read " 2.5e1".toList).value = .ok 25 := by
  have hwritten : (⟨['7'], none, none⟩ : Numeral).Written :=
    Numeral.written_of_digits ⟨List.all_eq_true.mp rfl, List.cons_ne_nil _ _⟩ rfl
  let seven : SignedNumeral := ⟨some '-', _, by rintro _ ⟨⟩; exact .inr rfl, hwritten⟩
  have hseven : seven.number = -7 := by
    show -((7 : ℕ) * 10 ^ (0 : ℤ) : ℚ) = -7
    norm_num
  have hscan : Token.scan " 2.5e1".toList = .ok [⟨.number 25, 1, 6⟩] := by decide +kernel
  obtain ⟨-, -, hvalue, -, -⟩ := read_operand_spec " -7 ".toList
  obtain ⟨-, -, -, hword, -⟩ := read_operand_spec "-INFINITY".toList
  obtain ⟨-, -, -, -, hlexer⟩ := read_operand_spec " 2.5e1".toList
  refine ⟨hseven ▸ hvalue seven rfl, ?_, hscan, hlexer 25 1 6 hscan⟩
  exact hword (some '-') "INFINITY".toList (by rintro _ ⟨⟩; exact .inr rfl) (by decide) (by decide)

end PocketCalc

import PocketCalc.Proofs.Literal
import PocketCalc.Proofs.SignedNumeral
import PocketCalc.Proofs.Significant

/-!
# The language of tokens

A text is a token if it is a numeral, an identifier or a symbol, and it can be one in one way only:
its first character tells which, and a numeral has one value. At the front of a text the scan takes
the longest of all tokens that the text starts with. `Front` says so without the scan, and in which
cases there is none to take.

That a numeral is taken as long as possible does not need its parts to be compared. Whatever numeral
the text starts with, each stage of the split leaves no more than what follows that numeral.
-/

namespace PocketCalc

open Number

/-! ## The value of a numeral -/

namespace Number

/-- `x` is the double that a number from zero upwards is rounded to: the nearest one, halves to
even, and infinity where the nearest one would lie behind the largest finite double. -/
structure RoundsToDouble (q : ℚ) (x : Float) : Prop where
  notNegative : isNegative x = false
  nearest : ∃ r, IsNearestRank q r ∧ rank x = min r infiniteRank

theorem RoundsToDouble.unique {q : ℚ} {x y : Float} (hx : RoundsToDouble q x)
    (hy : RoundsToDouble q y) : x = y := by
  obtain ⟨r, hr, hxr⟩ := hx.nearest
  obtain ⟨s, hs, hys⟩ := hy.nearest
  rw [← ofRank_rank x, ← ofRank_rank y, hx.notNegative, hy.notNegative, hxr, hys, hr.unique hs]

theorem magnitude_infiniteRank_le : magnitude infiniteRank ≤ 10 ^ (310 : ℤ) := by
  have hunits : units infiniteRank = 2 ^ 1024 * 2 ^ 1074 := by
    rw [infiniteRank_eq, show 2047 * 2 ^ 52 = 2 ^ 52 + 2046 * 2 ^ 52 by rfl,
      units_add (by norm_num) (.inr le_rfl), ← pow_add, ← pow_add]
  rw [magnitude, hunits, unitsPerOne_eq, Nat.cast_mul, Nat.cast_pow, Nat.cast_pow, Nat.cast_ofNat,
    mul_div_cancel_right₀ _ (by positivity)]
  calc (2 : ℚ) ^ 1024 ≤ 2 ^ (205 * 5) := pow_le_pow_right₀ (by norm_num) (by decide)
    _ = (2 ^ 205) ^ 5 := pow_mul _ _ _
    _ ≤ (10 ^ 62) ^ 5 := by gcongr; norm_num
    _ = 10 ^ (310 : ℤ) := by rw [← pow_mul]; rfl

/-- Behind the largest finite double no finite one is nearest. -/
theorem IsNearestRank.infiniteRank_le {q : ℚ} {r : ℕ} (h : IsNearestRank q r)
    (hq : magnitude infiniteRank ≤ q) : infiniteRank ≤ r := by
  by_contra hlt
  have hless := magnitude_strictMono (Nat.lt_of_not_le hlt)
  have hclosest := h.closest infiniteRank
  rw [abs_of_nonneg (by linarith), abs_of_nonneg (by linarith)] at hclosest
  linarith

/-- A decimal is read as the nearest double, however large it is. -/
theorem Decimal.exists_isNearestRank (d : Decimal) :
    ∃ r, IsNearestRank d.value r ∧ d.rank = min r infiniteRank := by
  rcases lt_or_ge d.exponent 310 with hsmall | hlarge
  · exact d.exists_isNearestRank_rank hsmall
  by_cases hzero : d.coefficient = 0
  · refine ⟨0, ?_, by rw [rank, if_pos hzero, Nat.zero_min]⟩
    rw [value, hzero, Nat.cast_zero, zero_mul, ← magnitude_zero]
    exact isNearestRank_magnitude 0
  obtain ⟨r, hr, -⟩ := Number.exists_isNearestRank d.num d.den_pos
  rw [← value_eq_div] at hr
  have hone : (1 : ℚ) ≤ d.coefficient := by exact_mod_cast Nat.one_le_iff_ne_zero.mpr hzero
  have hvalue : magnitude infiniteRank ≤ d.value :=
    calc magnitude infiniteRank ≤ 10 ^ (310 : ℤ) := magnitude_infiniteRank_le
      _ ≤ 10 ^ d.exponent := ten_zpow_le hlarge
      _ ≤ d.coefficient * 10 ^ d.exponent := le_mul_of_one_le_left (ten_zpow_pos _).le hone
  refine ⟨r, hr, ?_⟩
  rw [rank, if_neg hzero, if_pos hlarge, min_eq_right (hr.infiniteRank_le hvalue)]

theorem roundsToDouble_toFloat (d : Decimal) : RoundsToDouble d.value (d.toFloat false) where
  notNegative := isNegative_ofRank false (Literal.rank_le_infiniteRank d)
  nearest := by
    obtain ⟨r, hr, hrank⟩ := d.exists_isNearestRank
    exact ⟨r, hr, (rank_ofRank false (Literal.rank_le_infiniteRank d)).trans hrank⟩

open Float.Model UnpackedFloat in
theorem isNaN_ofRank {r : ℕ} (h : r ≤ infiniteRank) : (ofRank false r).isNaN = false := by
  have hnan := isNaNBits_encoding false h
  have hencoding : encoding false r = packComponents Format.binary64 .positive
      (BitVec.ofNat 11 (r / 2 ^ 52)) (BitVec.ofNat 52 r) := encoding_eq_packComponents false h
  rw [hencoding] at hnan
  show (UnpackedFloat.unpack Format.binary64 (ofRank false r).toBits.toBitVec).isNaN = false
  rw [toBits_ofRank false h, hencoding]
  simp only [isNaNBits, unpackExponent_packComponents, unpackMantissa_packComponents,
    decide_eq_false_iff_not, not_and_not_right] at hnan
  simp only [UnpackedFloat.unpack, unpackExponent_packComponents, unpackMantissa_packComponents]
  -- a full exponent is that of infinity, because there is no mantissa with it
  split
  · rename_i he
    rw [if_pos (hnan he)]
    rfl
  split
  · split <;> rfl
  · rfl

/-- Rounding makes a number, and none below zero. -/
theorem RoundsToDouble.isNaN_eq_false {q : ℚ} {x : Float} (h : RoundsToDouble q x) :
    x.isNaN = false ∧ ¬ x < 0 := by
  obtain ⟨r, -, hr⟩ := h.nearest
  have hle : rank x ≤ infiniteRank := hr ▸ Nat.min_le_right _ _
  rw [← ofRank_rank x, h.notNegative]
  exact ⟨isNaN_ofRank hle, not_ofRank_lt_zero hle⟩

end Number

/-! ## Tokens -/

/-- The symbols. -/
def symbols : List (List Char × TokenKind) :=
  [(['+'], .plus), (['-'], .minus), (['*'], .star), (['/'], .slash), (['*', '*'], .power),
    (['('], .openParen), ([')'], .closeParen), ([','], .comma)]

/-- A text is a token of this kind. -/
inductive TokenText : List Char → TokenKind → Prop where
  /-- A numeral is the number that it is rounded to. -/
  | number (n : Numeral) (x : Float) (written : n.Written)
      (value : RoundsToDouble n.decimal.value x) : TokenText n.text (.number x)
  /-- An identifier starts with a letter or an underscore and goes on with letters, numerals and
  underscores of any script. -/
  | identifier (c : Char) (cs : List Char) (start : isNameStart c = true)
      (more : ∀ d ∈ cs, isNameChar d = true) :
      TokenText (c :: cs) (.identifier (String.ofList (c :: cs)))
  | symbol (word : List Char) (kind : TokenKind) (mem : (word, kind) ∈ symbols) :
      TokenText word kind

/-- A character that a numeral can start with. -/
def isNumeralStart (c : Char) : Bool := c.isDigit || c == '.'

theorem tokenText_number {n : Numeral} (h : n.Written) :
    TokenText n.text (.number (n.decimal.toFloat false)) :=
  .number n _ h (roundsToDouble_toFloat n.decimal)

/-- A numeral is a number to the reader of operands as well, and the same one. -/
theorem exists_readNumber? {n : Numeral} (h : n.Written) : ∃ operand,
    Operand.readNumber? n.text = some operand ∧ operand.value = .ok (n.decimal.toFloat false) := by
  let a : SignedNumeral := ⟨none, n, nofun, h⟩
  refine ⟨_, a.readNumber?_text, ?_⟩
  split
  · -- digits alone are a whole number
    rename_i hwhole
    have hplain : n.isPlain = true := (Bool.and_eq_true_iff.mp hwhole).1
    show Except.ok (ofInt n.decimal.coefficient) = _
    rw [SignedNumeral.decimal_of_isPlain hplain]
    rfl
  · rfl

/-- No identifier starts like a numeral. -/
theorem isNumeralStart_eq_false {c : Char} (h : isNameStart c = true) :
    isNumeralStart c = false := by
  rw [Bool.eq_false_iff]
  intro hn
  simp only [isNumeralStart, Bool.or_eq_true, beq_iff_eq] at hn
  rcases hn with hd | rfl
  · simp only [Char.isDigit, Bool.and_eq_true, decide_eq_true_eq, UInt32.le_iff_toNat_le] at hd
    have hlow : 48 ≤ c.toNat := hd.1
    have hhigh : c.toNat ≤ 57 := hd.2
    have hletter : Text.isLetter c = false := by
      rw [Text.isLetter, if_pos (by omega)]
      simp only [Char.isAlpha, Char.isUpper, Char.isLower, Bool.or_eq_false_iff,
        Bool.and_eq_false_iff, decide_eq_false_iff_not, UInt32.le_iff_toNat_le, ge_iff_le]
      have hval : c.val.toNat = c.toNat := rfl
      simp only [hval, UInt32.reduceToNat, Char.reduceVal]
      omega
    simp only [isNameStart, hletter, Bool.false_or, beq_iff_eq] at h
    subst h
    exact absurd hhigh (by decide)
  · exact absurd h (by decide)

theorem symbols_start : ∀ s ∈ symbols, ∀ c ∈ s.1.head?,
    isNumeralStart c = false ∧ isNameStart c = false := by
  simp [symbols, isNumeralStart, isNameStart, Text.isLetter]

theorem symbols_ne_nil : ∀ s ∈ symbols, s.1 ≠ [] := by
  decide

namespace TokenText

variable {c : Char} {cs word : List Char} {kind kind' : TokenKind}

theorem ne_nil (h : TokenText word kind) : word ≠ [] := by
  cases h with
  | number n x written value =>
      obtain ⟨c, cs, hcs, -⟩ := written.exists_start
      rw [hcs]
      exact List.cons_ne_nil c cs
  | identifier c cs start more => exact List.cons_ne_nil c cs
  | symbol _ _ mem => exact symbols_ne_nil _ mem

/-- What starts like a numeral is one. -/
theorem of_isNumeralStart (h : TokenText (c :: cs) kind) (hc : isNumeralStart c = true) :
    ∃ n x, Numeral.Written n ∧ n.text = c :: cs ∧ kind = .number x ∧
      RoundsToDouble n.decimal.value x := by
  generalize hword : c :: cs = word at h
  cases h with
  | number n x written value => exact ⟨n, x, written, rfl, rfl, value⟩
  | identifier d ds start more =>
      cases hword
      rw [isNumeralStart_eq_false start] at hc
      cases hc
  | symbol _ _ mem =>
      rw [← hword] at mem
      rw [(symbols_start _ mem c rfl).1] at hc
      cases hc

/-- What starts like an identifier is one. -/
theorem of_isNameStart (h : TokenText (c :: cs) kind) (hc : isNameStart c = true) :
    (∀ d ∈ cs, isNameChar d = true) ∧ kind = .identifier (String.ofList (c :: cs)) := by
  generalize hword : c :: cs = word at h
  cases h with
  | number n x written value =>
      obtain ⟨d, ds, hds, hstart, -⟩ := written.exists_start
      rw [hds] at hword
      cases hword
      rw [← isNumeralStart, isNumeralStart_eq_false hc] at hstart
      cases hstart
  | identifier d ds start more =>
      cases hword
      exact ⟨more, rfl⟩
  | symbol _ _ mem =>
      rw [← hword] at mem
      rw [(symbols_start _ mem c rfl).2] at hc
      cases hc

/-- What starts like neither is a symbol. -/
theorem mem_symbols (h : TokenText (c :: cs) kind) (hc : isNumeralStart c = false)
    (hc' : isNameStart c = false) : (c :: cs, kind) ∈ symbols := by
  generalize hword : c :: cs = word at h ⊢
  cases h with
  | number n x written value =>
      obtain ⟨d, ds, hds, hstart, -⟩ := written.exists_start
      rw [hds] at hword
      cases hword
      rw [← isNumeralStart, hc] at hstart
      cases hstart
  | identifier d ds start more =>
      cases hword
      rw [hc'] at start
      cases start
  | symbol _ _ mem => exact mem

end TokenText

/-- Written numerals of one text are the same. -/
theorem Number.Numeral.Written.eq_of_text_eq {n n' : Numeral} (hn : n.Written) (hn' : n'.Written)
    (h : n.text = n'.text) : n = n' := by
  have hsplit := split_numeral isDigitClass_isDigit hn endsNumeral_nil
  have hsplit' := split_numeral isDigitClass_isDigit hn' endsNumeral_nil
  rw [h, hsplit'] at hsplit
  exact (Prod.mk.inj hsplit).1.symm

/-- **A text is a token of one kind at most.** -/
theorem TokenText.unique {word : List Char} {kind kind' : TokenKind} (h : TokenText word kind)
    (h' : TokenText word kind') : kind = kind' := by
  obtain ⟨c, cs, rfl⟩ := List.exists_cons_of_ne_nil h.ne_nil
  cases hc : isNumeralStart c with
  | true =>
      obtain ⟨n, x, hn, htext, rfl, hx⟩ := h.of_isNumeralStart hc
      obtain ⟨n', x', hn', htext', rfl, hx'⟩ := h'.of_isNumeralStart hc
      obtain rfl := hn.eq_of_text_eq hn' (htext.trans htext'.symm)
      rw [hx.unique hx']
  | false =>
      cases hc' : isNameStart c with
      | true => rw [(h.of_isNameStart hc').2, (h'.of_isNameStart hc').2]
      | false =>
          have hfunctional : ∀ s ∈ symbols, ∀ s' ∈ symbols, s.1 = s'.1 → s.2 = s'.2 := by decide
          exact hfunctional _ (h.mem_symbols hc hc') _ (h'.mem_symbols hc hc') rfl

/-! ## The longest numeral -/

namespace Number

variable {p : Char → Bool}

/-- What is left of a text behind an exponent, if it starts with one. -/
def afterExponent (p : Char → Bool) (cs : List Char) : List Char :=
  ((Exponent.split? p cs).map Prod.snd).getD cs

theorem split_whole (cs : List Char) : (Numeral.split p cs).1.whole = cs.takeWhile p := by
  unfold Numeral.split
  dsimp only
  split
  · rfl
  · rfl

theorem split_snd (cs : List Char) : (Numeral.split p cs).2 =
    afterExponent p (Numeral.splitFraction p (cs.dropWhile p)).2 := by
  unfold Numeral.split afterExponent
  dsimp only
  split
  · rename_i h
    rw [h]
    rfl
  · rename_i h
    rw [h]
    rfl

/-! ### Each stage leaves no more than it gets -/

theorem length_dropWhile_le (cs : List Char) : (cs.dropWhile p).length ≤ cs.length :=
  (List.dropWhile_suffix p).length_le

theorem length_splitFraction_le (cs : List Char) :
    (Numeral.splitFraction p cs).2.length ≤ cs.length := by
  have h := congrArg List.length (Numeral.splitFraction_append p cs)
  rw [List.length_append] at h
  omega

theorem length_afterExponent_le (cs : List Char) : (afterExponent p cs).length ≤ cs.length := by
  unfold afterExponent
  cases h : Exponent.split? p cs with
  | none => exact Nat.le_refl _
  | some found =>
      have hlength := congrArg List.length (Exponent.split?_append h)
      rw [List.length_append] at hlength
      show found.2.length ≤ cs.length
      omega

/-! ### A numeral that is there is not left over -/

section

variable (hp : IsDigitClass p) {rest : List Char}
include hp

/-- The letter of an exponent is no digit and no point. -/
theorem Exponent.Written.splitFraction_eq {e : Exponent} (he : e.Written) (rest : List Char) :
    (e.text ++ rest).dropWhile p = e.text ++ rest ∧
      Numeral.splitFraction p (e.text ++ rest) = (none, e.text ++ rest) := by
  obtain ⟨mark, sign, digits⟩ := e
  rcases he.mark with rfl | rfl
  · exact ⟨List.dropWhile_cons_of_neg (by rw [hp.mark.1]; decide), rfl⟩
  · exact ⟨List.dropWhile_cons_of_neg (by rw [hp.mark.2]; decide), rfl⟩

theorem Exponent.Written.length_after_le {e : Exponent} (he : e.Written) :
    (afterExponent p (e.text ++ rest)).length ≤ rest.length := by
  have hsplit := (he.writtenIn hp).splitSign_eq hp rest
  obtain ⟨mark, sign, digits⟩ := e
  obtain ⟨hmark, hsign, hdigits, hne⟩ := he
  obtain ⟨d, ds, rfl⟩ := List.exists_cons_of_ne_nil hne
  have hd : p d = true := hp.digit d (hdigits d List.mem_cons_self)
  have htake : (d :: ds ++ rest).takeWhile p ≠ [] := by
    rw [List.cons_append, List.takeWhile_cons_of_pos hd]
    exact List.cons_ne_nil _ _
  have hdrop : (d :: ds ++ rest).dropWhile p = rest.dropWhile p :=
    List.dropWhile_append_of_pos fun c hc => hp.digit c (hdigits c hc)
  have hfound : Exponent.split? p (Exponent.text ⟨mark, sign, d :: ds⟩ ++ rest) =
      some (⟨mark, sign, (d :: ds ++ rest).takeWhile p⟩, rest.dropWhile p) := by
    rw [Exponent.text, List.cons_append, List.append_assoc, Exponent.split?]
    simp only [hsplit, hdrop]
    rw [if_pos ⟨hmark, htake⟩]
  rw [afterExponent, hfound]
  exact length_dropWhile_le rest

/-- What is left behind a fraction and an exponent is at most what follows them. -/
theorem length_afterFraction_le {fraction : Option (List Char)} {exponent : Option Exponent}
    (hf : ∀ ds ∈ fraction, ∀ c ∈ ds, p c = true) (he : ∀ e ∈ exponent, e.Written) :
    (afterExponent p (Numeral.splitFraction p (((fraction.map ('.' :: ·)).getD [] ++
      ((exponent.map Exponent.text).getD [] ++ rest)).dropWhile p)).2).length ≤ rest.length := by
  cases fraction with
  | none =>
      rw [Option.map_none, Option.getD_none, List.nil_append]
      cases exponent with
      | none =>
          exact (length_afterExponent_le _).trans
            ((length_splitFraction_le _).trans (length_dropWhile_le rest))
      | some e =>
          obtain ⟨hdrop, hfraction⟩ := (he e rfl).splitFraction_eq hp rest
          rw [Option.map_some, Option.getD_some, hdrop, hfraction]
          exact (he e rfl).length_after_le hp
  | some ds =>
      have hpoint (cs : List Char) : (Numeral.splitFraction p
          ((('.' :: ds) ++ cs).dropWhile p)).2 = cs.dropWhile p := by
        rw [List.cons_append, List.dropWhile_cons_of_neg (by rw [hp.point]; decide)]
        exact List.dropWhile_append_of_pos (hf ds rfl)
      rw [Option.map_some, Option.getD_some, hpoint]
      cases exponent with
      | none => exact (length_afterExponent_le _).trans (length_dropWhile_le rest)
      | some e =>
          rw [Option.map_some, Option.getD_some, ((he e rfl).splitFraction_eq hp rest).1]
          exact (he e rfl).length_after_le hp

/-- **No more is left of a text than what follows any numeral at its front.** -/
theorem Numeral.Written.length_split_le {n : Numeral} (hn : n.Written) (rest : List Char) :
    (Numeral.split p (n.text ++ rest)).2.length ≤ rest.length := by
  have hdigit (c : Char) (hc : c ∈ n.digits) : p c = true :=
    hp.digit c (hn.digits.isDigit c hc)
  have hwhole : ∀ c ∈ n.whole, p c = true :=
    fun c hc => hdigit c (List.mem_append_left _ hc)
  rw [split_snd, Numeral.text, List.append_assoc, List.append_assoc,
    List.dropWhile_append_of_pos hwhole]
  refine length_afterFraction_le hp (fun ds hds c hc => hdigit c ?_) hn.exponent
  rw [Numeral.digits, show n.fraction = some ds from hds]
  exact List.mem_append_right _ hc

end

end Number

/-! ## The front of a text -/

/-- The text starts with this token, and with no longer one. -/
structure LongestToken (cs word : List Char) (kind : TokenKind) : Prop where
  isPrefix : word <+: cs
  token : TokenText word kind
  longest : ∀ word' kind', word' <+: cs → TokenText word' kind' → word'.length ≤ word.length

/-- Digits that start with a zero without being all zeros. -/
structure RedundantZeros (word : List Char) : Prop where
  digits : ∀ c ∈ word, c.isDigit = true
  zero : word.head? = some '0'
  other : ∃ c ∈ word, c ≠ '0'

/-- What stands at the front of a text: the longest token, unless that is a number with redundant
zeros, or no token at all. -/
inductive Front (position : Nat) : List Char → Except SyntaxFault Lexeme → Prop where
  | token (word rest : List Char) (kind : TokenKind)
      (longest : LongestToken (word ++ rest) word kind) (plain : ¬ RedundantZeros word) :
      Front position (word ++ rest) (.ok ⟨kind, word, rest⟩)
  | leadingZeros (word rest : List Char) (kind : TokenKind)
      (longest : LongestToken (word ++ rest) word kind) (redundant : RedundantZeros word) :
      Front position (word ++ rest) (.error (.leadingZeros (String.ofList word)))
  /-- A point that starts no number. -/
  | lonePoint (cs : List Char) (none : ∀ word kind, word <+: '.' :: cs → ¬ TokenText word kind) :
      Front position ('.' :: cs) (.error (.lonePoint position))
  /-- A character that no token starts with. -/
  | unexpectedCharacter (c : Char) (cs : List Char)
      (none : ∀ word kind, ¬ TokenText (c :: word) kind) :
      Front position (c :: cs) (.error (.unexpectedCharacter c position))

section

variable {c : Char} {cs word word' : List Char} {kind kind' : TokenKind} {position : Nat}

theorem LongestToken.unique (h : LongestToken cs word kind) (h' : LongestToken cs word' kind') :
    word = word' ∧ kind = kind' := by
  have hlength : word.length = word'.length :=
    Nat.le_antisymm (h'.longest _ _ h.isPrefix h.token) (h.longest _ _ h'.isPrefix h'.token)
  have hword : word = word' :=
    (List.prefix_of_prefix_length_le h.isPrefix h'.isPrefix hlength.le).eq_of_length hlength
  subst hword
  exact ⟨rfl, h.token.unique h'.token⟩

/-- A token at the front of a text starts with its first character. -/
theorem TokenText.exists_cons (h : TokenText word kind) (hp : word <+: c :: cs) :
    ∃ more, word = c :: more := by
  obtain ⟨rest, hrest⟩ := hp
  cases word with
  | nil => exact absurd rfl h.ne_nil
  | cons d more =>
      obtain ⟨rfl, -⟩ := List.cons.inj hrest
      exact ⟨more, rfl⟩

/-- What no token starts with is no point, because a point and a digit are a number. -/
theorem ne_point_of_none (h : ∀ word kind, ¬ TokenText (c :: word) kind) : c ≠ '.' := by
  rintro rfl
  have hdigits : Digits ['5'] :=
    ⟨fun c hc => by obtain rfl := List.mem_singleton.mp hc; rfl, List.cons_ne_nil _ _⟩
  have hn : (⟨[], some ['5'], none⟩ : Numeral).Written := Numeral.written_of_digits hdigits rfl
  exact h ['5'] _ (tokenText_number hn)

/-- A text has no token at its front if no token starts with its first character. -/
theorem none_of_none (h : ∀ word kind, ¬ TokenText (c :: word) kind) (word : List Char)
    (kind : TokenKind) (hp : word <+: c :: cs) : ¬ TokenText word kind := by
  intro ht
  obtain ⟨more, rfl⟩ := ht.exists_cons hp
  exact h more kind ht

namespace Front

variable {r r' : Except SyntaxFault Lexeme}

theorem eq_of_longest (h : Front position cs r) (hl : LongestToken cs word kind) :
    (¬ RedundantZeros word ∧ r = .ok ⟨kind, word, cs.drop word.length⟩) ∨
      (RedundantZeros word ∧ r = .error (.leadingZeros (String.ofList word))) := by
  cases h with
  | token word' rest kind' longest plain =>
      obtain ⟨rfl, rfl⟩ := hl.unique longest
      exact .inl ⟨plain, by rw [List.drop_left]⟩
  | leadingZeros word' rest kind' longest redundant =>
      obtain ⟨rfl, rfl⟩ := hl.unique longest
      exact .inr ⟨redundant, rfl⟩
  | lonePoint cs none => exact absurd hl.token (none _ _ hl.isPrefix)
  | unexpectedCharacter c cs none =>
      exact absurd hl.token (none_of_none none _ _ hl.isPrefix)

theorem eq_of_none (h : Front position (c :: cs) r)
    (hn : ∀ word kind, word <+: c :: cs → ¬ TokenText word kind) :
    (c = '.' ∧ r = .error (.lonePoint position)) ∨
      (c ≠ '.' ∧ r = .error (.unexpectedCharacter c position)) := by
  generalize hcs : c :: cs = ds at h hn
  cases h with
  | token word rest kind longest plain => exact absurd longest.token (hn _ _ longest.isPrefix)
  | leadingZeros word rest kind longest redundant =>
      exact absurd longest.token (hn _ _ longest.isPrefix)
  | lonePoint ds none =>
      cases hcs
      exact .inl ⟨rfl, rfl⟩
  | unexpectedCharacter d ds none =>
      cases hcs
      exact .inr ⟨ne_point_of_none none, rfl⟩

/-- **One thing only stands at the front of a text.** -/
theorem unique (h : Front position cs r) (h' : Front position cs r') : r = r' := by
  cases h with
  | token word rest kind longest plain =>
      rcases h'.eq_of_longest longest with ⟨-, rfl⟩ | ⟨redundant, -⟩
      · rw [List.drop_left]
      · exact absurd redundant plain
  | leadingZeros word rest kind longest redundant =>
      rcases h'.eq_of_longest longest with ⟨plain, -⟩ | ⟨-, rfl⟩
      · exact absurd redundant plain
      · rfl
  | lonePoint cs none =>
      rcases h'.eq_of_none none with ⟨-, rfl⟩ | ⟨hne, -⟩
      · rfl
      · exact absurd rfl hne
  | unexpectedCharacter c cs none =>
      rcases h'.eq_of_none (none_of_none none) with ⟨hc, -⟩ | ⟨-, rfl⟩
      · exact absurd hc (ne_point_of_none none)
      · rfl

end Front

/-! ## What the scan takes -/

/-- The numeral that is split off is the longest token. -/
theorem longestToken_of_split {n : Numeral} {rest : List Char}
    (h : Numeral.split Char.isDigit (c :: cs) = (n, rest)) (hd : n.digits ≠ [])
    (hc : isNumeralStart c = true) :
    LongestToken (c :: cs) n.text (.number (n.decimal.toFloat false)) := by
  have happend := Numeral.split_append Char.isDigit (c :: cs)
  rw [h] at happend
  dsimp only at happend
  refine ⟨⟨rest, happend⟩, tokenText_number (writtenIn_of_split h hd).written, fun word kind hp ht => ?_⟩
  obtain ⟨more, rfl⟩ := ht.exists_cons hp
  obtain ⟨n', x, hn', htext, -⟩ := ht.of_isNumeralStart hc
  obtain ⟨rest', hrest⟩ := hp
  have hle := hn'.length_split_le isDigitClass_isDigit rest'
  rw [htext, hrest, h] at hle
  have hlength := congrArg List.length (happend.trans hrest.symm)
  rw [List.length_append, List.length_append] at hlength
  dsimp only at hle
  omega

/-- The name that is taken is the longest token. -/
theorem longestToken_identifier (hc : isNameStart c = true) (cs : List Char) :
    LongestToken (c :: cs) (Lexeme.identifier (c :: cs)).spelling
      (Lexeme.identifier (c :: cs)).kind := by
  have hstart := Lexeme.isNameChar_of_isNameStart hc
  have htake : (c :: cs).takeWhile isNameChar = c :: cs.takeWhile isNameChar :=
    List.takeWhile_cons_of_pos hstart
  refine ⟨List.takeWhile_prefix _, ?_, fun word kind hp ht => ?_⟩
  · show TokenText ((c :: cs).takeWhile isNameChar)
      (.identifier (String.ofList ((c :: cs).takeWhile isNameChar)))
    rw [htake]
    exact .identifier c _ hc fun d hd => List.mem_takeWhile_imp hd
  · obtain ⟨more, rfl⟩ := ht.exists_cons hp
    have hmore := (ht.of_isNameStart hc).1
    obtain ⟨rest, hrest⟩ := hp
    show (c :: more).length ≤ ((c :: cs).takeWhile isNameChar).length
    rw [← hrest, List.takeWhile_append_of_pos (List.forall_mem_cons.mpr ⟨hstart, hmore⟩),
      List.length_append]
    exact Nat.le_add_right _ _

/-- The symbol that is taken is the longest token. -/
theorem longestToken_symbol {l : Lexeme} (h : Lexeme.symbol? (c :: cs) = some l)
    (hc : isNumeralStart c = false) (hc' : isNameStart c = false) :
    LongestToken (c :: cs) l.spelling l.kind := by
  obtain ⟨happend, hne⟩ := Lexeme.symbol?_append h
  have hmem : (l.spelling, l.kind) ∈ symbols := by
    unfold Lexeme.symbol? at h
    split at h <;> cases h <;> simp [symbols]
  refine ⟨⟨l.rest, happend⟩, .symbol _ _ hmem, fun word kind hp ht => ?_⟩
  obtain ⟨more, rfl⟩ := ht.exists_cons hp
  have hlength : ∀ s ∈ symbols, s.1.length ≤ 1 ∨ s.1 = ['*', '*'] := by decide
  rcases hlength _ (ht.mem_symbols hc hc') with hone | hstars
  · exact hone.trans (List.length_pos_iff.mpr hne)
  · -- where there are two stars, they are taken
    obtain ⟨rest, hrest⟩ := hp
    dsimp only at hstars
    rw [hstars] at hrest ⊢
    rw [← hrest] at h
    cases h
    exact Nat.le_refl _

theorem symbol?_of_tokenText (ht : TokenText (c :: word) kind) (hc : isNumeralStart c = false)
    (hc' : isNameStart c = false) (cs : List Char) : Lexeme.symbol? (c :: cs) ≠ none := by
  have hmem := ht.mem_symbols hc hc'
  unfold Lexeme.symbol?
  split <;> simp_all [symbols]

/-! ### Where nothing is taken -/

/-- Neither a point nor the letter of an exponent is a digit. -/
theorem plain_of_isDigit {n : Numeral} (hn : n.Written) (h : ∀ c ∈ n.text, c.isDigit = true) :
    n.fraction = none ∧ n.exponent = none := by
  obtain ⟨whole, fraction, exponent⟩ := n
  constructor
  · cases fraction with
    | none => rfl
    | some ds => exact absurd (h '.' (by simp [Numeral.text])) (by decide)
  · cases exponent with
    | none => rfl
    | some e =>
        have hmark := h e.mark (by simp [Numeral.text, Exponent.text])
        rcases (hn.exponent e rfl).mark with he | he
        · rw [he] at hmark
          cases hmark
        · rw [he] at hmark
          cases hmark

theorem redundantZeros_iff {n : Numeral} (hn : n.Written) :
    RedundantZeros n.text ↔ n.hasLeadingZero = true := by
  constructor
  · rintro ⟨hdigits, hzero, d, hd, hne⟩
    obtain ⟨hfraction, hexponent⟩ := plain_of_isDigit hn hdigits
    obtain ⟨whole, fraction, exponent⟩ := n
    subst hfraction hexponent
    simp only [Numeral.text, Option.map_none, Option.getD_none, List.append_nil] at hzero hd
    simp only [Numeral.hasLeadingZero, Numeral.isPlain, Option.isNone_none, Bool.true_and, hzero,
      beq_self_eq_true, List.any_eq_true, bne_iff_ne]
    exact ⟨d, hd, hne⟩
  · intro h
    obtain ⟨whole, fraction, exponent⟩ := n
    simp only [Numeral.hasLeadingZero, Numeral.isPlain, Bool.and_eq_true, Option.isNone_iff_eq_none,
      beq_iff_eq, List.any_eq_true, bne_iff_ne] at h
    obtain ⟨⟨⟨rfl, rfl⟩, hzero⟩, hother⟩ := h
    have htext : (⟨whole, none, none⟩ : Numeral).text = whole := by simp [Numeral.text]
    rw [htext]
    exact ⟨fun c hc => hn.digits.isDigit c (List.mem_append_left _ hc), hzero, hother⟩

/-- What does not start with a digit is no row of digits. -/
theorem not_redundantZeros (hc : isNumeralStart c = false) : ¬ RedundantZeros (c :: cs) := by
  intro h
  rw [isNumeralStart, h.digits c List.mem_cons_self] at hc
  cases hc

/-- Only a point without a digit behind it starts like a numeral without any digit. -/
theorem digits_split_eq_nil (hc : isNumeralStart c = true)
    (h : (Numeral.split Char.isDigit (c :: cs)).1.digits = []) :
    c = '.' ∧ cs.takeWhile Char.isDigit = [] := by
  have hwhole : (c :: cs).takeWhile Char.isDigit = [] := by
    rw [Numeral.digits, split_whole] at h
    exact (List.append_eq_nil_iff.mp h).1
  simp only [isNumeralStart, Bool.or_eq_true, beq_iff_eq] at hc
  rcases hc with hdigit | rfl
  · rw [List.takeWhile_cons_of_pos hdigit] at hwhole
    cases hwhole
  · refine ⟨rfl, ?_⟩
    rw [← h, Numeral.split]
    dsimp only
    split <;> rfl

/-- A number that starts with a point goes on with a digit. -/
theorem exists_digit_of_point {n : Numeral} (hn : n.Written) (h : n.text = '.' :: word) :
    ∃ d ds, word = d :: ds ∧ d.isDigit = true := by
  obtain ⟨whole, fraction, exponent⟩ := n
  cases whole with
  | cons d ds =>
      obtain ⟨rfl, -⟩ := List.cons.inj h
      exact absurd (hn.digits.isDigit '.' List.mem_cons_self) (by decide)
  | nil =>
      cases fraction with
      | none => exact absurd rfl hn.digits.nonempty
      | some f =>
          obtain ⟨d, ds, rfl⟩ := List.exists_cons_of_ne_nil hn.digits.nonempty
          obtain ⟨-, rfl⟩ := List.cons.inj h
          exact ⟨d, ds ++ _, rfl, hn.digits.isDigit d List.mem_cons_self⟩

/-- A point behind which no digit stands starts no token. -/
theorem none_of_point (h : cs.takeWhile Char.isDigit = []) (word : List Char) (kind : TokenKind)
    (hp : word <+: '.' :: cs) : ¬ TokenText word kind := by
  intro ht
  obtain ⟨more, rfl⟩ := ht.exists_cons hp
  obtain ⟨n, x, hn, htext, -⟩ := ht.of_isNumeralStart rfl
  obtain ⟨d, ds, rfl, hd⟩ := exists_digit_of_point hn htext
  obtain ⟨rest, hrest⟩ := hp
  obtain ⟨-, rfl⟩ := List.cons.inj hrest
  rw [List.append_eq, List.cons_append, List.takeWhile_cons_of_pos hd] at h
  cases h

/-- A lexeme that is the longest token stands at the front. -/
theorem front_of_longest {l : Lexeme} (position : Nat) (happend : l.spelling ++ l.rest = cs)
    (hl : LongestToken cs l.spelling l.kind) (plain : ¬ RedundantZeros l.spelling) :
    Front position cs (.ok l) := by
  subst happend
  exact .token _ _ _ hl plain

theorem front_number (position : Nat) (hc : isNumeralStart c = true) :
    Front position (c :: cs) (Lexeme.number position (c :: cs)) := by
  have happend := Numeral.split_append Char.isDigit (c :: cs)
  unfold Lexeme.number
  cases hsplit : Numeral.split Char.isDigit (c :: cs) with
  | mk n rest =>
  rw [hsplit] at happend
  dsimp only at happend ⊢
  split
  · rename_i hd
    obtain ⟨rfl, hrest⟩ := digits_split_eq_nil hc (by rw [hsplit]; exact hd)
    exact .lonePoint cs (none_of_point hrest)
  · rename_i hd
    have hn := (writtenIn_of_split hsplit hd).written
    have hlongest := longestToken_of_split hsplit hd hc
    split
    · rename_i hz
      rw [← happend] at hlongest ⊢
      exact .leadingZeros _ _ _ hlongest ((redundantZeros_iff hn).mpr hz)
    · rename_i hz
      exact front_of_longest position happend hlongest (mt (redundantZeros_iff hn).mp hz)

/-- **The first lexeme of a text is what stands at its front.** -/
theorem front_first (position : Nat) (c : Char) (cs : List Char) :
    Front position (c :: cs) (Lexeme.first position c cs) := by
  unfold Lexeme.first
  split
  · exact front_number position ‹_›
  rename_i hc
  have hc : isNumeralStart c = false := eq_false_of_ne_true hc
  -- whatever is taken starts with the first character, which is no digit
  have hplain {word : List Char} {kind : TokenKind} (h : LongestToken (c :: cs) word kind) :
      ¬ RedundantZeros word := by
    obtain ⟨more, rfl⟩ := h.token.exists_cons h.isPrefix
    exact not_redundantZeros hc
  split
  · rename_i hname
    have hlongest := longestToken_identifier hname cs
    exact front_of_longest position (Lexeme.identifier_append _) hlongest (hplain hlongest)
  rename_i hname
  have hname : isNameStart c = false := eq_false_of_ne_true hname
  split
  · rename_i l hl
    have hlongest := longestToken_symbol hl hc hname
    exact front_of_longest position (Lexeme.symbol?_append hl).1 hlongest (hplain hlongest)
  · rename_i hnone
    exact .unexpectedCharacter c cs fun word kind ht =>
      symbol?_of_tokenText ht hc hname cs hnone

end

end PocketCalc

import PocketCalc.Number.Shown

/-!
# Which characters a number is written with

A text that stands for a double is made of digits, of the few letters of the special values and of
exponents, and of a minus; and it has one point at most. `NumberText` says so, and the text on the
display as well as the one that is recalled from memory are of this kind.

What is laid out around the point are the digits of a decimal, so the layout carries the argument:
nothing is said here about which decimal that is.
-/

namespace PocketCalc.Number

/-- The letters that special values and exponents are spelled with. -/
def spellingLetters : List Char := ['n', 'a', 'i', 'f', 'N', 'e']

/-- A character of a number other than the point. -/
def IsPlain (c : Char) : Prop := c.isDigit = true ∨ c = '-' ∨ c ∈ spellingLetters

/-- A text without a point, of characters that numbers are written with. -/
def Plain (cs : List Char) : Prop := ∀ c ∈ cs, IsPlain c

/-- A text as numbers are written: with a single point, or with none. -/
inductive NumberText : List Char → Prop where
  | plain {cs : List Char} (h : Plain cs) : NumberText cs
  | pointed {whole fraction : List Char} (hw : Plain whole) (hf : Plain fraction) :
      NumberText (whole ++ '.' :: fraction)

/-- Numbers are written without a plus, in front as in the exponent. -/
theorem NumberText.not_mem_plus {cs : List Char} (h : NumberText cs) : '+' ∉ cs := by
  have hplain {cs : List Char} (h : Plain cs) : '+' ∉ cs := fun hc =>
    absurd (h '+' hc) (by unfold IsPlain; decide)
  cases h with
  | plain h => exact hplain h
  | pointed hw hf => simp [hplain hw, hplain hf]

/-! ## Plain texts -/

theorem plain_append {as bs : List Char} (ha : Plain as) (hb : Plain bs) : Plain (as ++ bs) := by
  intro c hc
  rcases List.mem_append.mp hc with h | h
  · exact ha c h
  · exact hb c h

theorem plain_cons {c : Char} {cs : List Char} (hc : IsPlain c) (hcs : Plain cs) :
    Plain (c :: cs) :=
  List.forall_mem_cons.mpr ⟨hc, hcs⟩

theorem plain_zeros (n : Nat) : Plain (List.replicate n '0') := by
  intro c hc
  rw [List.eq_of_mem_replicate hc]
  exact .inl rfl

theorem plain_toDigits (n : Nat) : Plain (Nat.toDigits 10 n) :=
  fun _ hc => .inl (Nat.isDigit_of_mem_toDigits (by decide) (by decide) hc)

theorem plain_take {cs : List Char} (h : Plain cs) (n : Nat) : Plain (cs.take n) :=
  fun c hc => h c (List.mem_of_mem_take hc)

theorem plain_drop {cs : List Char} (h : Plain cs) (n : Nat) : Plain (cs.drop n) :=
  fun c hc => h c (List.mem_of_mem_drop hc)

theorem plain_twoDigits (n : Nat) : Plain (twoDigits n) :=
  plain_append (plain_zeros _) (plain_toDigits n)

theorem plain_minus {cs : List Char} (h : Plain cs) : Plain ('-' :: cs) :=
  plain_cons (.inr (.inl rfl)) h

/-- A text without a point, tested one character after another. -/
theorem plain_of_letters {cs : List Char} (h : cs.all spellingLetters.contains = true) :
    Plain cs := by
  intro c hc
  exact .inr (.inr (by simpa using List.all_eq_true.mp h c hc))

/-! ## The two notations -/

theorem numberText_signed {cs : List Char} (negative : Bool) (h : NumberText cs) :
    NumberText (signed negative cs) := by
  cases negative with
  | false => exact h
  | true =>
      cases h with
      | plain h => exact .plain (plain_minus h)
      | pointed hw hf => exact .pointed (plain_minus hw) hf

theorem numberText_positional {digits : List Char} (h : Plain digits) (exponent : Int) :
    NumberText (positional digits exponent) := by
  unfold positional
  dsimp only
  split
  · exact .plain (plain_append h (plain_zeros _))
  · split
    · exact .pointed (plain_take h _) (plain_drop h _)
    · exact .pointed (plain_zeros 1) (plain_append (plain_zeros _) h)

theorem numberText_scientific {digits exponent : List Char} (h : Plain digits)
    (he : Plain exponent) : NumberText (scientific digits exponent) := by
  have he' : Plain ('e' :: exponent) := plain_cons (.inr (.inr (by decide))) he
  unfold scientific
  split
  · exact .plain h
  · exact .plain (plain_append h he')
  · exact .pointed (plain_take h 1) (plain_append (plain_drop h 1) he')

/-! ## The texts of a double -/

theorem numberText_wholeText (negative : Bool) (rank : Nat) :
    NumberText (wholeText negative rank) := by
  unfold wholeText
  dsimp only
  split
  · exact .plain (plain_zeros 1)
  · exact numberText_signed _ (.plain (plain_toDigits _))

theorem numberText_significantText (count : Nat) (negative : Bool) (rank : Nat) :
    NumberText (significantText count negative rank) := by
  unfold significantText
  dsimp only
  split
  · exact numberText_wholeText _ _
  · refine numberText_signed _ ?_
    split
    · exact numberText_scientific (plain_toDigits _) (plain_minus (plain_twoDigits _))
    · exact numberText_positional (plain_toDigits _) _

/-- **What the display shows of a double is a number text**, whatever the precision. -/
theorem numberText_shown (precision : Nat) (x : Float) : NumberText (shown precision x) := by
  unfold shown
  split
  · exact .plain (plain_of_letters rfl)
  · exact numberText_signed _ (.plain (plain_of_letters rfl))
  · split
    · exact numberText_wholeText _ _
    · exact numberText_significantText _ _ _

/-- A number that is written out in full is in positional notation, with nothing behind it. -/
theorem writeDecimal_full (d : Decimal) :
    fullStyle.writeDecimal d = positional d.digits d.exponent := by
  simp [Style.writeDecimal, fullStyle]

theorem numberText_writeDecimal (d : Decimal) : NumberText (fullStyle.writeDecimal d) := by
  rw [writeDecimal_full]
  exact numberText_positional (plain_toDigits _) _

/-- **A double written out in full is a number text.** -/
theorem numberText_full (x : Float) : NumberText (fullStyle.write x) := by
  unfold Style.write
  split
  · exact .plain (plain_of_letters rfl)
  · exact numberText_signed _ (.plain (plain_of_letters rfl))
  · exact numberText_signed _ (numberText_writeDecimal _)

/-! ## No text is empty -/

theorem signed_ne_nil {cs : List Char} (negative : Bool) (h : cs ≠ []) : signed negative cs ≠ [] := by
  cases negative with
  | false => exact h
  | true => exact List.cons_ne_nil _ _

theorem scientific_ne_nil {digits : List Char} (h : digits ≠ []) (exponent : List Char) :
    scientific digits exponent ≠ [] := by
  unfold scientific
  split
  · exact absurd rfl h
  · exact List.cons_ne_nil _ _
  · exact List.cons_ne_nil _ _

theorem positional_ne_nil {digits : List Char} (h : digits ≠ []) (exponent : Int) :
    positional digits exponent ≠ [] := by
  unfold positional
  dsimp only
  split
  · simp [h]
  · split <;> simp

theorem wholeText_ne_nil (negative : Bool) (rank : Nat) : wholeText negative rank ≠ [] := by
  unfold wholeText
  dsimp only
  split
  · decide
  · exact signed_ne_nil _ Nat.toDigits_ne_nil

theorem shown_ne_nil (precision : Nat) (x : Float) : shown precision x ≠ [] := by
  unfold shown
  split
  · decide
  · exact signed_ne_nil _ (by decide)
  · split
    · exact wholeText_ne_nil _ _
    · unfold significantText
      dsimp only
      split
      · exact wholeText_ne_nil _ _
      · refine signed_ne_nil _ ?_
        split
        · exact scientific_ne_nil Nat.toDigits_ne_nil _
        · exact positional_ne_nil Nat.toDigits_ne_nil _

end PocketCalc.Number

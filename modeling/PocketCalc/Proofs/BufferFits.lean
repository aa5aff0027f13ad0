import PocketCalc.Keypad.Buffer
import PocketCalc.Keypad.Key

/-!
# What may stand behind what in a buffer

The guards of the keypad look at the end of the text only, and the last character can be taken away
again at any time. So the invariant has to speak about every beginning of the text: each character
*fits* behind the characters in front of it. That is closed under taking characters away, and it is
all a guard needs to know.

The two clauses that carry the rest are those of the blank, which keeps a text from being blank
throughout, and of the `w`: that letter is typed as the end of ` pow ` only, so a text that ends in
`pow` has no point in its last segment and any number may follow it.
-/

namespace PocketCalc

namespace Buffer

/-- The operators of one character that need an operand in front of them. -/
def infixSigns : List Char := ['+', '*', '/']

/-- A character that fits anywhere: a letter or digit of ASCII, a sign or a parenthesis. The `w` is
left out. -/
def isLoose (c : Char) : Bool := (c.isAlphanum || c == '-' || c == '(' || c == ')') && c != 'w'

/-- A character that a buffer may hold. -/
def IsTypeable (c : Char) : Prop := c.isAlphanum = true ∨ c ∈ ". +-*/()".toList

instance (c : Char) : Decidable (IsTypeable c) := inferInstanceAs (Decidable (_ ∨ _))

/-- The text ends in an operand, so that a binary operator may follow. -/
def TakesOperator (b : Buffer) : Prop :=
  Text.trimEnd b.chars ≠ [] ∧ b.endsWithOperatorOrOpen = false

/-- What a character asks of the text in front of it. -/
structure Fits (b : Buffer) (c : Char) : Prop where
  typeable : IsTypeable c
  /-- A number has one point. -/
  point : c = '.' → b.trailingSegmentHasPoint = false
  /-- A text does not start with a blank. -/
  blank : c = ' ' → Text.trimEnd b.chars ≠ []
  /-- A binary operator follows an operand. -/
  sign : c ∈ infixSigns → b.TakesOperator
  /-- The operator `pow` follows an operand and a blank. -/
  word : c = 'w' → ∃ front : Buffer, b = front.append " po".toList ∧ front.TakesOperator

/-- Every character fits behind the text in front of it. -/
def Fitting (b : Buffer) : Prop :=
  ∀ (front : Buffer) (c : Char), (front.push c).chars <+: b.chars → front.Fits c

variable {b : Buffer} {c : Char}

/-! ## Growing and shrinking -/

theorem eq_empty_or_push (b : Buffer) : b = {} ∨ ∃ front c, b = push front c := by
  obtain ⟨chars⟩ := b
  rcases List.eq_nil_or_concat chars with rfl | ⟨front, c, rfl⟩
  · exact .inl rfl
  · exact .inr ⟨⟨front⟩, c, by rw [List.concat_eq_append]; rfl⟩

theorem append_cons (b : Buffer) (c : Char) (cs : List Char) :
    b.append (c :: cs) = (b.push c).append cs := by
  simp [append, push]

theorem append_nil (b : Buffer) : b.append [] = b := by
  simp [append]

theorem fitting_empty : Fitting {} := by
  intro front c h
  exact absurd (List.prefix_nil.mp h) (by simp [push])

theorem fitting_push (h : b.Fitting) (hc : b.Fits c) : (b.push c).Fitting := by
  intro front d hd
  rcases List.prefix_concat_iff.mp hd with he | hp
  · -- the new character, with all of `b` in front of it
    obtain ⟨hf, rfl⟩ := List.append_singleton_inj.mp he
    have : front = b := by cases front; cases b; exact congrArg Buffer.mk hf
    rw [this]
    exact hc
  · exact h front d hp

/-- **A shorter text fits as well**: nothing is asked of what follows. -/
theorem fitting_dropLast (h : b.Fitting) : b.dropLast.Fitting :=
  fun front c hp => h front c (hp.trans (List.dropLast_prefix b.chars))

theorem fits_of_fitting (h : (b.push c).Fitting) : b.Fits c := h b c List.prefix_rfl

/-! ## Loose characters -/

theorem isLoose_of_isDigit (h : c.isDigit = true) : isLoose c = true := by
  have hw : c ≠ 'w' := by rintro rfl; exact absurd h (by decide)
  simp [isLoose, Char.isAlphanum, h, hw]

theorem fits_of_isLoose (h : isLoose c = true) : b.Fits c where
  typeable := by
    simp only [isLoose, Bool.and_eq_true, Bool.or_eq_true, beq_iff_eq] at h
    rcases h with ⟨((h | rfl) | rfl) | rfl, -⟩
    · exact .inl h
    · decide
    · decide
    · decide
  point hc := by subst hc; exact absurd h (by decide)
  blank hc := by subst hc; exact absurd h (by decide)
  sign hc := by
    simp only [infixSigns, List.mem_cons, List.not_mem_nil, or_false] at hc
    rcases hc with rfl | rfl | rfl <;> exact absurd h (by decide)
  word hc := by subst hc; exact absurd h (by decide)

theorem fitting_append_of_isLoose {cs : List Char} (h : b.Fitting)
    (hcs : ∀ c ∈ cs, isLoose c = true) : (b.append cs).Fitting := by
  induction cs generalizing b with
  | nil => rw [append_nil]; exact h
  | cons c cs ih =>
      rw [append_cons]
      exact ih (fitting_push h (fits_of_isLoose (hcs c List.mem_cons_self)))
        fun d hd => hcs d (List.mem_cons_of_mem c hd)

/-- Only a point puts a point into the last segment. -/
theorem hasPoint_push (hb : b.trailingSegmentHasPoint = false) (hc : c ≠ '.') :
    (b.push c).trailingSegmentHasPoint = false := by
  unfold trailingSegmentHasPoint at hb ⊢
  cases hs : isSegmentBreak c with
  | true => rw [trailingSegment_push_of_break b hs]; rfl
  | false =>
      rw [trailingSegment_push_of_not_break b hs]
      simpa [Ne.symm hc] using hb

theorem hasPoint_append_of_isLoose {cs : List Char} (hb : b.trailingSegmentHasPoint = false)
    (hcs : ∀ c ∈ cs, isLoose c = true) : (b.append cs).trailingSegmentHasPoint = false := by
  induction cs generalizing b with
  | nil => rw [append_nil]; exact hb
  | cons c cs ih =>
      have hc : c ≠ '.' := by
        rintro rfl
        exact absurd (hcs _ List.mem_cons_self) (by decide)
      rw [append_cons]
      exact ih (hasPoint_push hb hc) fun d hd => hcs d (List.mem_cons_of_mem c hd)

/-! ## What a fitting text ends in -/

theorem isBlank_eq_false_of_isTypeable (h : IsTypeable c) (hc : c ≠ ' ') :
    Text.isBlank c = false := by
  rcases h with h | h
  · exact Text.isBlank_eq_false_of_isAlphanum h
  · have all_nonblank : (". +-*/()".toList.all fun c => c == ' ' || !Text.isBlank c) = true := by
      decide
    simpa [hc] using List.all_eq_true.mp all_nonblank c h

theorem trimEnd_push_ne_nil (b : Buffer) (h : Text.isBlank c = false) :
    Text.trimEnd (b.push c).chars ≠ [] := by
  unfold push
  rw [Text.trimEnd_concat_of_not_isBlank _ h]
  simp

/-- **A fitting text is not blank throughout.** -/
theorem trimEnd_ne_nil (h : b.Fitting) (hb : b ≠ {}) : Text.trimEnd b.chars ≠ [] := by
  rcases eq_empty_or_push b with rfl | ⟨front, c, rfl⟩
  · exact absurd rfl hb
  · have hc := fits_of_fitting h
    by_cases hs : c = ' '
    · -- a blank was typed behind something that is none
      subst hs
      unfold push
      rw [Text.trimEnd_concat_of_isBlank _ (by decide)]
      exact hc.blank rfl
    · exact trimEnd_push_ne_nil front (isBlank_eq_false_of_isTypeable hc.typeable hs)

theorem isSegmentBreak_of_isOperatorOrOpen (h : isOperatorOrOpen c = true) :
    isSegmentBreak c = true := by
  simp only [isOperatorOrOpen, Bool.or_eq_true, beq_iff_eq] at h
  rcases h with (((rfl | rfl) | rfl) | rfl) | rfl <;> rfl

/-- The last segment of a text that ends in `pow` is that word. -/
theorem trailingSegment_word (front : Buffer) :
    ((front.append " po".toList).push 'w').trailingSegment = "pow".toList := by
  have he : (front.append " po".toList).push 'w' =
      (((front.push ' ').push 'p').push 'o').push 'w' := by simp [append, push]
  rw [he, trailingSegment_push_of_not_break _ rfl, trailingSegment_push_of_not_break _ rfl,
    trailingSegment_push_of_not_break _ rfl, trailingSegment_push_of_break _ rfl]
  rfl

/-- **A number may follow an operator**: behind one, the last segment has no point. -/
theorem hasPoint_of_endsWithOperatorOrOpen (h : b.Fitting)
    (he : b.endsWithOperatorOrOpen = true) : b.trailingSegmentHasPoint = false := by
  rcases eq_empty_or_push b with rfl | ⟨front, c, rfl⟩
  · exact absurd he (by decide)
  · have hc := fits_of_fitting h
    unfold trailingSegmentHasPoint
    by_cases hs : c = ' '
    · -- a blank starts a segment of its own
      subst hs
      rw [trailingSegment_push_of_break _ rfl]
      rfl
    · have hb := isBlank_eq_false_of_isTypeable hc.typeable hs
      rw [endsWithOperatorOrOpen_push front hb, Bool.or_eq_true] at he
      rcases he with ho | hw
      · rw [trailingSegment_push_of_break _ (isSegmentBreak_of_isOperatorOrOpen ho)]
        rfl
      · -- only the key of the power types a `w`
        have hcw := eq_w_of_isSuffixOf_push hw
        subst hcw
        obtain ⟨start, rfl, -⟩ := hc.word rfl
        rw [trailingSegment_word]
        rfl

/-! ## Blanks and operators -/

theorem fits_blank (h : Text.trimEnd b.chars ≠ []) : b.Fits ' ' where
  typeable := by decide
  point hc := absurd hc (by decide)
  blank _ := h
  sign hc := absurd hc (by decide)
  word hc := absurd hc (by decide)

theorem fits_point (h : b.trailingSegmentHasPoint = false) : b.Fits '.' where
  typeable := by decide
  point _ := h
  blank hc := absurd hc (by decide)
  sign hc := absurd hc (by decide)
  word hc := absurd hc (by decide)

theorem fits_sign (hc : c ∈ infixSigns) (h : b.TakesOperator) : b.Fits c := by
  simp only [infixSigns, List.mem_cons, List.not_mem_nil, or_false] at hc
  refine ⟨?_, fun e => ?_, fun e => ?_, fun _ => h, fun e => ?_⟩
  · rcases hc with rfl | rfl | rfl <;> decide
  · rcases hc with rfl | rfl | rfl <;> exact absurd e (by decide)
  · rcases hc with rfl | rfl | rfl <;> exact absurd e (by decide)
  · rcases hc with rfl | rfl | rfl <;> exact absurd e (by decide)

/-- Blanks at the end do not count. -/
theorem takesOperator_push_blank (h : b.TakesOperator) : (b.push ' ').TakesOperator := by
  have ht : Text.trimEnd (b.push ' ').chars = Text.trimEnd b.chars :=
    Text.trimEnd_concat_of_isBlank _ (by decide)
  unfold TakesOperator
  rw [ht, endsWithOperatorOrOpen_push_blank]
  exact h

/-- An operator of one character stands between blanks. -/
theorem fitting_append_spaced (h : b.Fitting) (ht : b.TakesOperator)
    (hc : (b.push ' ').Fits c) (hb : Text.isBlank c = false) :
    (b.append [' ', c, ' ']).Fitting := by
  have he := trimEnd_push_ne_nil (b.push ' ') hb
  simp only [append_cons, append_nil]
  exact fitting_push (fitting_push (fitting_push h (fits_blank ht.1)) hc) (fits_blank he)

theorem fitting_append_sign (h : b.Fitting) (ht : b.TakesOperator) (hc : c ∈ infixSigns) :
    (b.append [' ', c, ' ']).Fitting := by
  have all_signs : (infixSigns.all fun c => !Text.isBlank c) = true := by decide
  have hb : Text.isBlank c = false := by simpa using List.all_eq_true.mp all_signs c hc
  exact fitting_append_spaced h ht (fits_sign hc (takesOperator_push_blank ht)) hb

/-- The letters of ` pow ` fit one after another; the `w` looks back over three of them. -/
theorem fitting_append_word (h : b.Fitting) (ht : b.TakesOperator) :
    (b.append " pow ".toList).Fitting := by
  have hpo : ((b.push ' ').append ['p', 'o']).Fitting :=
    fitting_append_of_isLoose (fitting_push h (fits_blank ht.1)) (List.all_eq_true.mp rfl)
  rw [← append_cons] at hpo
  -- in front of the `w` stands what its clause asks for, the operand and ` po`
  have hw : (b.append [' ', 'p', 'o']).Fits 'w' :=
    ⟨by decide, fun e => absurd e (by decide), fun e => absurd e (by decide),
      fun e => absurd e (by decide), fun _ => ⟨b, rfl, ht⟩⟩
  have hb := trimEnd_push_ne_nil (b.append [' ', 'p', 'o']) (c := 'w') (by decide)
  have he : b.append " pow ".toList = ((b.append [' ', 'p', 'o']).push 'w').push ' ' := by
    simp [append, push]
  rw [he]
  exact fitting_push (fitting_push hpo hw) (fits_blank hb)

/-- **Every operator fits behind an operand.** -/
theorem fitting_append_operator (h : b.Fitting) (ht : b.TakesOperator) (op : BinaryOperation) :
    (b.append (' ' :: (op.typed.toList ++ [' ']))).Fitting := by
  cases op with
  | add => exact fitting_append_sign (c := '+') h ht (by decide)
  | subtract => exact fitting_append_spaced (c := '-') h ht (fits_of_isLoose rfl) (by decide)
  | multiply => exact fitting_append_sign (c := '*') h ht (by decide)
  | divide => exact fitting_append_sign (c := '/') h ht (by decide)
  | power => exact fitting_append_word h ht

end Buffer

end PocketCalc

import PocketCalc.Keypad
import PocketCalc.Proofs.BufferFits
import PocketCalc.Proofs.NumberText

/-!
# The text that keys can type

Whatever keys are pressed, and in whatever order, the text is one that could have been typed
sensibly: of few characters, with one point at most in each number, and with an operand in front of
each binary operator. `WellShaped` states this of a finished text; what the keys preserve is
`Buffer.Fitting`, which says it of all beginnings of the text at once.

A key adds to the text in one of three ways: by a character that its guard has made room for, by an
operator between blanks, or by a term. A term is appended behind an operator only, and there the
last segment has no point, so even a number with a point of its own finds room.
-/

namespace PocketCalc

open Number

/-! ## Terms -/

namespace Buffer

/-- A text that fits behind every text whose last segment has no point. -/
def IsTerm (term : List Char) : Prop :=
  ∀ b : Buffer, b.Fitting → b.trailingSegmentHasPoint = false → (b.append term).Fitting

theorem isTerm_of_isLoose {term : List Char} (h : ∀ c ∈ term, isLoose c = true) : IsTerm term :=
  fun _ hb _ => fitting_append_of_isLoose hb h

theorem isLoose_of_isPlain {c : Char} (h : IsPlain c) : isLoose c = true := by
  rcases h with h | rfl | h
  · exact isLoose_of_isDigit h
  · rfl
  · have all_letters : spellingLetters.all isLoose = true := by decide
    exact List.all_eq_true.mp all_letters c h

/-- A number fits with its point, if it has one. -/
theorem isTerm_of_numberText {term : List Char} (h : NumberText term) : IsTerm term := by
  cases h with
  | plain h => exact isTerm_of_isLoose fun c hc => isLoose_of_isPlain (h c hc)
  | @pointed whole fraction hw hf =>
      intro b hb hp
      have hw' : ∀ c ∈ whole, isLoose c = true := fun c hc => isLoose_of_isPlain (hw c hc)
      -- the digits in front of the point bring none, so there is room for it
      have hp' := hasPoint_append_of_isLoose hp hw'
      have hpoint := fitting_push (fitting_append_of_isLoose hb hw') (fits_point hp')
      have he : b.append (whole ++ '.' :: fraction) =
          ((b.append whole).push '.').append fraction := by simp [append, push]
      rw [he]
      exact fitting_append_of_isLoose hpoint fun c hc => isLoose_of_isPlain (hf c hc)

/-- Every name that can be bound is a term, and stays one with a parenthesis behind it. -/
theorem isLoose_of_mem_names {name : String} (h : name ∈ Environment.names) :
    ∀ c ∈ name.toList, isLoose c = true := by
  have all_names : ∀ name ∈ Environment.names, name.toList.all isLoose = true := by decide
  exact List.all_eq_true.mp (all_names name h)

theorem fitting_of_isTerm {term : List Char} (h : IsTerm term) : (⟨term⟩ : Buffer).Fitting :=
  h {} fitting_empty rfl

end Buffer

/-! ## Every key -/

namespace Keypad

open Buffer

variable {calculator : Calculator} {pad : Keypad}

theorem takesOperator_of_fitting (h : pad.buffer.Fitting) (hne : pad.buffer.isEmpty = false)
    (he : pad.buffer.endsWithOperatorOrOpen = false) : pad.buffer.TakesOperator := by
  refine ⟨trimEnd_ne_nil h ?_, he⟩
  intro hb
  rw [hb] at hne
  exact absurd hne (by decide)

theorem fitting_digit (h : pad.buffer.Fitting) {c : Char} (hc : c.isDigit = true) :
    (pad.pressDigit c).buffer.Fitting := by
  have hfits : ∀ b : Buffer, b.Fits c := fun b => fits_of_isLoose (isLoose_of_isDigit hc)
  show Fitting (if pad.startsFresh then ⟨[c]⟩ else pad.buffer.push c)
  split
  · exact fitting_push fitting_empty (hfits {})
  · exact fitting_push h (hfits _)

theorem fitting_point (h : pad.buffer.Fitting) : pad.pressPoint.buffer.Fitting := by
  show Fitting (if pad.justEvaluated then ⟨['.']⟩
    else if pad.buffer.trailingSegmentHasPoint then pad.buffer else pad.buffer.push '.')
  split
  · exact fitting_push fitting_empty (fits_point rfl)
  · split
    · exact h
    · rename_i hp
      exact fitting_push h (fits_point (by simpa using hp))

theorem fitting_operator (h : pad.buffer.Fitting) (op : BinaryOperation) :
    (pad.pressOperator op).buffer.Fitting := by
  show Fitting (if _ then _ else if _ then _ else _)
  split
  · -- a sign asks for nothing in front of it
    exact fitting_push h (fits_of_isLoose rfl)
  · split
    · exact h
    · rename_i hg
      rw [not_or, Bool.not_eq_true, Bool.not_eq_true] at hg
      exact fitting_append_operator h (takesOperator_of_fitting h hg.1 hg.2) op

/-- A term that does not start afresh needs a text to follow. -/
theorem fitting_insertTerm (h : pad.buffer.Fitting) {term : List Char} {fresh : Bool}
    (ht : IsTerm term) (hf : fresh = false → pad.buffer.isEmpty = false) :
    (pad.insertTerm term fresh).buffer.Fitting := by
  show Fitting (if fresh then ⟨term⟩
    else if pad.buffer.endsWithOperatorOrOpen then pad.buffer.append term
    else pad.buffer.append (" * ".toList ++ term))
  split
  · exact fitting_of_isTerm ht
  · rename_i hfresh
    split
    · rename_i he
      exact ht _ h (hasPoint_of_endsWithOperatorOrOpen h he)
    · -- the multiplication comes first, and its last blank starts a segment
      rename_i he
      have htakes := takesOperator_of_fitting h (hf (by simpa using hfresh)) (by simpa using he)
      have hstar := fitting_append_sign (c := '*') h htakes (by decide)
      have hseg : (pad.buffer.append [' ', '*', ' ']).trailingSegmentHasPoint = false := by
        unfold trailingSegmentHasPoint
        rw [append_cons, append_cons, append_cons, append_nil,
          trailingSegment_push_of_break _ rfl]
        rfl
      have happ : pad.buffer.append (" * ".toList ++ term) =
          (pad.buffer.append [' ', '*', ' ']).append term := by simp [append]
      rw [happ]
      exact ht _ hstar hseg

theorem isEmpty_of_not_startsFresh (h : pad.startsFresh = false) : pad.buffer.isEmpty = false := by
  simp only [startsFresh, isInitial, Bool.or_eq_false_iff] at h
  exact h.2.1

theorem fitting_function (h : pad.buffer.Fitting) {name : String}
    (hn : name ∈ Environment.names) : (pad.pressFunction name).buffer.Fitting := by
  have ht : IsTerm (name.toList ++ ['(']) := by
    refine isTerm_of_isLoose fun c hc => ?_
    rcases List.mem_append.mp hc with hc | hc
    · exact isLoose_of_mem_names hn c hc
    · rw [List.mem_singleton.mp hc]
      rfl
  refine fitting_insertTerm h ht fun hf => ?_
  rw [Bool.or_eq_false_iff] at hf
  exact hf.2

theorem fitting_paren (h : pad.buffer.Fitting) {c : Char} (hc : isLoose c = true) :
    (pad.pressParen c).buffer.Fitting := by
  show Fitting (if pad.justEvaluated then ⟨[c]⟩ else pad.buffer.push c)
  split
  · exact fitting_push fitting_empty (fits_of_isLoose hc)
  · exact fitting_push h (fits_of_isLoose hc)

theorem fitting_evaluate (h : pad.buffer.Fitting) :
    (pad.pressEvaluate calculator).buffer.Fitting := by
  unfold pressEvaluate
  split
  · exact h
  · split
    · -- what is shown of the value becomes the text
      rename_i display hr
      show Fitting ⟨display.toList⟩
      rw [Report.display_of_success hr]
      exact fitting_of_isTerm (isTerm_of_numberText (numberText_shown _ _))
    · exact fitting_empty

theorem fitting_updateMemory (h : pad.buffer.Fitting) (update : Float → Except Error Float) :
    (pad.updateMemory calculator update).buffer.Fitting := by
  unfold updateMemory
  split
  · exact h
  · exact fitting_empty

theorem fitting_memory (h : pad.buffer.Fitting) (action : MemoryAction) :
    (pad.pressMemory calculator action).buffer.Fitting := by
  match action with
  | .clear => exact h
  | .recall =>
      exact fitting_insertTerm h (isTerm_of_numberText (numberText_full _))
        isEmpty_of_not_startsFresh
  | .store => exact fitting_updateMemory h _
  | .add => exact fitting_updateMemory h _
  | .subtract => exact fitting_updateMemory h _

/-- **Every key that the environment has keeps the text fitting.** -/
theorem fitting_press (h : pad.buffer.Fitting) {key : Key} (hk : key.Bound calculator.env) :
    (pad.press calculator key).buffer.Fitting := by
  cases key with
  | digit c => exact fitting_digit h hk
  | point => exact fitting_point h
  | operator op => exact fitting_operator h op
  | function name =>
      obtain ⟨op, ho⟩ := hk
      exact fitting_function h (Environment.mem_names_of_lookup ho)
  | constant name =>
      obtain ⟨value, hv⟩ := hk
      have hn := isLoose_of_mem_names (Environment.mem_names_of_lookup hv)
      exact fitting_insertTerm h (isTerm_of_isLoose hn) isEmpty_of_not_startsFresh
  | openParen => exact fitting_paren h rfl
  | closeParen => exact fitting_paren h rfl
  | clearAll => exact fitting_empty
  | clearLast => exact fitting_dropLast h
  | evaluate => exact fitting_evaluate h
  | memory action => exact fitting_memory h action

theorem fitting_pressAll (h : pad.buffer.Fitting) (labels : List (List Char)) :
    (pad.pressAll calculator labels).2.buffer.Fitting := by
  induction labels generalizing pad with
  | nil => exact h
  | cons label labels ih =>
      unfold pressAll pressLabel
      cases hk : Key.ofLabel calculator.env label with
      | error error => exact ih h
      | ok key => exact ih (fitting_press h (Key.bound_ofLabel hk))

end Keypad

/-! ## What fitting says of the finished text -/

namespace Buffer

/-- A text with more than blanks in it that ends neither in an operator of one character, nor in
`pow`, nor in an opening parenthesis. Blanks at the end do not count. -/
structure EndsInOperand (cs : List Char) : Prop where
  nonblank : ∃ c ∈ cs, c ≠ ' '
  sign : ∀ c, (Text.trimEnd cs).getLast? = some c → c ∉ ['+', '-', '*', '/', '(']
  word : ¬ "pow".toList <:+ Text.trimEnd cs

/-- The shape of a text that was typed on a keypad. -/
structure WellShaped (cs : List Char) : Prop where
  typeable : ∀ c ∈ cs, IsTypeable c
  /-- Between two segment breaks there is one point at most. -/
  points : ∀ before run after, cs = before ++ run ++ after →
    (∀ c ∈ run, isSegmentBreak c = false) → run.count '.' ≤ 1
  /-- Each binary operator of one character follows an operand. -/
  signs : ∀ before c after, cs = before ++ c :: after → c ∈ infixSigns → EndsInOperand before
  /-- So does each `pow`. -/
  words : ∀ before after, cs = before ++ "pow".toList ++ after → EndsInOperand before

variable {b : Buffer}

theorem endsInOperand_of_takesOperator (h : b.TakesOperator) : EndsInOperand b.chars := by
  obtain ⟨hne, he⟩ := h
  simp only [endsWithOperatorOrOpen, Bool.or_eq_false_iff] at he
  refine ⟨?_, fun c hc hs => ?_, fun hw => ?_⟩
  · obtain ⟨c, hc, hb⟩ := Text.exists_not_isBlank hne
    exact ⟨c, hc, by rintro rfl; exact absurd hb (by decide)⟩
  · rw [hc, Option.any_some] at he
    have all_signs : ['+', '-', '*', '/', '('].all isOperatorOrOpen = true := by decide
    rw [List.all_eq_true.mp all_signs c hs] at he
    exact absurd he.1 (by decide)
  · rw [List.isSuffixOf_iff_suffix.mpr hw] at he
    exact absurd he.2 (by decide)

/-- What is asked of a character, read off the text that it is found in. -/
theorem fits_of_split (h : b.Fitting) {before after : List Char} {c : Char}
    (hb : b.chars = before ++ c :: after) : (⟨before⟩ : Buffer).Fits c :=
  h ⟨before⟩ c ⟨after, by rw [hb]; simp [push]⟩

/-- A run without a segment break is part of one segment. -/
theorem trailingSegment_append_of_not_break {before run : List Char}
    (hr : ∀ c ∈ run, isSegmentBreak c = false) :
    (⟨before ++ run⟩ : Buffer).trailingSegment = (⟨before⟩ : Buffer).trailingSegment ++ run := by
  have hall : ∀ c ∈ run.reverse, (!isSegmentBreak c) = true := fun c hc => by
    simp [hr c (List.mem_reverse.mp hc)]
  unfold trailingSegment
  rw [List.reverse_append, List.takeWhile_append_of_pos hall, List.reverse_append,
    List.reverse_reverse]

/-- In front of a point, its run has no other. -/
theorem not_mem_front_of_point (h : b.Fitting) {before front back after : List Char}
    (hb : b.chars = before ++ (front ++ '.' :: back) ++ after)
    (hr : ∀ c ∈ front, isSegmentBreak c = false) : '.' ∉ front := by
  have hsplit : b.chars = (before ++ front) ++ '.' :: (back ++ after) := by rw [hb]; simp
  have hp := (fits_of_split h hsplit).point rfl
  unfold trailingSegmentHasPoint at hp
  rw [trailingSegment_append_of_not_break hr] at hp
  simp only [List.contains_eq_mem, decide_eq_false_iff_not, List.mem_append, not_or] at hp
  exact hp.2

theorem count_point_le_one (h : b.Fitting) {before run after : List Char}
    (hb : b.chars = before ++ run ++ after) (hr : ∀ c ∈ run, isSegmentBreak c = false) :
    run.count '.' ≤ 1 := by
  by_cases hp : '.' ∈ run
  · -- cut the run at one of its points: neither side can have another
    obtain ⟨front, back, rfl⟩ := List.append_of_mem hp
    have hfront : '.' ∉ front := by
      refine not_mem_front_of_point h hb fun c hc => hr c ?_
      exact List.mem_append_left _ hc
    have hback : '.' ∉ back := by
      intro hm
      obtain ⟨middle, rest, rfl⟩ := List.append_of_mem hm
      have hb' : b.chars = before ++ ((front ++ '.' :: middle) ++ '.' :: rest) ++ after := by
        rw [hb]; simp
      have := not_mem_front_of_point h hb' fun c hc => hr c (by
        rw [← List.cons_append, ← List.append_assoc]
        exact List.mem_append_left _ hc)
      exact this (by simp)
    have hfront0 := List.count_eq_zero.mpr hfront
    have hback0 := List.count_eq_zero.mpr hback
    rw [List.count_append, List.count_cons_self]
    omega
  · have hrun0 := List.count_eq_zero.mpr hp
    omega

theorem endsInOperand_of_word (h : b.Fitting) {before after : List Char}
    (hb : b.chars = before ++ "pow".toList ++ after) : EndsInOperand before := by
  have hsplit : b.chars = (before ++ ['p', 'o']) ++ 'w' :: after := by rw [hb]; simp
  -- the `w` of the word was typed behind an operand, a blank and the rest of the word
  obtain ⟨front, hf, ht⟩ := (fits_of_split h hsplit).word rfl
  have hbefore : before = (front.push ' ').chars := by
    have hchars : before ++ ['p', 'o'] = (front.push ' ').chars ++ ['p', 'o'] := by
      have := congrArg Buffer.chars hf
      simpa [append, push] using this
    exact List.append_cancel_right hchars
  rw [hbefore]
  exact endsInOperand_of_takesOperator (takesOperator_push_blank ht)

theorem wellShaped_of_fitting (h : b.Fitting) : WellShaped b.chars where
  typeable c hc := by
    obtain ⟨before, after, hb⟩ := List.append_of_mem hc
    exact (fits_of_split h hb).typeable
  points _ _ _ hb hr := count_point_le_one h hb hr
  signs _ _ _ hb hc := endsInOperand_of_takesOperator ((fits_of_split h hb).sign hc)
  words _ _ hb := endsInOperand_of_word h hb

/-- **Whatever labels are pressed, the text stays well-shaped**: for every environment and every
precision, with keys that delete and recall anywhere in between. -/
theorem wellShaped_pressAll (calculator : Calculator) (labels : List (List Char)) :
    WellShaped (({} : Keypad).pressAll calculator labels).2.buffer.chars :=
  wellShaped_of_fitting (Keypad.fitting_pressAll fitting_empty labels)

end Buffer

end PocketCalc

import PocketCalc.Proofs.FullText
import PocketCalc.Proofs.LineAgreement
import PocketCalc.Proofs.MemoryKeys

/-!
# Recalling is exact

`MR` types the number in memory, and what is typed is a text like any other: it is read again
before it is used. Nothing is lost on the way. On a cleared keypad the text stands for the very
double in memory, and behind a number and one of the four operators it is the second operand, a
negative one included, because each of the four takes a sign in front of what follows it.

None of this depends on how the keypad got there, so it is said of all states.
-/

namespace PocketCalc

open Number

/-- A number without an exponent has no letter of one. -/
theorem Literal.no_exponent_letter {a : Literal} (h : a.numeral.exponent = none) {c : Char}
    (hc : c ∈ a.text) : c ≠ 'e' ∧ c ≠ 'E' := by
  have hplain : c.isDigit = true ∨ c ∈ ['.', '+', '-'] := by
    rcases List.mem_append.mp hc with hs | hn
    · rcases a.isSign c (Option.mem_toList.mp hs) with rfl | rfl
      · exact .inr (by decide)
      · exact .inr (by decide)
    · rw [Numeral.text, h, Option.map_none, Option.getD_none, List.append_nil] at hn
      rcases List.mem_append.mp hn with hwhole | hfraction
      · exact .inl (a.written.digits.isDigit c (List.mem_append_left _ hwhole))
      · cases hf : a.numeral.fraction with
        | none =>
            rw [hf] at hfraction
            cases hfraction
        | some ds =>
            rw [hf] at hfraction
            rcases List.mem_cons.mp hfraction with rfl | hds
            · exact .inr (by decide)
            · refine .inl (a.written.digits.isDigit c (List.mem_append_right _ ?_))
              rw [hf]
              exact hds
  constructor
  · rintro rfl
    exact absurd hplain (by decide)
  · rintro rfl
    exact absurd hplain (by decide)

namespace Keypad

variable {calculator : Calculator} {pad : Keypad} {value : Float}

/-! ## A text that is being typed -/

/-- `MS` stores what the text evaluates to. -/
theorem memory_press_store (hv : pad.lastValue = none) (hne : pad.buffer.chars ≠ [])
    (htrim : Text.trim pad.buffer.chars = pad.buffer.chars)
    (h : evaluate calculator.env pad.buffer.chars = .ok value) :
    (pad.press calculator (.memory .store)).memory = value := by
  have hreport : (calculator.report pad.buffer.chars).result = .ok value :=
    (Report.result_ofText htrim hne).trans h
  have hempty : pad.buffer.isEmpty = false := List.isEmpty_eq_false_iff.mpr hne
  have hoperand : pad.memoryOperand calculator = .ok value := by
    rw [memoryOperand, hv, hempty]
    exact hreport
  show (pad.pressMemory calculator .store).memory = value
  rw [pressMemory_of_ok rfl hoperand]
  rfl

/-! ## On a cleared keypad -/

/-- What the keys `C` and `MR` lead to. -/
def recalled (calculator : Calculator) (pad : Keypad) : Keypad :=
  (pad.press calculator .clearAll).press calculator (.memory .recall)

theorem chars_recalled (calculator : Calculator) (pad : Keypad) :
    (pad.recalled calculator).buffer.chars = fullStyle.write pad.memory := rfl

/-- **The text on a cleared keypad stands for the number in memory.** -/
theorem evaluate_recalled (calculator : Calculator) (hm : rank pad.memory < infiniteRank) :
    (∀ c ∈ (pad.recalled calculator).buffer.chars, c ≠ 'e' ∧ c ≠ 'E') ∧
      evaluate calculator.env (pad.recalled calculator).buffer.chars = .ok pad.memory ∧
      ((pad.recalled calculator).press calculator (.memory .store)).memory = pad.memory ∧
      ((pad.recalled calculator).press calculator .evaluate).display =
        String.ofList (calculator.shown pad.memory) := by
  obtain ⟨a, htext, -, hexponent, hvalue⟩ := exists_written_literal hm
  have hchars : (pad.recalled calculator).buffer.chars = a.text :=
    (chars_recalled calculator pad).trans htext.symm
  have htrim : Text.trim a.text = a.text := Text.trim_word fun _ hc => a.isBlank_eq_false hc
  have hevaluate : evaluate calculator.env a.text = .ok pad.memory := by
    rw [a.evaluate_text, hvalue]
  refine ⟨?_, ?_, ?_, ?_⟩
  · rw [hchars]
    exact fun c hc => Literal.no_exponent_letter hexponent hc
  · rw [hchars, hevaluate]
  · refine memory_press_store rfl ?_ ?_ ?_
    · rw [hchars]
      exact a.text_ne_nil
    · rw [hchars, htrim]
    · rw [hchars, hevaluate]
  · show ((pad.recalled calculator).pressEvaluate calculator).display = _
    rw [Typing.display_of_trim hchars rfl htrim a.text_ne_nil, hevaluate]
    rfl

/-! ## Behind an operator -/

theorem toList_typed (op : ChainOperator) : op.operation.typed.toList = [op.mark] := by
  cases op <;> rfl

/-- Behind an operator `MR` adds its text to what is there. -/
theorem chars_press_recall (calculator : Calculator) {front : List Char} {op : ChainOperator}
    (hj : pad.justEvaluated = false) (hb : pad.buffer.chars = front ++ [' ', op.mark, ' ']) :
    (pad.press calculator (.memory .recall)).buffer.chars =
      front ++ ([' '] ++ op.mark :: ([' '] ++ fullStyle.write pad.memory)) := by
  have hbuffer : pad.buffer = (⟨front⟩ : Buffer).append
      (' ' :: (op.operation.typed.toList ++ [' '])) := by
    rw [toList_typed]
    exact congrArg Buffer.mk hb
  have hawaits : Typing.Awaits pad.buffer := by
    rw [hbuffer]
    exact Typing.awaits_append_operator _ op.operation
  have hnonempty : pad.buffer ≠ {} := by
    intro hempty
    rw [hempty] at hb
    exact absurd hb.symm (List.append_ne_nil_of_right_ne_nil _ (List.cons_ne_nil _ _))
  have hstarts : pad.buffer.endsWithOperatorOrOpen = true → pad.startsFresh = false := by
    intro hends
    rw [startsFresh, hj, Typing.isInitial_eq_false hends]
    rfl
  have happend : (pad.press calculator (.memory .recall)).buffer =
      pad.buffer.append (fullStyle.write pad.memory) :=
    Typing.buffer_insertTerm pad.forget hawaits (fun hempty => absurd hempty hnonempty) hstarts _
  rw [happend]
  show pad.buffer.chars ++ _ = _
  rw [hb]
  simp

/-- **Behind a number and an operator the number in memory is the second operand.** -/
theorem memory_press_recall_store (calculator : Calculator) (hm : rank pad.memory < infiniteRank)
    (n : Literal) (op : ChainOperator) (hj : pad.justEvaluated = false)
    (hb : pad.buffer.chars = n.text ++ [' ', op.mark, ' '])
    (hdivisor : op = .divide → (pad.memory != 0) = true) :
    ((pad.press calculator (.memory .recall)).press calculator (.memory .store)).memory =
      op.operation.compute n.value pad.memory := by
  obtain ⟨a, htext, -, -, hvalue⟩ := exists_written_literal hm
  let line : LiteralLine := ⟨n, [' '], op, [' '], a, List.all_eq_true.mp rfl,
    List.all_eq_true.mp rfl⟩
  have hchars : (pad.press calculator (.memory .recall)).buffer.chars = line.text := by
    rw [chars_press_recall calculator hj hb, ← htext]
    rfl
  have hdefined : op.operation.isDefined n.value pad.memory = true := by
    cases op with
    | divide => exact hdivisor rfl
    | add | subtract | multiply => rfl
  have hevaluate : evaluate calculator.env line.text =
      .ok (op.operation.compute n.value pad.memory) := by
    rw [line.evaluate_text]
    show op.operation.apply n.value a.value = _
    rw [hvalue, BinaryOperation.apply, if_pos hdefined]
  refine memory_press_store rfl ?_ ?_ ?_
  · rw [hchars]
    exact List.append_ne_nil_of_left_ne_nil n.text_ne_nil _
  · rw [hchars, line.trim_text]
  · rw [hchars, hevaluate]

/-- **The number in memory is recalled exactly**, whatever finite number it is. Behind `C`, what `MR`
types has no exponent and evaluates to the number, bit for bit; `MS` puts the same number back, and
`=` shows it as it is shown. Behind a number and one of the operators `+`, `-`, `*` and `/` that are
being typed, `MR` and `MS` store what the operator makes of both, as long as no zero is divided
by. -/
theorem recall_exact (calculator : Calculator) (pad : Keypad)
    (hm : rank pad.memory < infiniteRank) :
    ((∀ c ∈ (pad.recalled calculator).buffer.chars, c ≠ 'e' ∧ c ≠ 'E') ∧
      evaluate calculator.env (pad.recalled calculator).buffer.chars = .ok pad.memory ∧
      ((pad.recalled calculator).press calculator (.memory .store)).memory = pad.memory ∧
      ((pad.recalled calculator).press calculator .evaluate).display =
        String.ofList (calculator.shown pad.memory)) ∧
    ∀ (n : Literal) (op : ChainOperator), pad.justEvaluated = false →
      pad.buffer.chars = n.text ++ [' ', op.mark, ' '] →
      (op = .divide → (pad.memory != 0) = true) →
      ((pad.press calculator (.memory .recall)).press calculator (.memory .store)).memory =
        op.operation.compute n.value pad.memory :=
  ⟨evaluate_recalled calculator hm,
    fun n op hj hb hdivisor => memory_press_recall_store calculator hm n op hj hb hdivisor⟩

/-- The negative of the smallest double in memory, and seven times it. -/
theorem recall_exact_smallest :
    let pad : Keypad := { memory := ofRank true 1, buffer := ⟨"7 * ".toList⟩ }
    rank pad.memory < infiniteRank ∧
      evaluate {} (pad.recalled {}).buffer.chars = .ok (ofRank true 1) ∧
      ((pad.press {} (.memory .recall)).press {} (.memory .store)).memory = ofRank true 7 := by
  intro pad
  have hm : rank pad.memory < infiniteRank := by
    rw [show rank pad.memory = 1 from rank_ofRank true (by decide)]
    decide
  let seven : Literal := literalOf false ⟨['7'], none, none⟩
    (Numeral.written_of_digits ⟨List.all_eq_true.mp rfl, List.cons_ne_nil _ _⟩ rfl) rfl
  have hproduct : seven.value * pad.memory = ofRank true 7 := by decide +kernel
  obtain ⟨⟨-, hevaluate, -, -⟩, hstore⟩ := recall_exact {} pad hm
  exact ⟨hm, hevaluate, (hstore seven .multiply rfl rfl nofun).trans hproduct⟩

end Keypad

end PocketCalc

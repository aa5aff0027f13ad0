import PocketCalc.Proofs.LineCut
import PocketCalc.Proofs.MemoryKeys
import PocketCalc.Proofs.ShownText

/-!
# Going on with a result

An operator behind a result takes it for the first operand. All that is handed on is a text: what
is typed next is put behind the shown form of the result, and the whole is read again. So the
number that counts is the one on the display, and not the result before rounding.

However the number is written, its text is one operand, but for the sign: a minus in front of a
power belongs to the whole power. `BinaryOperation.carryOn` is what the operators come to in that
place.
-/

namespace PocketCalc

open Number Precedence Grammar

/-- What an operator makes of the number on the display and a number typed behind it. The sign of
the first stays in front of a power. -/
def BinaryOperation.carryOn (op : BinaryOperation) (shown typed : Float) : Except Error Float :=
  if op = .power ∧ isNegative shown = true then (-·) <$> op.apply (-shown) typed
  else op.apply shown typed

/-! ## The text of a number as an operand -/

/-- A text denotes one number at most. -/
theorem Number.Denotes.unique {text : List Char} {q q' : ℚ} (h : Denotes text q)
    (h' : Denotes text q') : q = q' := by
  obtain ⟨a, ha, rfl⟩ := h
  obtain ⟨b, hb, rfl⟩ := h'
  obtain ⟨hsign, hnumeral⟩ := Literal.eq_of_text (ha.trans hb.symm)
  rw [Literal.negative, Literal.negative, hsign, hnumeral]

/-- **A finite number is shown as a literal without a plus**, which stands for the double nearest to
the number that the text denotes. -/
theorem Number.exists_shown_literal (precision : ℕ) {x : Float} (hx : rank x < infiniteRank) :
    ∃ a : Literal, a.text = shown precision x ∧ a.sign ≠ some '+' ∧
      ∃ q, Denotes (shown precision x) q ∧ IsNearestDouble q a.value := by
  obtain ⟨q, r, hq, hr, hnearest⟩ := exists_isNearestDouble {} precision hx
  have ⟨a, ha, _⟩ := hq
  have hplus : a.sign ≠ some '+' := by
    intro hsign
    refine (numberText_shown precision x).not_mem_plus ?_
    rw [← ha, Literal.text, hsign]
    exact List.mem_cons_self
  have hvalue : r = a.value := by
    rw [← ha, a.evaluate_text] at hr
    exact (Except.ok.inj hr).symm
  rw [hvalue] at hnearest
  exact ⟨a, ha, hplus, q, hq, hnearest⟩

/-- The text of a literal ends in a digit or in the point. -/
theorem Literal.endsOperand_text (a : Literal) : Typing.EndsOperand a.text := by
  obtain ⟨sign, ⟨whole, fraction, exponent⟩, hsign, ⟨hdigits, hexponent⟩, hz⟩ := a
  refine Typing.endsOperand_append sign.toList ?_
  cases exponent with
  | some e =>
      have he := (hexponent e rfl).digits
      have hend := Typing.endsOperand_append
        (whole ++ (fraction.map ('.' :: ·)).getD [] ++ (e.mark :: e.sign.toList))
        (Typing.endsOperand_of_digits he.nonempty fun c hc => .inl (he.isDigit c hc))
      simpa [Numeral.text, Exponent.text] using hend
  | none =>
      cases fraction with
      | none =>
          have hend := Typing.endsOperand_of_digits hdigits.nonempty fun c hc =>
            .inl (hdigits.isDigit c hc)
          simpa [Numeral.text, Numeral.digits] using hend
      | some ds =>
          -- the point is the last character where no digit follows it
          have htail : ∀ c ∈ '.' :: ds, c.isDigit = true ∨ c = '.' := by
            intro c hc
            rcases List.mem_cons.mp hc with hp | hd
            · exact .inr hp
            · exact .inl (hdigits.isDigit c (List.mem_append_right _ hd))
          have hend := Typing.endsOperand_append whole
            (Typing.endsOperand_of_digits (List.cons_ne_nil _ _) htail)
          simpa [Numeral.text] using hend

/-! ## A number, an operator and another number -/

/-- A shown number with an operator and a typed number behind it. -/
structure Continuation where
  shown : Literal
  op : BinaryOperation
  typed : Typing.Numeral
  noPlus : shown.sign ≠ some '+'

namespace Continuation

variable (line : Continuation) {env : Environment}

/-- What is typed. -/
def back : List Char := ' ' :: (line.op.typed.toList ++ ' ' :: line.typed.text)

/-- What stands on the display in the end. -/
def text : List Char := line.shown.text ++ line.back

/-- The shown number without its sign. -/
def size : Float := line.shown.numeral.decimal.toFloat false

/-- How the grammar derives the line. -/
def derivation : Derivation .expression :=
  Precedence.derivation line.shown.negative
    (group (.called (.number line.size) .noTrailers)
      [(line.op, .called (.number line.typed.value) .noTrailers)])

theorem tokens_shown : line.shown.derivation.tokens =
    signTokens line.shown.negative ++ [.number line.size] := by
  obtain ⟨⟨sign, n, hsign, hn, hz⟩, op, typed, hplus⟩ := line
  cases sign with
  | none => rfl
  | some c =>
      rcases hsign c rfl with rfl | rfl
      · exact absurd rfl hplus
      · rfl

theorem depth_derivation_le : line.derivation.depth ≤ maxNesting := by
  unfold derivation
  cases line.shown.negative <;> cases line.op <;> exact Nat.le_of_ble_eq_true rfl

/-- **The line is cut into the tokens of its derivation.** -/
theorem readsAs_text : Typing.ReadsAs line.text line.derivation.tokens := by
  have htyped : Typing.ReadsAs (line.typed.text ++ []) [.number line.typed.value] :=
    Typing.readsAs_numeral line.typed nofun scansTo_nil
  rw [List.append_nil] at htyped
  have hback : Typing.ReadsAs line.back [line.op.token, .number line.typed.value] :=
    Typing.readsAs_operator htyped line.op
  have hfollows : Typing.Follows line.back := Typing.follows_cons rfl
  have hall := line.shown.scansTo hfollows.endsNumeral hback
  rw [← Typing.expandPow_append_of_follows line.shown.not_mem_w hfollows, tokens_shown] at hall
  rw [derivation, tokens_group]
  unfold Typing.ReadsAs text
  simpa [tailTokens, Derivation.tokens] using hall

theorem neg_size : -line.size = line.shown.numeral.decimal.toFloat true :=
  neg_ofRank false (Literal.rank_le_infiniteRank _)

theorem neg_neg_size : - -line.size = line.size := by
  rw [neg_size]
  exact neg_ofRank true (Literal.rank_le_infiniteRank _)

theorem value_shown : line.shown.value = if line.shown.negative then -line.size else line.size := by
  rw [neg_size, Literal.value]
  cases line.shown.negative <;> rfl

theorem isNegative_shown : isNegative line.shown.value = line.shown.negative :=
  isNegative_ofRank _ (Literal.rank_le_infiniteRank _)

theorem raise_typed (x : Float) :
    Expr.raise x line.typed.value = BinaryOperation.power.apply x line.typed.value := by
  have hlt : ¬ line.typed.value < 0 := not_ofRank_lt_zero (Literal.rank_le_infiniteRank _)
  simp [Expr.raise, hlt]

/-- **The line evaluates to what the operator comes to behind the shown number.** -/
theorem evaluate_text :
    evaluate env line.text = line.op.carryOn line.shown.value line.typed.value := by
  have hrow : evaluate env line.text = value line.shown.negative
      (group (.ok line.size) [(line.op, .ok line.typed.value)]) := by
    rw [evaluate_of_derivation line.readsAs_text line.depth_derivation_le, derivation,
      numeric_group, List.map_singleton]
    simp only [Derivation.tree, List.foldl_nil, numeric_number]
  rw [hrow, value_pair, raise_typed, BinaryOperation.carryOn, isNegative_shown, value_shown]
  by_cases hpower : line.op = .power
  · -- a power takes the size for its base, and the sign is put in front of what comes out
    rw [if_pos hpower, hpower]
    cases line.shown.negative with
    | false => rw [if_neg (by simp), if_neg Bool.false_ne_true, negate, if_neg Bool.false_ne_true]
    | true => rw [if_pos ⟨rfl, rfl⟩, if_pos rfl, neg_neg_size, negate, if_pos rfl]
  · have hboth : ¬ (line.op = .power ∧ line.shown.negative = true) := fun h => hpower h.1
    rw [if_neg hpower, if_neg hboth]

theorem isBlank_typed {c : Char} (hc : c ∈ line.typed.text) : Text.isBlank c = false := by
  rcases line.typed.isDigit_or_eq_point hc with hd | rfl
  · exact Text.isBlank_eq_false_of_isDigit hd
  · rfl

theorem trim_text : Text.trim line.text = line.text := by
  have htext : line.text =
      line.shown.text ++ ((' ' :: (line.op.typed.toList ++ [' '])) ++ line.typed.text) := by
    simp [text, back]
  rw [htext]
  exact Text.trim_append (fun _ hc => line.shown.isBlank_eq_false hc)
    (fun _ hc => line.isBlank_typed hc) line.shown.text_ne_nil line.typed.text_ne_nil _

theorem text_ne_nil : line.text ≠ [] :=
  List.append_ne_nil_of_left_ne_nil line.shown.text_ne_nil _

end Continuation

/-! ## Typing behind a result -/

namespace Keypad

variable {calculator : Calculator} {pad : Keypad}

/-- An operator goes on with the text, whether it was evaluated or not. -/
theorem buffer_run_carried (calculator : Calculator) (line : Continuation)
    (hb : pad.buffer.chars = line.shown.text) :
    (pad.run calculator (.operator line.op :: line.typed.keys)).buffer.chars = line.text ∧
      (pad.run calculator (.operator line.op :: line.typed.keys)).justEvaluated = false := by
  let typing : Keypad := { pad with justEvaluated := false }
  have hends : Typing.EndsOperand typing.buffer.chars := hb ▸ line.shown.endsOperand_text
  have htypes : Typing.Types calculator typing.buffer (.operator line.op :: line.typed.keys) _ :=
    Typing.types_cons (Typing.types_operator hends line.op)
      (Typing.types_numeral line.typed (Typing.awaits_append_operator _ line.op))
  obtain ⟨hbuffer, hj⟩ := htypes typing rfl rfl
  have hsame : pad.run calculator (.operator line.op :: line.typed.keys) =
      typing.run calculator (.operator line.op :: line.typed.keys) := rfl
  rw [hsame]
  refine ⟨?_, hj⟩
  rw [hbuffer]
  simp [Buffer.append, typing, hb, Continuation.text, Continuation.back]

/-- **A number on the display is carried on by an operator and another number.** -/
theorem display_run_carried (calculator : Calculator) (line : Continuation)
    (hb : pad.buffer.chars = line.shown.text) :
    (pad.run calculator (.operator line.op :: (line.typed.keys ++ [.evaluate]))).display =
      Typing.display calculator (line.op.carryOn line.shown.value line.typed.value) := by
  obtain ⟨hchars, hj⟩ := buffer_run_carried calculator line hb
  have hrun : pad.run calculator (.operator line.op :: (line.typed.keys ++ [.evaluate])) =
      (pad.run calculator (.operator line.op :: line.typed.keys)).pressEvaluate calculator := by
    rw [← List.cons_append]
    exact List.foldl_append
  rw [hrun, Typing.display_of_trim hchars hj line.trim_text line.text_ne_nil, line.evaluate_text]

/-- The display shows the result that is kept. -/
theorem toList_display {value : Float} (h : Coherent calculator pad)
    (hv : pad.lastValue = some value) : pad.display.toList = calculator.shown value := by
  obtain ⟨-, hs, hchars⟩ := h.result value hv
  rw [h.text hs, isEmpty_of_lastValue h hv, if_neg Bool.false_ne_true, Buffer.text, hchars,
    String.toList_ofList]

/-- **A result carries on with the number that the display shows.** The display of a finite result
denotes a number, and there is a double nearest to it. Behind the result, an operator, a number and
`=` show what the operator makes of that double and of the number typed, or the short message of
its error; a power leaves the sign of the first in front. -/
theorem result_carries_on (calculator : Calculator) (keys : List Key) (value : Float)
    (op : BinaryOperation) (n : Typing.Numeral)
    (hv : ((({} : Keypad).run calculator keys).press calculator .evaluate).lastValue = some value)
    (hf : rank value < infiniteRank) :
    let shown := (({} : Keypad).run calculator keys).press calculator .evaluate
    (∃ q r, Denotes shown.display.toList q ∧ IsNearestDouble q r) ∧
      ∀ q r, Denotes shown.display.toList q → IsNearestDouble q r →
        (shown.run calculator (.operator op :: (n.keys ++ [.evaluate]))).display =
          Typing.display calculator (op.carryOn r n.value) := by
  intro shown
  have hcoherent : Coherent calculator shown :=
    coherent_press (coherent_run_of coherent_init keys) .evaluate
  have hdisplay : shown.display.toList = calculator.shown value := toList_display hcoherent hv
  have hchars : shown.buffer.chars = calculator.shown value := (hcoherent.result value hv).2.2
  obtain ⟨a, ha, hplus, q, hq, hnearest⟩ := exists_shown_literal calculator.precision hf
  rw [hdisplay]
  refine ⟨⟨q, a.value, hq, hnearest⟩, fun q' r hq' hr => ?_⟩
  -- no other number is meant than the one that the literal stands for
  rw [hq'.unique hq] at hr
  rw [hr.unique hnearest]
  exact display_run_carried calculator ⟨a, op, n, hplus⟩ (hchars.trans ha.symm)

/-- The number two, as it is typed. -/
def two : Typing.Numeral := .ofDigit '2' rfl

/-- The result `-4` carries on with a power. -/
theorem result_carries_on_negativeFour :
    ((({} : Keypad).run {} [.operator .subtract, .digit '4']).press {} .evaluate).lastValue =
        some (-4) ∧
      rank (-4) < infiniteRank ∧
      let shown := (({} : Keypad).run {} [.operator .subtract, .digit '4']).press {} .evaluate
      (∃ q r, Denotes shown.display.toList q ∧ IsNearestDouble q r) ∧
        ∀ q r, Denotes shown.display.toList q → IsNearestDouble q r →
          (shown.run {} (.operator .power :: (two.keys ++ [.evaluate]))).display =
            Typing.display {} (BinaryOperation.power.carryOn r two.value) := by
  have hv : ((({} : Keypad).run {} [.operator .subtract, .digit '4']).press {}
      .evaluate).lastValue = some (-4) := by decide +kernel
  have hf : rank (-4) < infiniteRank := by decide +kernel
  exact ⟨hv, hf, result_carries_on {} _ (-4) .power two hv hf⟩

/-- The square of the result `-4` is not what is shown: where four and its negative both have the
square sixteen, the display shows `-16`. -/
theorem square_of_negativeFour_not_shown :
    (({} : Keypad).run {} [.operator .subtract, .digit '4', .evaluate]).display = "-4" ∧
    ¬ ((4 : Float).pow 2 = 16 ∧ (-4 : Float).pow 2 = 16 ∧
      ((({} : Keypad).run {} [.operator .subtract, .digit '4', .evaluate]).run {}
        [.operator .power, .digit '2', .evaluate]).display =
          Typing.display {} (BinaryOperation.power.apply (-4) 2)) := by
  refine ⟨by decide +kernel, ?_⟩
  rintro ⟨hsquare, hsquare', hclaim⟩
  let four : Literal := literalOf true ⟨['4'], none, none⟩
    (Numeral.written_of_digits ⟨List.all_eq_true.mp rfl, by decide⟩ rfl) rfl
  let line : Continuation := ⟨four, .power, two, by decide⟩
  have hshown : line.shown.value = -4 := by decide +kernel
  have htyped : line.typed.value = 2 := by decide +kernel
  have hcarried : BinaryOperation.power.carryOn (-4) 2 = .ok (-16) := by
    have hneg : isNegative (-4) = true := by decide +kernel
    have hsize : -(-4 : Float) = 4 := by decide +kernel
    rw [BinaryOperation.carryOn, if_pos ⟨rfl, hneg⟩, hsize, ← hsquare]
    rfl
  have happly : BinaryOperation.power.apply (-4) 2 = .ok 16 := congrArg Except.ok hsquare'
  have hchars : (({} : Keypad).run {} [.operator .subtract, .digit '4', .evaluate]).buffer.chars =
      line.shown.text := by decide +kernel
  have hcode := display_run_carried {} line hchars
  rw [hshown, htyped, hcarried] at hcode
  rw [happly] at hclaim
  have hsame : Typing.display {} (.ok (-16)) = Typing.display {} (.ok 16) := hcode.symm.trans hclaim
  exact absurd hsame (by decide +kernel)

end Keypad

end PocketCalc

import PocketCalc.Line.Session
import PocketCalc.Proofs.LineCut

/-!
# The text loop and the evaluator agree

A line of two literals means the same to the text loop, which cuts it at its operator and hands
two operands to an operation, and to the evaluator, which derives it by the grammar. They apply
one operation to the same two numbers, up to the sign of a zero, and that sign never shows.
-/

namespace PocketCalc

open Number Precedence Grammar

/-- The mark of an operator is cut into its token, unless a second star follows. -/
theorem scansTo_mark (op : ChainOperator) {rest : List Char} {ks : List TokenKind}
    (hstar : ∀ c ∈ rest.head?, c ≠ '*') (h : ScansTo rest ks) :
    ScansTo (op.mark :: rest) (op.token :: ks) := by
  have hsymbol : Lexeme.symbol? (op.mark :: rest) = some ⟨op.token, [op.mark], rest⟩ := by
    cases op with
    | add => rfl
    | subtract => rfl
    | divide => rfl
    | multiply =>
        rw [ChainOperator.mark, Lexeme.symbol?]
        · rfl
        · intro cs hcs
          exact hstar '*' (by rw [hcs]; rfl) rfl
  have hstart : isSymbolStart op.mark = true := by
    cases op <;> decide
  exact scansTo_symbol hstart hsymbol h

namespace LiteralLine

variable (line : LiteralLine) {env : Environment}

/-- How the grammar derives the line. -/
def derivation : Derivation .expression :=
  match hs : line.op.strength with
  | .sum =>
      Chain.derivation ⟨term (.single line.lhs.derivation),
        [(⟨line.op, hs⟩, term (.single line.rhs.derivation))]⟩
  | .product =>
      Chain.derivation (.single (term ⟨line.lhs.derivation,
        [(⟨line.op, hs⟩, line.rhs.derivation)]⟩))

theorem tokens_derivation : line.derivation.tokens =
    line.lhs.derivation.tokens ++ line.op.token :: line.rhs.derivation.tokens := by
  unfold derivation
  split
  · simp [Chain.derivation, Chain.single, Chain.map, term, chained]
  · simp [Chain.derivation, Chain.single, Chain.map, term, chained]

theorem depth_derivation_le : line.derivation.depth ≤ maxNesting := by
  have hl := line.lhs.depth_derivation_le
  have hr := line.rhs.depth_derivation_le
  have hmax : 1 ≤ maxNesting := by decide
  unfold derivation
  split
  · simp only [Chain.derivation, Chain.single, Chain.map, term, chained, Derivation.depth,
      List.map_nil]
    omega
  · simp only [Chain.derivation, Chain.single, Chain.map, term, chained, Derivation.depth,
      List.map_nil, List.map_cons]
    omega

/-- **The line is cut into the tokens of its derivation.** -/
theorem scansTo_text : ScansTo line.text line.derivation.tokens := by
  have hrhs : ScansTo (line.rhs.text ++ []) (line.rhs.derivation.tokens ++ []) :=
    line.rhs.scansTo endsNumeral_nil scansTo_nil
  rw [List.append_nil, List.append_nil] at hrhs
  have hback : ScansTo line.back line.rhs.derivation.tokens :=
    scansTo_blanks line.isBlank_after hrhs
  have hop := scansTo_blanks line.isBlank_before (scansTo_mark line.op line.head_back hback)
  rw [line.tokens_derivation]
  exact line.lhs.scansTo line.endsNumeral_isDigit hop

theorem numeric_derivation : numeric env line.derivation.tree =
    line.op.operation.apply line.lhs.value line.rhs.value := by
  have hlhs : numeric env _ = _ := line.lhs.numeric_derivation
  have hrhs : numeric env _ = _ := line.rhs.numeric_derivation
  have happly := bind_pure (line.op.operation.apply line.lhs.value line.rhs.value)
  unfold derivation
  split
  · rw [numeric_chain]
    simp only [Chain.map, Chain.value, List.map_cons, List.map_nil, numeric_term, linked,
      Chain.single, hlhs, hrhs]
    exact happly
  · rw [numeric_chain]
    simp only [Chain.map, Chain.value, List.map_cons, List.map_nil, numeric_term, linked,
      Chain.single, hlhs, hrhs]
    exact (bind_pure _).trans happly

theorem not_mem_w : 'w' ∉ line.text := by
  intro hw
  have hblank : Text.isBlank 'w' = false := rfl
  simp only [text, back, List.mem_append, List.mem_cons] at hw
  rcases hw with h | h | h | h | h
  · exact line.lhs.not_mem_w h
  · rw [line.isBlank_before _ h] at hblank
    cases hblank
  · revert h
    cases line.op <;> decide
  · rw [line.isBlank_after _ h] at hblank
    cases hblank
  · exact line.rhs.not_mem_w h

/-- **The evaluator applies the operator to the two numbers written.** -/
theorem evaluate_text :
    evaluate env line.text = line.op.operation.apply line.lhs.value line.rhs.value := by
  rw [evaluate_of_scansTo line.not_mem_w line.scansTo_text line.depth_derivation_le]
  exact line.numeric_derivation

/-! ## The two answers -/

variable (calculator : Calculator)

/-- What the operator makes of the two numbers written, as it is shown. -/
def outcome : Except Error (List Char) :=
  (line.op.operation.apply line.lhs.value line.rhs.value).map calculator.shown

/-- **The text loop shows the outcome**, though it may read a zero under the other sign. -/
theorem answer_text :
    calculator.answer line.text = (line.outcome calculator).map fun cs => some (String.ofList cs) := by
  obtain ⟨x, hx, hsamex⟩ := line.lhs.exists_value_read
  obtain ⟨y, hy, hsamey⟩ := line.rhs.exists_value_read
  have hanswer : calculator.answer line.text =
      calculator.env.call (.binary line.op.operation)
          [Operand.read line.lhs.text, Operand.read line.rhs.text] >>=
        fun z => .ok (some (String.ofList (calculator.shown z))) := by
    rw [Calculator.answer, line.ofLine_text]
    rfl
  have hcall : calculator.env.call (.binary line.op.operation)
      [Operand.read line.lhs.text, Operand.read line.rhs.text] = line.op.operation.apply x y := by
    rw [Environment.call, Operation.apply, hx, hy]
    rfl
  have hshown : (line.op.operation.apply x y).map calculator.shown = line.outcome calculator :=
    map_shown_apply line.op calculator.precision hsamex hsamey
  rw [hanswer, hcall, ← hshown]
  cases line.op.operation.apply x y with
  | error error => rfl
  | ok z => rfl

end LiteralLine

/-- The text that a report shows, or its error. -/
def Report.outcome : Report → Except Error String
  | .success _ _ display => .ok display
  | .failure _ error => .error error

namespace LiteralLine

variable (line : LiteralLine) (calculator : Calculator)

/-- **The report of the evaluator holds the outcome.** -/
theorem outcome_report :
    (calculator.report line.text).outcome = (line.outcome calculator).map String.ofList := by
  have hempty : line.text.isEmpty = false := by
    obtain ⟨c, cs, hcs, -⟩ := line.lhs.exists_start
    rw [text, hcs]
    rfl
  have hevaluate : evaluate calculator.env line.text = _ := line.evaluate_text
  rw [Calculator.report, Report.ofText, line.trim_text, hempty, hevaluate, outcome]
  cases line.op.operation.apply line.lhs.value line.rhs.value with
  | error error => rfl
  | ok z => rfl

/-- **The text loop and the evaluator agree on a line of two literals**, on the text shown as on
the error. -/
theorem answer_iff_report :
    (∀ t, calculator.answer line.text = .ok (some t) ↔
      ∃ expression value, calculator.report line.text = .success expression value t) ∧
    ∀ e, calculator.answer line.text = .error e ↔
      ∃ expression, calculator.report line.text = .failure expression e := by
  have hreport := line.outcome_report calculator
  have hagree : calculator.answer line.text =
      (calculator.report line.text).outcome.map some := by
    rw [line.answer_text, hreport]
    cases line.outcome calculator with
    | error error => rfl
    | ok cs => rfl
  rw [hagree]
  cases calculator.report line.text with
  | success expression value display => simp [Report.outcome, Except.map]
  | failure expression error => simp [Report.outcome, Except.map]

/-- The line `-0 * 1e+5`: the text loop reads its first number as a whole zero, which has no sign. -/
def negativeZero : LiteralLine where
  lhs :=
    { sign := some '-'
      numeral := ⟨['0'], none, none⟩
      isSign := by simp [IsSign]
      written := Numeral.written_of_digits ⟨List.all_eq_true.mp rfl, by decide⟩ rfl
      noLeadingZero := rfl }
  before := [' ']
  op := .multiply
  after := [' ']
  rhs :=
    { sign := none
      numeral := ⟨['1'], none, some ⟨'e', some '+', ['5']⟩⟩
      isSign := by simp
      written := by
        refine ⟨⟨List.all_eq_true.mp rfl, by decide⟩, fun e he => ?_⟩
        obtain rfl := Option.some.inj he
        exact ⟨.inl rfl, by simp [IsSign], ⟨List.all_eq_true.mp rfl, by decide⟩⟩
      noLeadingZero := rfl }
  isBlank_before := List.all_eq_true.mp rfl
  isBlank_after := List.all_eq_true.mp rfl

theorem answer_iff_report_of_negativeZero :
    negativeZero.text = "-0 * 1e+5".toList ∧
    ∀ t, ({} : Calculator).answer negativeZero.text = .ok (some t) ↔
      ∃ expression value, ({} : Calculator).report negativeZero.text =
        .success expression value t :=
  ⟨rfl, (answer_iff_report negativeZero {}).1⟩

end LiteralLine

end PocketCalc

import PocketCalc.Proofs.KeyReading
import PocketCalc.Proofs.Literal
import PocketCalc.Proofs.NumberText

/-!
# From keys to the display

Typing a phrase and pressing `=` shows the value of the phrase. The text that is typed is cut into
the tokens of the phrase; by completeness of the parser the derivation of the phrase is the one
that is found, and its tree evaluates to the value.
-/

namespace PocketCalc

namespace Typing

open Precedence Grammar

variable {env : Environment}

/-- The text of an expression is cut into its tokens, wherever it stands. -/
theorem readsAs_text (e : Phrase env .expression) : ReadsAs e.text e.tokens := by
  have hnil : ReadsAs [] [] := scansTo_nil
  -- nothing follows the text of a whole expression
  have h := readsAs_phrase e (by intro c hc; cases hc) hnil
  rwa [List.append_nil, List.append_nil] at h

theorem scan_text (e : Phrase env .expression) :
    ∃ ts, Token.scan (expandPow e.text) = .ok ts ∧ ts.map (·.kind) = e.tokens :=
  readsAs_text e 0

/-- What the text of an expression evaluates to is its value. -/
theorem evaluate_text (e : Phrase env .expression)
    (h : Derivation.depth e.derivation ≤ maxNesting) : evaluate env e.text = e.value := by
  have hs : ScansTo (expandPow e.text) (Derivation.tokens e.derivation) := by
    rw [show Derivation.tokens e.derivation = e.tokens from tokens_phrase e]
    exact readsAs_text e
  exact (evaluate_of_derivation hs h).trans (amount_phrase e)

/-! ## Blanks around the text -/

/-- A text that does not start with a blank. -/
def Solid (cs : List Char) : Prop := ∃ c rest, cs = c :: rest ∧ Text.isBlank c = false

theorem Solid.append {cs : List Char} (h : Solid cs) (cs' : List Char) : Solid (cs ++ cs') := by
  obtain ⟨c, rest, rfl, hc⟩ := h
  exact ⟨c, rest ++ cs', rfl, hc⟩

theorem solid_name {name : String} (h : name ∈ Environment.names) : Solid name.toList := by
  have all_names : ∀ name ∈ Environment.names,
      name.toList.head?.any (!Text.isBlank ·) = true := by decide
  have hname := all_names name h
  cases hcs : name.toList with
  | nil => rw [hcs] at hname; cases hname
  | cons c rest => exact ⟨c, rest, rfl, by simpa [hcs] using hname⟩

theorem solid_operand (d : Phrase env .operand) : Solid d.text := by
  cases d with
  | number n =>
      obtain ⟨c, rest, hcs, -, hc⟩ := n.written.exists_start
      exact ⟨c, rest, (List.append_nil _).symm.trans hcs, hc⟩
  | constant c => exact solid_name (Environment.mem_names_of_lookup c.bound)
  | application f argument =>
      exact (solid_name (Environment.mem_names_of_lookup f.bound)).append _
  | parenthesized inner => exact ⟨'(', _, rfl, rfl⟩

theorem solid_expression (e : Phrase env .expression) : Solid e.text := by
  cases e with
  | expression negated first links =>
      cases negated with
      | false => exact (solid_operand first).append _
      | true => exact ⟨'-', _, rfl, rfl⟩

/-- A report takes the text of an expression as it is. -/
theorem trim_text (e : Phrase env .expression) : Text.trim e.text = e.text := by
  obtain ⟨c, rest, hcs, hc⟩ := solid_expression e
  have hend : EndsOperand e.text := endsOperand_text e [] nofun
  rw [hcs] at hend ⊢
  unfold EndsOperand at hend
  cases hl : (c :: rest).getLast? with
  | none => rw [hl] at hend; cases hend
  | some d =>
      rw [hl] at hend
      exact Text.trim_eq_self hc (isBlank_eq_false_of_isOperandEnd hend) hl

/-! ## The display -/

variable {calculator : Calculator}

/-- What the display shows of an amount: the number, or a short message. -/
def display (calculator : Calculator) : Amount → String
  | .ok x => String.ofList (calculator.shown x)
  | .error error => error.shortMessage

/-- Evaluating a text that is being typed shows what it amounts to. -/
theorem display_of_trim {pad : Keypad} {cs : List Char} (hb : pad.buffer.chars = cs)
    (hj : pad.justEvaluated = false) (htrim : Text.trim cs = cs) (hne : cs ≠ []) :
    (pad.pressEvaluate calculator).display = display calculator (evaluate calculator.env cs) := by
  have hempty : cs.isEmpty = false := List.isEmpty_eq_false_iff.mpr hne
  -- there is a text, and it was not evaluated before
  unfold Keypad.pressEvaluate
  rw [Buffer.isEmpty, hb, hempty, hj, Bool.false_and, Bool.false_or, if_neg Bool.false_ne_true,
    Calculator.report, Report.ofText, htrim, hempty]
  cases evaluate calculator.env cs with
  | error error => rfl
  | ok x =>
      -- a display that refreshes to a zero would need an empty text
      have hshown : (⟨Number.shown calculator.precision x⟩ : Buffer).isEmpty = false := by
        simp [Buffer.isEmpty, Number.shown_ne_nil]
      simp [Keypad.refreshed, hshown, display, Calculator.shown, Buffer.text]

theorem text_ne_nil (e : Phrase env .expression) : e.text ≠ [] := by
  obtain ⟨c, rest, hcs, -⟩ := solid_expression e
  rw [hcs]
  exact List.cons_ne_nil c rest

theorem display_pressEvaluate {pad : Keypad} (e : Phrase calculator.env .expression)
    (hb : pad.buffer.chars = e.text) (hj : pad.justEvaluated = false)
    (h : Derivation.depth e.derivation ≤ maxNesting) :
    (pad.pressEvaluate calculator).display = display calculator e.value := by
  rw [display_of_trim hb hj (trim_text e) (text_ne_nil e), evaluate_text e h]

/-- **Typing an expression evaluates that expression.** From an empty text, the keys of an
expression type its text, none of them dropped or changed; the text is cut into the tokens of the
expression; and if it nests no deeper than the limit, `=` shows its value under the usual
precedence, or the short message of the error that ends its evaluation. -/
theorem display_of_typed (calculator : Calculator) (pad : Keypad) (hb : pad.buffer = {})
    (hj : pad.justEvaluated = false) (e : Phrase calculator.env .expression) :
    (pad.run calculator e.keys).buffer.chars = e.text ∧
    (∃ ts, Token.scan (expandPow e.text) = .ok ts ∧ ts.map (·.kind) = e.tokens) ∧
    (Derivation.depth e.derivation ≤ maxNesting →
      ((pad.run calculator e.keys).press calculator .evaluate).display =
        display calculator e.value) := by
  have htyped : Types calculator {} e.keys (({} : Buffer).append e.text) := typesText e (.inl rfl)
  obtain ⟨hbuffer, hjust⟩ := htyped pad hb hj
  have hchars : (pad.run calculator e.keys).buffer.chars = e.text := by rw [hbuffer]; rfl
  exact ⟨hchars, scan_text e, display_pressEvaluate e hchars hjust⟩

/-- The phrase `−.5 + 6 sqrt 9 )`, with the key of the multiplication left out. -/
def negatedSum : Phrase {} .expression :=
  .expression true (.number ⟨[], some ['5'], List.all_eq_true.mp rfl, by decide, by decide⟩)
    (.link .add (.number (.ofDigit '6' rfl))
      (.juxtaposed ⟨"sqrt", .squareRoot, rfl⟩
        (.expression false (.number (.ofDigit '9' rfl)) .noLinks) .noLinks))

/-- The sign takes the first number only, and the product comes before the sum. -/
theorem display_of_negatedSum :
    (({} : Keypad).run {} negatedSum.keys).buffer.chars = "-.5 + 6 * sqrt(9)".toList ∧
    ((({} : Keypad).run {} negatedSum.keys).press {} .evaluate).display = "17.5" := by
  obtain ⟨htext, -, hdisplay⟩ := display_of_typed {} {} rfl rfl negatedSum
  have hdepth : Derivation.depth negatedSum.derivation ≤ maxNesting := by decide
  have hvalue : negatedSum.value = .ok 17.5 := by decide +kernel
  have hshown : display {} (.ok 17.5) = "17.5" := by decide +kernel
  refine ⟨htext.trans (by decide), ?_⟩
  rw [hdisplay hdepth, hvalue, hshown]

end Typing

end PocketCalc

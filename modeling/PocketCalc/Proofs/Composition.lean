import PocketCalc.Proofs.Concatenation
import PocketCalc.Proofs.KeyReading
import PocketCalc.Proofs.Literal

/-!
# Texts put together

Two texts in parentheses with an operator between them evaluate to what the operator makes of the
values of the two, and a function name in front of one to what the function makes of its value: what
stands around a text does not change how it is cut, how it is parsed, or what it evaluates to.

Each text has a derivation of its own, and the grammar has no other one for it. In parentheses that
derivation lies one level deeper, which is where the limit of the nesting comes in: that the text in
parentheses is accepted says that there is room for it.
-/

namespace PocketCalc

open Precedence Grammar Typing

/-- A text that the parser accepts once each `pow` is two stars. -/
def Accepted (cs : List Char) : Prop := (Expr.parse (expandPow cs)).isOk = true

instance (cs : List Char) : Decidable (Accepted cs) := inferInstanceAs (Decidable (_ = true))

/-- The text in parentheses. -/
def enclosed (cs : List Char) : List Char := '(' :: (cs ++ [')'])

/-- The operator as expressions have it. -/
def BinaryOperation.written : BinaryOperation → List Char
  | add => ['+']
  | subtract => ['-']
  | multiply => ['*']
  | divide => ['/']
  | power => ['*', '*']

/-- What an operator in an expression makes of two numbers: what its operation does, except that
zero to a negative power is a division by zero. -/
def BinaryOperation.combine (env : Environment) (op : BinaryOperation) (x y : Float) :
    Except Error Float :=
  if op = .power ∧ x == 0 ∧ y < 0 then .error .divisionByZero
  else env.call (.binary op) [.float x, .float y]

variable {cs rest : List Char} {ks ks' : List TokenKind} {env : Environment}

/-! ## Tokens -/

/-- What stands apart from a text still does once each `pow` in it is two stars. -/
theorem Apart.expandPow (hr : Apart rest) : Apart (expandPow rest) := by
  cases rest with
  | nil => exact hr
  | cons c rest =>
      have hp : c ≠ 'p' := (hr c rfl).ne_of_isNameChar rfl
      rw [expandPow_cons fun t ht => hp (List.cons.inj ht).1]
      intro d hd
      exact hr d hd

/-- A text has no two lists of tokens. -/
theorem ScansTo.unique (h : ScansTo cs ks) (h' : ScansTo cs ks') : ks = ks' := by
  obtain ⟨ts, hts, hks⟩ := h 0
  obtain ⟨ts', hts', hks'⟩ := h' 0
  obtain rfl : ts = ts' := Except.ok.inj (hts.symm.trans hts')
  exact hks.symm.trans hks'

/-- The tokens of a text in front of another one, with stars for each `pow` of the two. -/
theorem readsAs_append (h : ReadsAs cs ks) (hr : Apart rest) (hrest : ReadsAs rest ks') :
    ReadsAs (cs ++ rest) (ks ++ ks') := by
  obtain ⟨ts, hts, rfl⟩ := h 0
  unfold ReadsAs
  rw [expandPow_append_apart hr]
  exact scansTo_append hts hr.expandPow hrest

/-- A closing parenthesis carries no token on. -/
theorem apart_close : Apart (')' :: rest) := by
  intro c hc
  cases hc
  exact ⟨by decide, by decide, by simp [Number.IsSign], by decide⟩

theorem readsAs_enclosed (h : ReadsAs cs ks) (hrest : ReadsAs rest ks') :
    ReadsAs (enclosed cs ++ rest) (.openParen :: (ks ++ .closeParen :: ks')) := by
  have hinner := readsAs_append h apart_close (readsAs_close hrest)
  simpa [enclosed] using readsAs_open hinner

/-- An operator in front of a parenthesis stands apart from it without a blank. -/
theorem readsAs_written (op : BinaryOperation) (h : ReadsAs ('(' :: rest) ks) :
    ReadsAs (op.written ++ '(' :: rest) (op.token :: ks) := by
  cases op with
  | add => exact scansTo_symbol (l := ⟨.plus, ['+'], '(' :: expandPow rest⟩) (by decide) rfl h
  | subtract => exact readsAs_minus h
  | multiply => exact scansTo_symbol (l := ⟨.star, ['*'], '(' :: expandPow rest⟩) (by decide) rfl h
  | divide => exact scansTo_symbol (l := ⟨.slash, ['/'], '(' :: expandPow rest⟩) (by decide) rfl h
  | power =>
      exact scansTo_symbol (l := ⟨.power, ['*', '*'], '(' :: expandPow rest⟩) (by decide) rfl h

/-! ## Derivations -/

namespace Precedence

/-- What stands in parentheses, as an operand. -/
def operand (d : Derivation .expression) : Derivation .call :=
  .called (.parenthesized d) .noTrailers

/-- A call as a whole expression. -/
def alone (d : Derivation .call) : Derivation .expression := derivation false (group d [])

/-- An operator between two operands, as a whole expression. -/
def pair (op : BinaryOperation) (d d' : Derivation .call) : Derivation .expression :=
  derivation false (group d [(op, d')])

theorem depth_alone (d : Derivation .call) : (alone d).depth = d.depth := by
  show max (max d.depth 0) 0 = d.depth
  simp

/-- An exponent lies one level deeper than what is on the two sides of any other operator. -/
theorem depth_pair_le {bound : Nat} {op : BinaryOperation} {d d' : Derivation .call}
    (h : d.depth ≤ bound) (h' : d'.depth ≤ bound) (hp : op = .power → d'.depth < bound) :
    (pair op d d').depth ≤ bound := by
  cases op with
  | power =>
      have hexponent : d'.depth + 1 ≤ bound := hp rfl
      show max (max (max d.depth (d'.depth + 1)) 0) 0 ≤ bound
      simp [h, hexponent]
  | add =>
      show max (max d.depth 0) (max (max d'.depth 0) 0) ≤ bound
      simp [h, h']
  | subtract =>
      show max (max d.depth 0) (max (max d'.depth 0) 0) ≤ bound
      simp [h, h']
  | multiply =>
      show max (max d.depth (max d'.depth 0)) 0 ≤ bound
      simp [h, h']
  | divide =>
      show max (max d.depth (max d'.depth 0)) 0 ≤ bound
      simp [h, h']

theorem depth_operand (d : Derivation .expression) : (operand d).depth = d.depth + 1 :=
  Nat.max_eq_left (Nat.zero_le _)

end Precedence

/-- A derivation of a text that the parser has room for. -/
structure Parses (cs : List Char) (d : Derivation .expression) : Prop where
  readsAs : ReadsAs cs d.tokens
  depth_le : d.depth ≤ maxNesting

variable {d : Derivation .expression}

/-- **A text that is accepted has a derivation.** -/
theorem Accepted.exists_parses (h : Accepted cs) : ∃ d, Parses cs d := by
  obtain ⟨e, he⟩ : ∃ e, Expr.parse (expandPow cs) = .ok e := by
    unfold Accepted at h
    cases he : Expr.parse (expandPow cs) with
    | error fault =>
        rw [he] at h
        cases h
    | ok e => exact ⟨e, rfl⟩
  obtain ⟨ts, hts, he⟩ := bind_eq_ok he
  obtain ⟨d, hd, hdepth, -⟩ := derivation_of_ofTokens he
  -- what was cut at the front of everything is cut alike anywhere
  have hs : ScansTo (expandPow cs ++ []) (ts.map (·.kind) ++ []) :=
    scansTo_append hts nofun scansTo_nil
  rw [List.append_nil, List.append_nil, ← hd] at hs
  exact ⟨d, hs, hdepth⟩

theorem Parses.readsAs_enclosed (h : Parses cs d) :
    ReadsAs (enclosed cs) (.openParen :: (d.tokens ++ [.closeParen])) := by
  have hnil : ReadsAs [] [] := scansTo_nil
  simpa using PocketCalc.readsAs_enclosed h.readsAs hnil

theorem Parses.evaluate (h : Parses cs d) : evaluate env cs = numeric env d.tree :=
  evaluate_of_derivation h.readsAs h.depth_le

/-- **What a text in parentheses is parsed as**, if there is room for it: the grammar has no other
derivation for its tokens. -/
theorem parses_enclosed (h : Parses cs d) (hroom : Accepted (enclosed cs)) :
    Parses (enclosed cs) (alone (operand d)) := by
  obtain ⟨d', h'⟩ := hroom.exists_parses
  have hreads : ReadsAs (enclosed cs) (alone (operand d)).tokens := by
    rw [alone, tokens_group]
    simpa [operand, signTokens, tailTokens] using h.readsAs_enclosed
  obtain rfl : d' = alone (operand d) := tokens_injective (h'.readsAs.unique hreads)
  exact h'

/-- There is room for one level more around a text that is accepted in parentheses. -/
theorem Parses.depth_lt (h : Parses cs d) (hroom : Accepted (enclosed cs)) :
    d.depth < maxNesting := by
  have hdepth := (parses_enclosed h hroom).depth_le
  rwa [depth_alone, depth_operand] at hdepth

/-- **Two texts in parentheses with an operator between them**, as the grammar derives them. -/
theorem parses_operator {cs' : List Char} {d' : Derivation .expression} {op : BinaryOperation}
    (h : Parses cs d) (h' : Parses cs' d') (hroom : Accepted (enclosed cs))
    (hroom' : Accepted (enclosed cs')) (hpower : op = .power → Accepted (enclosed (enclosed cs'))) :
    Parses (enclosed cs ++ (op.written ++ enclosed cs')) (pair op (operand d) (operand d')) where
  readsAs := by
    have hall : ReadsAs (enclosed cs ++ (op.written ++ enclosed cs')) _ :=
      readsAs_enclosed h.readsAs (readsAs_written op h'.readsAs_enclosed)
    rw [pair, tokens_group]
    simpa [operand, signTokens, tailTokens] using hall
  depth_le := by
    refine depth_pair_le ?_ ?_ fun hop => ?_
    · rw [depth_operand]
      exact h.depth_lt hroom
    · rw [depth_operand]
      exact h'.depth_lt hroom'
    · have hdeeper := (parses_enclosed h' hroom').depth_lt (hpower hop)
      rwa [depth_alone] at hdeeper

/-- **A function name in front of a text in parentheses**, as the grammar derives it. -/
theorem parses_application (f : Function env) (h : Parses cs d) (hroom : Accepted (enclosed cs)) :
    Parses (f.name.toList ++ enclosed cs) (alone (f.derivation d)) where
  readsAs := by
    have hcall : ReadsAs (f.name.toList ++ enclosed cs) _ :=
      readsAs_name (Environment.mem_names_of_lookup f.bound) (follows_cons rfl) h.readsAs_enclosed
    rw [alone, tokens_group, tokens_application]
    simpa [signTokens, tailTokens] using hcall
  depth_le := by
    have hdepth : (f.derivation d).depth = d.depth + 1 := by
      simp [Function.derivation, Derivation.depth]
    rw [depth_alone, hdepth]
    exact h.depth_lt hroom

/-! ## Values -/

theorem combine_power (x y : Float) :
    BinaryOperation.combine env .power x y = Expr.raise x y := by
  unfold BinaryOperation.combine Expr.raise
  simp only [true_and, Bool.and_eq_true, decide_eq_true_eq]
  rfl

/-- The left operand is evaluated first, and the first error is the error of the pair. -/
theorem value_group_pair (a b : Amount) (op : BinaryOperation) :
    value false (group a [(op, b)]) = (do
      let x ← a
      let y ← b
      op.combine env x y) := by
  cases a with
  | error error => cases op <;> rfl
  | ok x =>
      cases b with
      | error error => cases op <;> rfl
      | ok y =>
          rw [value_pair]
          cases op with
          | power => exact (combine_power x y).symm
          | _ => rfl

theorem numeric_alone (d : Derivation .call) : numeric env (alone d).tree = numeric env d.tree := by
  rw [alone, numeric_group]
  cases numeric env d.tree <;> rfl

/-- **Evaluation is compositional on texts.** Let a text be accepted on its own and in parentheses.
With an operator between it and a second such text, both in parentheses, the two are evaluated from
the left, the first error is the error of the whole, and otherwise the operator is applied to the
two values; an exponent has to be accepted in two pairs of parentheses as well. Behind the name of a
function the text is evaluated, and the function is called on its value. -/
theorem evaluate_compositional (env : Environment) {a : List Char} (ha : Accepted a)
    (ha' : Accepted (enclosed a)) :
    (∀ (op : BinaryOperation) (b : List Char), Accepted b → Accepted (enclosed b) →
      (op = .power → Accepted (enclosed (enclosed b))) →
      evaluate env (enclosed a ++ (op.written ++ enclosed b)) = do
        let x ← evaluate env a
        let y ← evaluate env b
        op.combine env x y) ∧
    (∀ (name : String) (op : UnaryOperation), env.lookup name = some (.function op) →
      evaluate env (name.toList ++ enclosed a) = do
        let x ← evaluate env a
        env.call (.unary op) [.float x]) := by
  obtain ⟨d, hd⟩ := ha.exists_parses
  refine ⟨fun op b hb hb' hpower => ?_, fun name op hbound => ?_⟩
  · obtain ⟨d', hd'⟩ := hb.exists_parses
    rw [(parses_operator hd hd' ha' hb' hpower).evaluate, pair, numeric_group, hd.evaluate,
      hd'.evaluate]
    exact value_group_pair (numeric env d.tree) (numeric env d'.tree) op
  · let f : Function env := ⟨name, op, hbound⟩
    rw [(parses_application f hd ha').evaluate, numeric_alone, numeric_application, hd.evaluate]
    rfl

/-- A third raised to a sum, and its square root. -/
theorem evaluate_compositional_third :
    Accepted "1/3".toList ∧ Accepted (enclosed "1/3".toList) ∧
    evaluate {} "(1/3)**(1+1)".toList = (do
      let x ← evaluate {} "1/3".toList
      let y ← evaluate {} "1+1".toList
      BinaryOperation.combine {} .power x y) ∧
    evaluate {} "sqrt(1/3)".toList = (do
      let x ← evaluate {} "1/3".toList
      Environment.call {} (.unary .squareRoot) [.float x]) := by
  have h : Accepted "1/3".toList := by decide +kernel
  have h' : Accepted (enclosed "1/3".toList) := by decide +kernel
  obtain ⟨hoperator, hfunction⟩ := evaluate_compositional {} h h'
  exact ⟨h, h', hoperator .power "1+1".toList (by decide +kernel) (by decide +kernel)
    (fun _ => by decide +kernel), hfunction "sqrt" .squareRoot rfl⟩

end PocketCalc

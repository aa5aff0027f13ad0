import PocketCalc.Proofs.KeyTyping
import PocketCalc.Proofs.Scanning

/-!
# What is typed is read back

The text of a phrase, with two stars for each `pow`, is cut into the tokens of the phrase; the
derivation of the phrase has these tokens; and its tree evaluates to the value of the phrase. Each
of the three is an induction over phrases.
-/

namespace PocketCalc

namespace Typing

open Number Precedence Grammar

/-! ## Cutting the text -/

/-- The text is cut into tokens of these kinds once each `pow` is two stars. -/
def ReadsAs (cs : List Char) (ks : List TokenKind) : Prop := ScansTo (expandPow cs) ks

/-- A character that ends a number and a name. -/
def isBoundary (c : Char) : Bool := c == ' ' || c == '(' || c == ')'

/-- What can follow a number or a name: nothing, a blank, or a parenthesis. -/
def Follows (rest : List Char) : Prop := ∀ c ∈ rest.head?, isBoundary c = true

theorem of_isBoundary {P : Char → Prop} {c : Char} (h : isBoundary c = true) (hblank : P ' ')
    (hopen : P '(') (hclose : P ')') : P c := by
  simp only [isBoundary, Bool.or_eq_true, beq_iff_eq] at h
  rcases h with (rfl | rfl) | rfl
  · exact hblank
  · exact hopen
  · exact hclose

variable {cs rest : List Char} {ks : List TokenKind} {env : Environment}

theorem follows_cons {c : Char} (h : isBoundary c = true) : Follows (c :: rest) := by
  intro d hd
  cases hd
  exact h

/-- The first character of what follows is still there once each `pow` is two stars. -/
theorem Follows.expandPow (h : Follows rest) : Follows (expandPow rest) := by
  cases rest with
  | nil => exact h
  | cons c rest =>
      have hc : isBoundary c = true := h c rfl
      have hp : c ≠ 'p' := by rintro rfl; exact absurd hc (by decide)
      rw [expandPow_cons fun t ht => hp (List.cons.inj ht).1]
      exact follows_cons hc

theorem Follows.endsNumeral (h : Follows rest) :
    EndsNumeral Char.isDigit (PocketCalc.expandPow rest) :=
  fun c hc => of_isBoundary (P := fun c => c.isDigit = false ∧ c ≠ '.' ∧ c ≠ 'e' ∧ c ≠ 'E')
    (h.expandPow c hc) (by decide) (by decide) (by decide)

theorem Follows.append (h : Follows rest) (links : Phrase env .links) :
    Follows (links.text ++ rest) := by
  cases links with
  | noLinks => exact h
  | link op operand links => exact follows_cons rfl
  | juxtaposed f argument links => exact follows_cons rfl

theorem readsAs_blank (h : ReadsAs cs ks) : ReadsAs (' ' :: cs) ks := scansTo_blank rfl h

theorem readsAs_open (h : ReadsAs cs ks) : ReadsAs ('(' :: cs) (.openParen :: ks) :=
  scansTo_symbol (l := ⟨.openParen, ['('], expandPow cs⟩) (by decide) rfl h

theorem readsAs_close (h : ReadsAs cs ks) : ReadsAs (')' :: cs) (.closeParen :: ks) :=
  scansTo_symbol (l := ⟨.closeParen, [')'], expandPow cs⟩) (by decide) rfl h

theorem readsAs_minus (h : ReadsAs cs ks) : ReadsAs ('-' :: cs) (.minus :: ks) :=
  scansTo_symbol (l := ⟨.minus, ['-'], expandPow cs⟩) (by decide) rfl h

/-- The blank behind a star keeps it apart from another one. -/
theorem readsAs_operator (h : ReadsAs cs ks) (op : BinaryOperation) :
    ReadsAs (' ' :: (op.typed.toList ++ ' ' :: cs)) (op.token :: ks) := by
  have hs : ScansTo (' ' :: expandPow cs) ks := scansTo_blank rfl h
  refine readsAs_blank ?_
  cases op with
  | add =>
      exact scansTo_symbol (l := ⟨.plus, ['+'], ' ' :: expandPow cs⟩) (by decide) rfl hs
  | subtract => exact readsAs_minus (readsAs_blank h)
  | multiply =>
      exact scansTo_symbol (l := ⟨.star, ['*'], ' ' :: expandPow cs⟩) (by decide) rfl hs
  | divide =>
      exact scansTo_symbol (l := ⟨.slash, ['/'], ' ' :: expandPow cs⟩) (by decide) rfl hs
  | power =>
      exact scansTo_symbol (l := ⟨.power, ['*', '*'], ' ' :: expandPow cs⟩) (by decide) rfl hs

/-- No `pow` begins in what is spelled without a `w` in front of such a text. -/
theorem expandPow_append_of_follows (hw : 'w' ∉ cs) (hr : Follows rest) :
    expandPow (cs ++ rest) = cs ++ expandPow rest := by
  refine expandPow_append hw fun c hc => ?_
  exact of_isBoundary (P := fun c => c ≠ 'o' ∧ c ≠ 'w') (hr c hc) (by decide) (by decide)
    (by decide)

theorem readsAs_name {name : String} (hn : name ∈ Environment.names) (hr : Follows rest)
    (h : ReadsAs rest ks) : ReadsAs (name.toList ++ rest) (.identifier name :: ks) := by
  have all_names : ∀ name ∈ Environment.names, isName name.toList = true ∧ 'w' ∉ name.toList := by
    decide
  have hend : ∀ c ∈ (expandPow rest).head?, isNameChar c = false := fun c hc =>
    of_isBoundary (P := fun c => isNameChar c = false) (hr.expandPow c hc) rfl rfl rfl
  obtain ⟨hname, hw⟩ := all_names name hn
  unfold ReadsAs
  rw [expandPow_append_of_follows hw hr]
  exact scansTo_name hname hend h

/-- What is typed can be written: it has no exponent. -/
theorem Numeral.written (n : Numeral) :
    (⟨n.whole, n.fraction, none⟩ : Number.Numeral).Written :=
  Number.Numeral.written_of_digits ⟨n.isDigit, n.nonempty⟩ rfl

/-- Without a zero in front of other digits the lexer has nothing to complain about. -/
theorem hasLeadingZero_eq_false (n : Numeral) :
    (⟨n.whole, n.fraction, none⟩ : Number.Numeral).hasLeadingZero = false := by
  rw [Bool.eq_false_iff]
  intro hz
  simp only [Number.Numeral.hasLeadingZero, Bool.and_eq_true, beq_iff_eq] at hz
  obtain ⟨⟨-, hhead⟩, hany⟩ := hz
  rw [n.noLeadingZero hhead] at hany
  exact absurd hany (by decide)

theorem readsAs_numeral (n : Numeral) (hr : Follows rest) (h : ReadsAs rest ks) :
    ReadsAs (n.text ++ rest) (.number n.value :: ks) := by
  have hw : 'w' ∉ n.text := by
    intro hm
    rcases n.isDigit_or_eq_point hm with hd | hp
    · exact absurd hd (by decide)
    · exact absurd hp (by decide)
  let numeral : Number.Numeral := ⟨n.whole, n.fraction, none⟩
  have hscan : ScansTo (numeral.text ++ expandPow rest)
      (.number (numeral.decimal.toFloat false) :: ks) :=
    scansTo_number n.written (hasLeadingZero_eq_false n) hr.endsNumeral h
  have htext : numeral.text = n.text := List.append_nil _
  have hvalue : numeral.decimal.toFloat false = n.value := by
    simp [numeral, Number.Numeral.decimal, Number.Numeral.digits, Numeral.value]
  rw [htext, hvalue] at hscan
  unfold ReadsAs
  rwa [expandPow_append_of_follows hw hr]

/-- **The text of a phrase is cut into its tokens**, whatever may follow it. -/
theorem readsAs_phrase {p : Part} (d : Phrase env p) {rest : List Char} {ks : List TokenKind}
    (hr : Follows rest) (h : ReadsAs rest ks) : ReadsAs (d.text ++ rest) (d.tokens ++ ks) := by
  induction d generalizing rest ks with
  | expression negated first links ihFirst ihLinks =>
      have hboth := ihFirst (hr.append links) (ihLinks hr h)
      rw [← List.append_assoc, ← List.append_assoc] at hboth
      cases negated with
      | false => exact hboth
      | true => exact readsAs_minus hboth
  | number n => exact readsAs_numeral n hr h
  | constant c => exact readsAs_name (Environment.mem_names_of_lookup c.bound) hr h
  | application f argument ih =>
      have hargument := ih (follows_cons rfl) (readsAs_close h)
      have hcall := readsAs_name (Environment.mem_names_of_lookup f.bound)
        (follows_cons rfl) (readsAs_open hargument)
      simpa [Phrase.text, Phrase.tokens] using hcall
  | parenthesized inner ih =>
      have hinner := ih (follows_cons rfl) (readsAs_close h)
      simpa [Phrase.text, Phrase.tokens] using readsAs_open hinner
  | noLinks => exact h
  | link op operand links ihOperand ihLinks =>
      have hboth := ihOperand (hr.append links) (ihLinks hr h)
      simpa [Phrase.text, Phrase.tokens] using readsAs_operator hboth op
  | juxtaposed f argument links ih ihLinks =>
      have hargument := ih (follows_cons rfl) (readsAs_close (ihLinks hr h))
      have hcall := readsAs_name (Environment.mem_names_of_lookup f.bound)
        (follows_cons rfl) (readsAs_open hargument)
      -- the star that the keys leave out stands in the text
      have hstar := readsAs_operator hcall .multiply
      simpa [Phrase.text, Phrase.tokens, BinaryOperation.typed, BinaryOperation.token] using hstar

/-! ## The derivation and the tree -/

/-- The tokens of what a part of a phrase derives. -/
def Part.tokens : (p : Part) → p.Meaning (Derivation .call) (Derivation .expression) →
    List TokenKind
  | expression, d => Derivation.tokens d
  | operand, d => Derivation.tokens d
  | links, tail => tailTokens tail

/-- What a part of a phrase evaluates to by way of the trees of what it derives. -/
def Part.amount (env : Environment) :
    (p : Part) → p.Meaning (Derivation .call) (Derivation .expression) → p.Meaning Amount Amount
  | expression, d => numeric env (Derivation.tree d)
  | operand, d => numeric env (Derivation.tree d)
  | links, tail => List.map (fun link => (link.1, numeric env (Derivation.tree link.2))) tail

theorem tokens_application (f : Function env) (argument : Derivation .expression) :
    (f.derivation argument).tokens =
      .identifier f.name :: .openParen :: (argument.tokens ++ [.closeParen]) := by
  simp [Function.derivation, Derivation.tokens]

/-- **The derivation of a phrase derives its tokens.** -/
theorem tokens_phrase {p : Part} (d : Phrase env p) : p.tokens d.derivation = d.tokens := by
  induction d with
  | expression negated first links ihFirst ihLinks =>
      -- bracketing moved nothing, so the tokens are those of the flat row
      have h := tokens_group negated first.derivation links.derivation
      have hfirst : Derivation.tokens first.derivation = first.tokens := ihFirst
      have hlinks : tailTokens links.derivation = links.tokens := ihLinks
      rw [hfirst, hlinks] at h
      exact h
  | number n => rfl
  | constant c => rfl
  | application f argument ih =>
      have h := tokens_application f argument.derivation
      rw [show Derivation.tokens argument.derivation = argument.tokens from ih] at h
      exact h
  | parenthesized inner ih =>
      have hinner : Derivation.tokens inner.derivation = inner.tokens := ih
      show (.openParen :: (Derivation.tokens inner.derivation ++ [.closeParen])) ++ [] = _
      rw [hinner, List.append_nil]
      rfl
  | noLinks => rfl
  | link op operand links ihOperand ihLinks =>
      have hoperand : Derivation.tokens operand.derivation = operand.tokens := ihOperand
      have hlinks : tailTokens links.derivation = links.tokens := ihLinks
      show op.token :: (Derivation.tokens operand.derivation ++ tailTokens links.derivation) = _
      rw [hoperand, hlinks]
      rfl
  | juxtaposed f argument links ih ihLinks =>
      have hargument : Derivation.tokens argument.derivation = argument.tokens := ih
      have hlinks : tailTokens links.derivation = links.tokens := ihLinks
      show .star :: ((f.derivation argument.derivation).tokens ++ tailTokens links.derivation) = _
      rw [tokens_application, hargument, hlinks]
      simp [Phrase.tokens]

theorem numeric_name (c : Constant env) : numeric env (.name c.name) = .ok c.value := by
  simp only [numeric, Expr.eval, c.bound]
  rfl

theorem numeric_application (f : Function env) (argument : Derivation .expression) :
    numeric env (f.derivation argument).tree = f.apply (numeric env argument.tree) := by
  -- the name is looked up before the argument is evaluated, and it is bound
  have hcallee : Expr.eval env (.name f.name) = pure (.function f.operation) := by
    simp only [Expr.eval, f.bound]
    rfl
  have hcall : ∀ e, numeric env (.call (.name f.name) [e]) = f.apply (numeric env e) := by
    intro e
    rw [numeric, Expr.eval, hcallee]
    simp only [Value.asFunction, Expr.evalArgs, numeric, bind_assoc, pure_bind, asNumber_number,
      bind_pure, Function.apply]
    cases Expr.eval env e with
    | error error => rfl
    | ok v => cases v <;> rfl
  exact hcall argument.tree

/-- **The tree of a phrase evaluates to its value.** -/
theorem amount_phrase {p : Part} (d : Phrase env p) : p.amount env d.derivation = d.value := by
  induction d with
  | expression negated first links ihFirst ihLinks =>
      -- amounts bracket as the operands do that they are the amounts of
      have h : numeric env _ = _ := numeric_group negated first.derivation links.derivation
      have hfirst : numeric env (Derivation.tree first.derivation) = first.value := ihFirst
      have hlinks : List.map (fun link => (link.1, numeric env (Derivation.tree link.2)))
        links.derivation = links.value := ihLinks
      rw [hfirst, hlinks] at h
      exact h
  | number n => exact numeric_number n.value
  | constant c => exact numeric_name c
  | application f argument ih =>
      have h := numeric_application f argument.derivation
      rw [show numeric env (Derivation.tree argument.derivation) = argument.value from ih] at h
      exact h
  | parenthesized inner ih => exact ih
  | noLinks => rfl
  | link op operand links ihOperand ihLinks =>
      exact List.cons_eq_cons.mpr ⟨congrArg (Prod.mk op) ihOperand, ihLinks⟩
  | juxtaposed f argument links ih ihLinks =>
      have h := numeric_application f argument.derivation
      rw [show numeric env (Derivation.tree argument.derivation) = argument.value from ih] at h
      exact List.cons_eq_cons.mpr ⟨congrArg (Prod.mk BinaryOperation.multiply) h, ihLinks⟩

end Typing

end PocketCalc

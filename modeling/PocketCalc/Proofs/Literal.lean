import PocketCalc.Proofs.Encoding
import PocketCalc.Proofs.Precedence
import PocketCalc.Proofs.Reading
import PocketCalc.Proofs.Scanning

/-!
# Number literals

A literal is a numeral under an optional sign, written so that the lexer accepts it. The grammar
derives it as a sign in front of a number, and it evaluates to the double of that sign which is
nearest to the number written: the negative of a double is the double of the other sign.
-/

namespace PocketCalc

open Number Precedence Grammar

/-- A number as it is written: a sign, which may be left out, and a numeral without a zero too many
in front. -/
structure Literal where
  sign : Option Char
  numeral : Numeral
  isSign : ∀ c ∈ sign, IsSign c
  written : numeral.Written
  noLeadingZero : numeral.hasLeadingZero = false

namespace Literal

variable (a : Literal) {env : Environment} {rest : List Char} {ks : List TokenKind}

/-- The literal as written. -/
def text : List Char := a.sign.toList ++ a.numeral.text

/-- Whether the sign is a minus. -/
def negative : Bool := a.sign == some '-'

/-- The double that the literal stands for. -/
def value : Float := a.numeral.decimal.toFloat a.negative

/-- How the grammar derives the literal. -/
def derivation : Derivation .signed :=
  let size : Derivation .signed :=
    .unsigned (.bare (.called (.number (a.numeral.decimal.toFloat false)) .noTrailers))
  match a.sign with
  | none => size
  | some c => if c = '-' then .minus size else .plus size

/-! ## Its characters -/

/-- What a literal is written with. -/
theorem isDigit_or_mem {c : Char} (hc : c ∈ a.text) : c.isDigit = true ∨ c ∈ numberMarks :=
  a.written.signed_isDigit_or_mem a.isSign hc

theorem not_mem_w : 'w' ∉ a.text := by
  intro hw
  rcases a.isDigit_or_mem hw with h | h
  · exact absurd h (by decide)
  · exact absurd h (by decide)

/-! ## Its tokens -/

/-- **A literal is cut into its tokens**, if what follows does not carry it on. -/
theorem scansTo (hr : EndsNumeral Char.isDigit rest) (h : ScansTo rest ks) :
    ScansTo (a.text ++ rest) (a.derivation.tokens ++ ks) := by
  have hnumber := scansTo_number a.written a.noLeadingZero hr h
  obtain ⟨sign, n, hsign, hn, hz⟩ := a
  cases sign with
  | none => exact hnumber
  | some c =>
      rcases hsign c rfl with rfl | rfl
      · exact scansTo_symbol (l := ⟨.plus, ['+'], n.text ++ rest⟩) (by decide) rfl hnumber
      · exact scansTo_symbol (l := ⟨.minus, ['-'], n.text ++ rest⟩) (by decide) rfl hnumber

theorem depth_derivation_le : a.derivation.depth ≤ 1 := by
  obtain ⟨sign, n, hsign, hn, hz⟩ := a
  cases sign with
  | none => exact Nat.zero_le 1
  | some c =>
      rcases hsign c rfl with rfl | rfl
      · exact Nat.le_refl 1
      · exact Nat.le_refl 1

/-! ## Its value -/

/-- No decimal is read as what lies above infinity. -/
theorem rank_le_infiniteRank (d : Decimal) : d.rank ≤ infiniteRank := by
  unfold Decimal.rank
  split
  · exact Nat.zero_le _
  split
  · exact Nat.le_refl _
  split
  · exact Nat.zero_le _
  · exact Nat.min_le_right _ _

/-- **The tree of a literal evaluates to the double that it stands for.** -/
theorem numeric_derivation : numeric env a.derivation.tree = .ok a.value := by
  obtain ⟨sign, n, hsign, hn, hz⟩ := a
  cases sign with
  | none => exact numeric_number _
  | some c =>
      rcases hsign c rfl with rfl | rfl
      · show numeric env (.plus (.number (n.decimal.toFloat false))) = _
        simp only [numeric, Expr.eval]
        rfl
      · show numeric env (.negate (.number (n.decimal.toFloat false))) = _
        rw [numeric_negate, numeric_number]
        -- the negative of the nearest double is the nearest double below zero
        exact congrArg Except.ok (neg_ofRank false (rank_le_infiniteRank _))

end Literal

/-- A text evaluates to what the tree of its tokens evaluates to. -/
theorem evaluate_of_derivation {env : Environment} {cs : List Char} {d : Derivation .expression}
    (hs : ScansTo (expandPow cs) d.tokens) (hd : d.depth ≤ maxNesting) :
    evaluate env cs = numeric env d.tree := by
  obtain ⟨ts, hts, hkinds⟩ := hs 0
  have hparse : Expr.parse (expandPow cs) = .ok (Derivation.tree d) := by
    rw [Expr.parse, Token.scan, hts]
    exact ofTokens_of_derivation d hkinds.symm hd
  rw [evaluate, hparse]
  rfl

/-- A text without `pow` is cut into tokens as it is. -/
theorem evaluate_of_scansTo {env : Environment} {cs : List Char} (hw : 'w' ∉ cs)
    {d : Derivation .expression} (hs : ScansTo cs d.tokens) (hd : d.depth ≤ maxNesting) :
    evaluate env cs = numeric env d.tree := by
  rw [← expandPow_eq_self hw] at hs
  exact evaluate_of_derivation hs hd

/-- **A literal evaluates to the double that it stands for.** -/
theorem Literal.evaluate_text (a : Literal) (env : Environment) :
    evaluate env a.text = .ok a.value := by
  let d : Derivation .expression := .chain (.term (.chain (.factor a.derivation) .noLinks)) .noLinks
  have hscan : ScansTo a.text d.tokens := by
    have h : ScansTo (a.text ++ []) (a.derivation.tokens ++ []) :=
      a.scansTo endsNumeral_nil scansTo_nil
    rw [List.append_nil] at h
    simpa [d, Derivation.tokens] using h
  have hdepth : d.depth ≤ maxNesting := by
    have h := a.depth_derivation_le
    have : d.depth = a.derivation.depth := by simp [d, Derivation.depth]
    rw [this]
    exact h.trans (by decide)
  rw [evaluate_of_scansTo a.not_mem_w hscan hdepth]
  exact a.numeric_derivation

end PocketCalc

import PocketCalc.Evaluation
import PocketCalc.Proofs.Numerals
import PocketCalc.Text.Letter

/-!
# The tokens of a text, one lexeme after another

What a text is cut into does not depend on where it stands, as long as the cut succeeds. So the
tokens can be found from the back: a lexeme in front of a text that has the tokens `ks` adds its
kind to them, provided that the text does not carry the lexeme on.
-/

namespace PocketCalc

open Number

/-- The text is cut into tokens of these kinds, wherever it stands. -/
def ScansTo (cs : List Char) (ks : List TokenKind) : Prop :=
  ∀ position, ∃ ts, Token.scanFrom position cs = .ok ts ∧ ts.map (·.kind) = ks

variable {cs rest : List Char} {c : Char} {ks : List TokenKind}

theorem scansTo_nil : ScansTo [] [] := by
  intro position
  exact ⟨[], by rw [Token.scanFrom.eq_def], rfl⟩

theorem scansTo_blank (hc : Text.isBlank c = true) (h : ScansTo cs ks) : ScansTo (c :: cs) ks := by
  intro position
  obtain ⟨ts, hts, hks⟩ := h (position + c.utf8Size)
  refine ⟨ts, ?_, hks⟩
  rw [Token.scanFrom.eq_def]
  dsimp only
  rw [if_pos hc, hts]

theorem scansTo_blanks {blanks : List Char}
    (hb : ∀ c ∈ blanks, Text.isBlank c = true) (h : ScansTo cs ks) : ScansTo (blanks ++ cs) ks := by
  induction blanks with
  | nil => exact h
  | cons c blanks ih =>
      have htail : ScansTo (blanks ++ cs) ks := ih fun d hd => hb d (List.mem_cons_of_mem c hd)
      exact scansTo_blank (hb c List.mem_cons_self) htail

/-- A lexeme at the front of a text is its first token. -/
theorem scansTo_lexeme {l : Lexeme} (hb : Text.isBlank c = false)
    (hl : ∀ position, Lexeme.first position c cs = .ok l) (h : ScansTo l.rest ks) :
    ScansTo (c :: cs) (l.kind :: ks) := by
  intro position
  obtain ⟨ts, hts, hks⟩ := h (position + byteLength l.spelling)
  -- the rest is cut from the position behind the lexeme, wherever that is
  refine ⟨⟨l.kind, position, position + byteLength l.spelling⟩ :: ts, ?_, by simp [hks]⟩
  rw [Token.scanFrom.eq_def]
  dsimp only
  rw [if_neg (by simp [hb])]
  split
  · rename_i hf
    rw [hl position] at hf
    cases hf
  · rename_i lexeme hf
    rw [hl position] at hf
    cases hf
    rw [hts]
    rfl

/-! ## Symbols -/

/-- A character that starts no number and no name. -/
def isSymbolStart (c : Char) : Bool := !(c.isDigit || c == '.' || isNameStart c || Text.isBlank c)

theorem scansTo_symbol {l : Lexeme} (hc : isSymbolStart c = true)
    (hs : Lexeme.symbol? (c :: cs) = some l) (h : ScansTo l.rest ks) :
    ScansTo (c :: cs) (l.kind :: ks) := by
  simp only [isSymbolStart, Bool.not_eq_true', Bool.or_eq_false_iff] at hc
  refine scansTo_lexeme hc.2 (fun position => ?_) h
  rw [Lexeme.first, if_neg (by simp [hc.1.1]), if_neg (by simp [hc.1.2]), hs]

/-! ## Names and numbers -/

/-- A character that a name starts with, and neither a number nor a blank. -/
def startsName (c : Char) : Bool :=
  isNameStart c && !(c.isDigit || c == '.' || Text.isBlank c)

/-- A text that is one name. -/
def isName : List Char → Bool
  | [] => false
  | c :: cs => startsName c && cs.all isNameChar

theorem scansTo_name {name : String} (hn : isName name.toList = true)
    (hr : ∀ c ∈ rest.head?, isNameChar c = false) (h : ScansTo rest ks) :
    ScansTo (name.toList ++ rest) (.identifier name :: ks) := by
  cases hcs : name.toList with
  | nil => rw [hcs] at hn; cases hn
  | cons c cs =>
      rw [hcs, isName, Bool.and_eq_true] at hn
      obtain ⟨hc, hall⟩ := hn
      simp only [startsName, Bool.and_eq_true, Bool.not_eq_true', Bool.or_eq_false_iff] at hc
      obtain ⟨hstart, ⟨hdigit, hpoint⟩, hblank⟩ := hc
      have hfront : ∀ d ∈ c :: cs, isNameChar d = true :=
        List.forall_mem_cons.mpr
          ⟨Lexeme.isNameChar_of_isNameStart hstart, List.all_eq_true.mp hall⟩
      obtain ⟨htake, hdrop⟩ := takeWhile_dropWhile_front hfront hr
      have hname : String.ofList (c :: cs) = name := by rw [← hcs, String.ofList_toList]
      have hl : Lexeme.identifier (c :: (cs ++ rest)) = ⟨.identifier name, c :: cs, rest⟩ := by
        rw [← List.cons_append, Lexeme.identifier, htake, hdrop, hname]
      rw [List.cons_append]
      refine scansTo_lexeme (l := ⟨.identifier name, c :: cs, rest⟩) hblank (fun position => ?_) h
      rw [Lexeme.first, if_neg (by simp [hdigit, hpoint]), if_pos hstart, hl]

theorem scansTo_number {n : Numeral} (hn : n.Written) (hz : n.hasLeadingZero = false)
    (hr : EndsNumeral Char.isDigit rest) (h : ScansTo rest ks) :
    ScansTo (n.text ++ rest) (.number (n.decimal.toFloat false) :: ks) := by
  have hnumber : ∀ position, Lexeme.number position (n.text ++ rest) =
      .ok ⟨.number (n.decimal.toFloat false), n.text, rest⟩ := by
    intro position
    simp only [Lexeme.number, split_numeral isDigitClass_isDigit hn hr]
    rw [if_neg hn.digits.nonempty, if_neg (by simp [hz])]
  obtain ⟨c, cs, hcs, hstart, hblank⟩ := hn.exists_start
  rw [hcs, List.cons_append] at hnumber ⊢
  have hfirst : ∀ position, Lexeme.first position c (cs ++ rest) =
      .ok ⟨.number (n.decimal.toFloat false), c :: cs, rest⟩ := by
    intro position
    rw [Lexeme.first, if_pos hstart]
    exact hnumber position
  exact scansTo_lexeme hblank hfirst h

/-! ## The operator of the power -/

theorem expandPow_cons (h : ∀ rest, c :: cs ≠ 'p' :: 'o' :: 'w' :: rest) :
    expandPow (c :: cs) = c :: expandPow cs := by
  rw [expandPow]
  intro rest hc hcs
  exact h rest (by rw [hc, hcs])

/-- No `pow` reaches out of a text whose neighbour does not start like the end of one. -/
theorem expandPow_append_of_head (hr : ∀ c ∈ rest.head?, c ≠ 'o' ∧ c ≠ 'w') (cs : List Char) :
    expandPow (cs ++ rest) = expandPow cs ++ expandPow rest := by
  induction cs using expandPow.induct with
  | case1 => rfl
  | case2 cs ih =>
      show '*' :: '*' :: expandPow (cs ++ rest) = '*' :: '*' :: (expandPow cs ++ expandPow rest)
      rw [ih]
  | case3 c cs hpow ih =>
      have halone : ∀ t, c :: cs ≠ 'p' :: 'o' :: 'w' :: t := fun t ht =>
        hpow t (List.cons.inj ht).1 (List.cons.inj ht).2
      have hboth : ∀ t, c :: (cs ++ rest) ≠ 'p' :: 'o' :: 'w' :: t := by
        intro t ht
        obtain ⟨rfl, htail⟩ := List.cons.inj ht
        -- its `ow`, or its `w`, would stand at the front of what follows
        match cs, hpow, htail with
        | [], _, htail => exact (hr 'o' (by rw [show rest = _ from htail]; rfl)).1 rfl
        | [d], _, htail =>
            exact (hr 'w' (by rw [show rest = _ from (List.cons.inj htail).2]; rfl)).2 rfl
        | d :: e :: more, hpow, htail =>
            obtain ⟨rfl, hbehind⟩ := List.cons.inj htail
            obtain ⟨rfl, -⟩ := List.cons.inj hbehind
            exact hpow more rfl rfl
      rw [List.cons_append, expandPow_cons hboth, expandPow_cons halone, ih, List.cons_append]

/-- A `pow` at the front of a text starts with its first character. -/
theorem pow_isPrefix_iff : "pow".toList <+: cs ↔ ∃ rest, cs = 'p' :: 'o' :: 'w' :: rest := by
  constructor
  · intro h
    obtain ⟨rest, hrest⟩ := h
    exact ⟨rest, hrest.symm⟩
  · intro h
    obtain ⟨rest, rfl⟩ := h
    exact ⟨rest, rfl⟩

/-- A text without a `pow` stays as it is. -/
theorem expandPow_eq_self_of_not_isInfix (h : ¬ "pow".toList <:+: cs) : expandPow cs = cs := by
  induction cs with
  | nil => rfl
  | cons c cs ih =>
      have hfront : ∀ t, c :: cs ≠ 'p' :: 'o' :: 'w' :: t := by
        intro t ht
        exact h (pow_isPrefix_iff.mpr ⟨t, ht⟩).isInfix
      rw [expandPow_cons hfront, ih fun hpart => h (List.infix_cons hpart)]

theorem expandPow_eq_self (hw : 'w' ∉ cs) : expandPow cs = cs :=
  expandPow_eq_self_of_not_isInfix fun h => hw (h.subset (by decide))

/-- A text without a `w` has no `pow`, and none reaches out of it if what follows does not start
like the end of one. -/
theorem expandPow_append (hw : 'w' ∉ cs) (hr : ∀ c ∈ rest.head?, c ≠ 'o' ∧ c ≠ 'w') :
    expandPow (cs ++ rest) = cs ++ expandPow rest := by
  rw [expandPow_append_of_head hr, expandPow_eq_self hw]

end PocketCalc

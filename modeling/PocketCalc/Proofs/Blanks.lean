import Mathlib.Data.List.Basic
import Mathlib.Data.List.TakeWhile
import PocketCalc.Proofs.Numerals
import PocketCalc.Text.DecimalDigit

/-!
# Blanks, trimming and words

No blank is a digit, a letter or a numeral of any script. Blanks around a text do not count when it
is trimmed, and between the characters of a text they end words.
-/

namespace PocketCalc.Text

open Number

/-- The code points of the blanks. -/
def blankCodes : List Nat :=
  [0x09, 0x0A, 0x0B, 0x0C, 0x0D, 0x20, 0x85, 0xA0, 0x1680, 0x2000, 0x2001, 0x2002, 0x2003, 0x2004,
   0x2005, 0x2006, 0x2007, 0x2008, 0x2009, 0x200A, 0x2028, 0x2029, 0x202F, 0x205F, 0x3000]

theorem mem_blankCodes {c : Char} (h : isBlank c = true) : c.toNat ∈ blankCodes := by
  simp only [isBlank, Bool.or_eq_true, Bool.and_eq_true, decide_eq_true_eq, beq_iff_eq] at h
  simp only [blankCodes, List.mem_cons, List.not_mem_nil, or_false]
  omega

/-- No blank is a digit of any script. -/
theorem isDecimalDigit_eq_false_of_isBlank {c : Char} (h : isBlank c = true) :
    isDecimalDigit c = false := by
  have hranges : ∀ n ∈ blankCodes,
      (decimalDigits.any fun range => range.1 ≤ n && n ≤ range.2) = false := by decide
  have hdigit : c.isDigit = false := by
    rw [Bool.eq_false_iff]
    intro hd
    rw [isBlank_eq_false_of_isDigit hd] at h
    cases h
  unfold isDecimalDigit
  split
  · exact hdigit
  · exact hranges _ (mem_blankCodes h)

/-- No blank is a letter or a numeral of any script. -/
theorem isLetterOrNumeral_eq_false_of_isBlank {c : Char} (h : isBlank c = true) :
    isLetterOrNumeral c = false := by
  have halphabetic : ∀ n ∈ blankCodes,
      (alphabetic.any fun range => range.1 ≤ n && n ≤ range.2) = false := by decide +kernel
  have hnumeric : ∀ n ∈ blankCodes,
      (numeric.any fun range => range.1 ≤ n && n ≤ range.2) = false := by decide +kernel
  have hcode := mem_blankCodes h
  have halphanum : c.isAlphanum = false := by
    rw [Bool.eq_false_iff]
    intro ha
    rw [isBlank_eq_false_of_isAlphanum ha] at h
    cases h
  unfold isLetterOrNumeral
  split
  · exact halphanum
  · exact Bool.or_eq_false_iff.mpr ⟨halphabetic _ hcode, hnumeric _ hcode⟩

/-! ## Trimming -/

/-- Leading blanks are skipped up to what is not blank. -/
theorem trimStart_append {blanks cs : List Char} (hb : ∀ c ∈ blanks, isBlank c = true)
    (hc : ∀ c ∈ cs.head?, isBlank c = false) : trimStart (blanks ++ cs) = cs :=
  (takeWhile_dropWhile_front hb hc).2

/-- Leading blanks are skipped up to what is not blank, at the latest. -/
theorem trimStart_append_cons {c : Char} (hc : isBlank c = false) (front back : List Char) :
    trimStart (front ++ c :: back) = trimStart front ++ c :: back := by
  rw [trimStart, trimStart, List.dropWhile_append]
  split
  · rename_i hfront
    rw [List.isEmpty_iff.mp hfront, List.dropWhile_cons_of_neg (by simp [hc])]
    rfl
  · rfl

/-- A text that begins and ends with words is left as it is. -/
theorem trim_append {front back : List Char} (hf : ∀ c ∈ front, isBlank c = false)
    (hb : ∀ c ∈ back, isBlank c = false) (hfront : front ≠ []) (hback : back ≠ [])
    (mid : List Char) : trim (front ++ (mid ++ back)) = front ++ (mid ++ back) := by
  obtain ⟨c, cs, rfl⟩ := List.exists_cons_of_ne_nil hfront
  have hlast : (c :: cs ++ (mid ++ back)).getLast? = some (back.getLast hback) := by
    rw [← List.append_assoc, List.getLast?_append_of_ne_nil _ hback, List.getLast?_eq_some_getLast]
  exact trim_eq_self (hf c List.mem_cons_self) (hb _ (List.getLast_mem hback)) hlast

/-- A word is left as it is. -/
theorem trim_word {cs : List Char} (h : ∀ c ∈ cs, isBlank c = false) : trim cs = cs := by
  cases cs with
  | nil => rfl
  | cons c cs =>
      have hlast := List.getLast?_eq_some_getLast (List.cons_ne_nil c cs)
      exact trim_eq_self (h c List.mem_cons_self) (h _ (List.getLast_mem _)) hlast

/-- Blanks around a text do not count. -/
theorem trim_blanks_append {left right : List Char} (hl : ∀ c ∈ left, isBlank c = true)
    (hr : ∀ c ∈ right, isBlank c = true) (cs : List Char) :
    trim (left ++ (cs ++ right)) = trim cs := by
  have hstart : trimStart (left ++ (cs ++ right)) = (cs ++ right).dropWhile isBlank :=
    List.dropWhile_append_of_pos hl
  have hend (ds : List Char) : trimEnd (ds ++ right) = trimEnd ds := by
    have hright : ∀ c ∈ right.reverse, isBlank c = true := fun c hc =>
      hr c (List.mem_reverse.mp hc)
    rw [trimEnd, trimEnd, List.reverse_append, List.dropWhile_append_of_pos hright]
  rw [trim, hstart, List.dropWhile_append, trim, trimStart]
  split
  · -- nothing but blanks
    rename_i hblank
    have hright : right.dropWhile isBlank = [] := List.dropWhile_eq_nil_iff.mpr hr
    rw [List.isEmpty_iff.mp hblank, hright]
  · exact hend _

/-- A text is what stands behind its leading blanks. -/
theorem exists_blanks_append (cs : List Char) :
    ∃ blanks, (∀ c ∈ blanks, isBlank c = true) ∧ cs = blanks ++ trimStart cs :=
  ⟨cs.takeWhile isBlank, List.all_eq_true.mp List.all_takeWhile,
    List.takeWhile_append_dropWhile.symm⟩

/-- A text is its trimmed form with blanks on either side. -/
theorem exists_trim (cs : List Char) : ∃ before behind, (∀ c ∈ before, isBlank c = true) ∧
    (∀ c ∈ behind, isBlank c = true) ∧ cs = before ++ (trim cs ++ behind) := by
  obtain ⟨before, hbefore, hcs⟩ := exists_blanks_append cs
  obtain ⟨behind, hbehind, hrest⟩ := exists_blanks_append (trimStart cs).reverse
  refine ⟨before, behind.reverse, hbefore, fun c hc => hbehind c (List.mem_reverse.mp hc), ?_⟩
  have hend : trimStart cs = trim cs ++ behind.reverse := by
    rw [← List.reverse_reverse (trimStart cs), hrest, List.reverse_append]
    rfl
  rw [← hend, ← hcs]

/-- What is trimmed stays as it is. -/
theorem trim_trim (cs : List Char) : trim (trim cs) = trim cs := by
  obtain ⟨before, behind, hbefore, hbehind, hcs⟩ := exists_trim cs
  have htrim := trim_blanks_append hbefore hbehind (trim cs)
  rw [← hcs] at htrim
  exact htrim.symm

/-! ## Words -/

theorem wordsFrom_append_of_isBlank {c : Char} (hc : isBlank c = true) (word cs ds : List Char) :
    wordsFrom word (cs ++ c :: ds) = wordsFrom word cs ++ words ds := by
  induction cs generalizing word with
  | nil =>
      rw [List.nil_append, wordsFrom, wordsFrom, if_pos hc]
      split <;> rfl
  | cons d cs ih =>
      rw [List.cons_append, wordsFrom, wordsFrom]
      split
      · split
        · exact ih []
        · rw [ih [], List.cons_append]
      · exact ih (d :: word)

/-- Words end at a blank. -/
theorem words_append_of_isBlank {c : Char} (hc : isBlank c = true) (cs ds : List Char) :
    words (cs ++ c :: ds) = words cs ++ words ds :=
  wordsFrom_append_of_isBlank hc [] cs ds

theorem words_concat_of_isBlank {c : Char} (hc : isBlank c = true) (cs : List Char) :
    words (cs ++ [c]) = words cs := by
  rw [words_append_of_isBlank hc]
  exact List.append_nil _

/-- The first word starts with the first character that is not blank. -/
theorem wordsFrom_eq_cons {word : List Char} (hw : word ≠ []) (cs : List Char) :
    ∃ more rest, wordsFrom word cs = (word.reverse ++ more) :: rest := by
  induction cs generalizing word with
  | nil =>
      refine ⟨[], [], ?_⟩
      rw [wordsFrom, if_neg (by simpa using hw), List.append_nil]
  | cons c cs ih =>
      rw [wordsFrom]
      split
      · refine ⟨[], wordsFrom [] cs, ?_⟩
        rw [if_neg (by simpa using hw), List.append_nil]
      · obtain ⟨more, rest, h⟩ := ih (List.cons_ne_nil c word)
        refine ⟨c :: more, rest, ?_⟩
        rw [h, List.reverse_cons, List.append_assoc]
        rfl

theorem words_eq_cons {c : Char} (hc : isBlank c = false) (cs : List Char) :
    ∃ more rest, words (c :: cs) = (c :: more) :: rest := by
  obtain ⟨more, rest, h⟩ := wordsFrom_eq_cons (List.cons_ne_nil c []) cs
  refine ⟨more, rest, ?_⟩
  rw [words, wordsFrom, hc, if_neg (by decide), h]
  rfl

theorem wordsFrom_of_not_isBlank {cs : List Char} (h : ∀ c ∈ cs, isBlank c = false)
    {word : List Char} (hw : word ≠ []) : wordsFrom word cs = [word.reverse ++ cs] := by
  induction cs generalizing word with
  | nil => rw [wordsFrom, if_neg (by simpa using hw), List.append_nil]
  | cons c cs ih =>
      obtain ⟨hc, hcs⟩ := List.forall_mem_cons.mp h
      rw [wordsFrom, hc, if_neg (by decide), ih hcs (List.cons_ne_nil c word)]
      simp

/-- A text without a blank is one word. -/
theorem words_word {cs : List Char} (h : ∀ c ∈ cs, isBlank c = false) (hne : cs ≠ []) :
    words cs = [cs] := by
  obtain ⟨c, cs, rfl⟩ := List.exists_cons_of_ne_nil hne
  obtain ⟨hc, hcs⟩ := List.forall_mem_cons.mp h
  rw [words, wordsFrom, hc, if_neg (by decide), wordsFrom_of_not_isBlank hcs (List.cons_ne_nil c [])]
  rfl

theorem words_blanks_append {blanks : List Char} (hb : ∀ c ∈ blanks, isBlank c = true)
    (cs : List Char) : words (blanks ++ cs) = words cs := by
  induction blanks with
  | nil => rfl
  | cons c blanks ih =>
      obtain ⟨hc, hmore⟩ := List.forall_mem_cons.mp hb
      rw [List.cons_append, ← ih hmore]
      exact words_append_of_isBlank hc [] (blanks ++ cs)

/-- Words end at blanks. -/
theorem words_append_blanks {blanks : List Char} (hb : ∀ c ∈ blanks, isBlank c = true)
    (hne : blanks ≠ []) (cs ds : List Char) :
    words (cs ++ (blanks ++ ds)) = words cs ++ words ds := by
  obtain ⟨c, blanks, rfl⟩ := List.exists_cons_of_ne_nil hne
  obtain ⟨hc, hmore⟩ := List.forall_mem_cons.mp hb
  rw [List.cons_append, words_append_of_isBlank hc, words_blanks_append hmore]

end PocketCalc.Text

/-!
# Blank characters, trimming and words

Blanks are the twenty-five characters with the Unicode property White_Space. A *word* is a
maximal run without a blank.
-/

namespace PocketCalc.Text

/-- The characters with the property White_Space. -/
def isBlank (c : Char) : Bool :=
  let n := c.toNat
  (0x09 ≤ n && n ≤ 0x0D) || n == 0x20 || n == 0x85 || n == 0xA0 || n == 0x1680 ||
    (0x2000 ≤ n && n ≤ 0x200A) || n == 0x2028 || n == 0x2029 || n == 0x202F || n == 0x205F ||
    n == 0x3000

/-- The text without its leading blanks. -/
def trimStart (cs : List Char) : List Char := cs.dropWhile isBlank

/-- The text without its trailing blanks. -/
def trimEnd (cs : List Char) : List Char := (cs.reverse.dropWhile isBlank).reverse

/-- The text without the blanks on either side. -/
def trim (cs : List Char) : List Char := trimEnd (trimStart cs)

/-- The words of `cs`, the first one continuing the characters of `word`, which is held reversed. -/
def wordsFrom (word : List Char) : List Char → List (List Char)
  | [] => if word.isEmpty then [] else [word.reverse]
  | c :: cs =>
    if isBlank c then
      if word.isEmpty then wordsFrom [] cs else word.reverse :: wordsFrom [] cs
    else wordsFrom (c :: word) cs

/-- The words of a text, in order. -/
def words (cs : List Char) : List (List Char) := wordsFrom [] cs

/-- No letter or digit of ASCII is blank. -/
theorem isBlank_eq_false_of_isAlphanum {c : Char} (h : c.isAlphanum = true) :
    isBlank c = false := by
  have hr : 48 ≤ c.toNat ∧ c.toNat ≤ 122 := by
    have hn : c.val.toNat = c.toNat := rfl
    delta Char.isAlphanum Char.isAlpha Char.isUpper Char.isLower Char.isDigit at h
    simp only [Bool.or_eq_true, Bool.and_eq_true, decide_eq_true_eq, UInt32.le_iff_toNat_le,
      ge_iff_le] at h
    simp only [hn, Char.reduceVal, UInt32.reduceToNat] at h
    omega
  simp only [isBlank, Bool.or_eq_false_iff, Bool.and_eq_false_iff, decide_eq_false_iff_not,
    beq_eq_false_iff_ne]
  omega

theorem isBlank_eq_false_of_isDigit {c : Char} (h : c.isDigit = true) : isBlank c = false :=
  isBlank_eq_false_of_isAlphanum (by simp [Char.isAlphanum, h])

/-! ## The end of a text -/

theorem trimEnd_concat_of_isBlank {c : Char} (cs : List Char) (h : isBlank c = true) :
    trimEnd (cs ++ [c]) = trimEnd cs := by
  simp [trimEnd, h]

theorem trimEnd_concat_of_not_isBlank {c : Char} (cs : List Char) (h : isBlank c = false) :
    trimEnd (cs ++ [c]) = cs ++ [c] := by
  simp [trimEnd, h]

/-- A text without a blank at either end is left as it is. -/
theorem trim_eq_self {c d : Char} {cs : List Char} (hc : isBlank c = false)
    (hd : isBlank d = false) (h : (c :: cs).getLast? = some d) : trim (c :: cs) = c :: cs := by
  obtain ⟨front, hf⟩ := List.getLast?_eq_some_iff.mp h
  have hstart : trimStart (c :: cs) = c :: cs := by simp [trimStart, hc]
  rw [trim, hstart, hf, trimEnd_concat_of_not_isBlank front hd]

/-- A text that is not blank throughout has a character to show for it. -/
theorem exists_not_isBlank {cs : List Char} (h : trimEnd cs ≠ []) :
    ∃ c ∈ cs, isBlank c = false := by
  cases hd : cs.reverse.dropWhile isBlank with
  | nil => exact absurd (by rw [trimEnd, hd]; rfl) h
  | cons c rest =>
      have hmem : c ∈ cs.reverse.dropWhile isBlank := by rw [hd]; exact List.mem_cons_self
      have hhead := List.head?_dropWhile_not isBlank cs.reverse
      rw [hd] at hhead
      refine ⟨c, ?_, by simpa using hhead⟩
      exact List.mem_reverse.mp ((List.dropWhile_suffix isBlank).subset hmem)

end PocketCalc.Text

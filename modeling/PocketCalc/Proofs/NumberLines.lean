import PocketCalc.Line.Command
import PocketCalc.Proofs.SignedNumeral

/-!
# Every line of numbers is cut at its operation

A line of two numbers with any spelling of an operation between them is a command on these two
numbers, and a function name with a number behind it is a command on that one. Four shapes of a line
are tried one after the other, and none takes a line that is meant for a later one. Behind a mark
stands one word to the end of the line, so there is no such mark where the operation is spelled as
a word: what follows a mark in either number still has the blank behind that word in it.
-/

namespace PocketCalc

open Number

/-! ## The cut -/

namespace Line

theorem word?_append {blanks word : List Char} (hb : ∀ c ∈ blanks, Text.isBlank c = true)
    (hw : ∀ c ∈ word, Text.isBlank c = false) (hne : word ≠ []) :
    word? (blanks ++ word) = some word := by
  have hstart : Text.trimStart (blanks ++ word) = word :=
    Text.trimStart_append hb fun c hc => hw c (List.mem_of_head? hc)
  have hall : word.all (!Text.isBlank ·) = true := by
    rw [List.all_eq_true]
    intro c hc
    rw [hw c hc]
    rfl
  simp only [word?, hstart]
  rw [if_pos ⟨hne, hall⟩]

/-- No mark is blank or a letter. -/
theorem of_isMark {c : Char} (h : isMark c = true) : Text.isBlank c = false ∧ c.isAlpha = false := by
  simp only [isMark, Bool.or_eq_true, beq_iff_eq] at h
  rcases h with ((((((rfl | rfl) | rfl) | rfl) | rfl) | rfl) | rfl) | rfl <;> exact ⟨rfl, rfl⟩

theorem trimStart_mark {blanks : List Char} {mark : Char}
    (hb : ∀ c ∈ blanks, Text.isBlank c = true) (hmark : isMark mark = true) (rest : List Char) :
    Text.trimStart (blanks ++ mark :: rest) = mark :: rest := by
  refine Text.trimStart_append hb fun c hc => ?_
  obtain rfl : mark = c := Option.some.inj hc
  exact (of_isMark hmark).1

/-- A mark and a word are cut at the mark, unless a second star follows the first. -/
theorem markAndWord?_append {blanks rest word : List Char} {mark : Char}
    (hb : ∀ c ∈ blanks, Text.isBlank c = true) (hmark : isMark mark = true)
    (hstar : ∀ c ∈ rest.head?, c ≠ '*') (hw : word? rest = some word) :
    markAndWord? (blanks ++ mark :: rest) = some ([mark], word) := by
  rw [markAndWord?, trimStart_mark hb hmark]
  split
  · rename_i rest' heq
    obtain ⟨-, rfl⟩ := List.cons.inj heq
    exact absurd rfl (hstar '*' rfl)
  · rename_i c rest' _ heq
    obtain ⟨rfl, rfl⟩ := List.cons.inj heq
    rw [if_pos hmark, hw]
    rfl
  · rename_i heq
    cases heq

/-- Two stars and a word are cut behind the stars. -/
theorem markAndWord?_stars {blanks rest word : List Char}
    (hb : ∀ c ∈ blanks, Text.isBlank c = true) (hw : word? rest = some word) :
    markAndWord? (blanks ++ '*' :: '*' :: rest) = some (['*', '*'], word) := by
  have hstart := trimStart_mark hb (show isMark '*' = true by rfl) ('*' :: rest)
  simp only [markAndWord?, hstart, hw]

/-- A line is no function line if it starts with something else than a letter. -/
theorem functionCut?_eq_none {c : Char} {cs : List Char} (hb : Text.isBlank c = false)
    (ha : c.isAlpha = false) : functionCut? (c :: cs) = none := by
  obtain ⟨more, rest, hwords⟩ := Text.words_eq_cons hb cs
  rw [functionCut?, hwords]
  split
  · rename_i name word heq
    obtain ⟨rfl, -⟩ := List.cons.inj heq
    rw [isFunctionName, ha, Bool.false_and, if_neg (by decide)]
  · rfl

/-- A character that is no letter keeps a line from ending the loop. -/
theorem isQuit_eq_false {c : Char} {cs : List Char} (hc : c ∈ cs) (ha : c.isAlpha = false) :
    isQuit cs = false := by
  have hupper : c.isUpper = false := (Bool.or_eq_false_iff.mp ha).1
  have hlower : c.toLower = c := Char.toLower_eq_of_not_isUpper (by simp [hupper])
  have hmem : c ∈ cs.map Char.toLower := by
    have hmap := List.mem_map_of_mem (f := Char.toLower) hc
    rwa [hlower] at hmap
  have hword {word : List Char} (hw : word.all Char.isAlpha = true) :
      (cs.map Char.toLower == word) = false := by
    rw [beq_eq_false_iff_ne]
    intro heq
    rw [heq] at hmem
    rw [List.all_eq_true.mp hw c hmem] at ha
    cases ha
  rw [isQuit, hword rfl, hword rfl]
  rfl

end Line

namespace SignedNumeral

open Line

variable (a : SignedNumeral) {rest : List Char}

theorem word?_append {blanks : List Char} (hb : ∀ c ∈ blanks, Text.isBlank c = true) :
    word? (blanks ++ a.text) = some a.text :=
  Line.word?_append hb (fun _ hc => a.isBlank_eq_false hc) a.text_ne_nil

/-- **A number at the front of a line is cut off as a whole**, whatever is made of the rest. -/
theorem numberCut?_append (hr : EndsNumeral Text.isDecimalDigit rest) :
    numberCut? (a.text ++ rest) = (markAndWord? rest).map fun (symbol, rhs) =>
      ⟨a.text, symbol, rhs⟩ := by
  have hsplit := split_numeral isDigitClass_isDecimalDigit a.written hr
  simp only [numberCut?, a.splitSign_text, hsplit]
  rw [if_neg a.written.digits.nonempty]
  rfl

/-- A line that starts with a number is the command of its cut. -/
theorem ofLine_of_cut? {cut : Cut} (htrim : Text.trim (a.text ++ rest) = a.text ++ rest)
    (hcut : cut? (a.text ++ rest) = some cut) :
    Command.ofLine (a.text ++ rest) = Command.ofCut cut := by
  -- the first character rules out what is tried before the cut
  obtain ⟨c, cs, hcs, halpha, -⟩ := a.exists_start
  have hblank : Text.isBlank c = false := a.isBlank_eq_false (hcs ▸ List.mem_cons_self)
  have htext : a.text ++ rest = c :: (cs ++ rest) := by
    rw [hcs]
    rfl
  have hempty : (a.text ++ rest).isEmpty = false := by rw [htext]; rfl
  have hquit : isQuit (a.text ++ rest) = false :=
    isQuit_eq_false (htext ▸ List.mem_cons_self) halpha
  have hfunction : functionCut? (a.text ++ rest) = none := by
    rw [htext, functionCut?_eq_none hblank halpha]
  simp only [Command.ofLine, htrim, hempty, hquit, hfunction, hcut]
  rfl

end SignedNumeral

/-! ## Where no mark is found -/

namespace Line

variable {c d : Char}

/-- What has a blank behind another character is not one word. -/
theorem word?_eq_none (hc : Text.isBlank c = false) (hd : Text.isBlank d = true)
    (front back : List Char) : word? (front ++ c :: d :: back) = none := by
  simp only [word?, Text.trimStart_append_cons hc]
  rw [if_neg]
  intro h
  have hall := List.all_eq_true.mp h.2 d (by simp)
  rw [hd] at hall
  cases hall

/-- Nor is it a mark and one word, if that character is no mark. -/
theorem markAndWord?_eq_none (hc : Text.isBlank c = false) (hmark : isMark c = false)
    (hd : Text.isBlank d = true) (front back : List Char) :
    markAndWord? (front ++ c :: d :: back) = none := by
  -- a mark that is taken off the front leaves both characters
  have hleft {x rest : List Char} {e : Char} (he : isMark e = true)
      (h : x ++ c :: d :: back = e :: rest) : ∃ y, x = e :: y ∧ rest = y ++ c :: d :: back := by
    rcases List.append_eq_cons_iff.mp h with ⟨-, hcons⟩ | hmore
    · rw [(List.cons.inj hcons).1, he] at hmark
      cases hmark
    · exact hmore
  rw [markAndWord?, Text.trimStart_append_cons hc]
  split
  · rename_i rest heq
    obtain ⟨y, -, hy⟩ := hleft rfl heq
    obtain ⟨z, -, rfl⟩ := hleft rfl hy.symm
    have hboth : word? ('*' :: (z ++ c :: d :: back)) = none := word?_eq_none hc hd ('*' :: z) back
    rw [word?_eq_none hc hd, hboth]
    rfl
  · rename_i e rest _ heq
    by_cases he : isMark e = true
    · obtain ⟨y, -, rfl⟩ := hleft he heq
      rw [if_pos he, word?_eq_none hc hd]
      rfl
    · rw [if_neg he]
  · rfl

/-- A word is not cut at a mark if none is found behind any front of it. -/
theorem symbolCutFrom?_eq_none {rest : List Char} (hblank : ∀ c ∈ rest.head?, Text.isBlank c = true)
    (hrest : ∀ front, markAndWord? (front ++ rest) = none) (lhs word : List Char) :
    symbolCutFrom? lhs (word ++ rest) = none := by
  induction word generalizing lhs with
  | nil =>
      cases rest with
      | nil => rfl
      | cons c rest => rw [List.nil_append, symbolCutFrom?, if_pos (hblank c rfl)]
  | cons c word ih =>
      rw [List.cons_append, symbolCutFrom?]
      split
      · rfl
      · rw [hrest word]
        exact ih (lhs ++ [c])

theorem isBlank_eq_false_of_isAlpha (h : c.isAlpha = true) : Text.isBlank c = false :=
  Text.isBlank_eq_false_of_isAlphanum (Bool.or_eq_true_iff.mpr (.inl h))

theorem isMark_eq_false_of_isAlpha (h : c.isAlpha = true) : isMark c = false := by
  rw [Bool.eq_false_iff]
  intro hmark
  rw [(of_isMark hmark).2] at h
  cases h

theorem isBlank_eq_false_of_isFunctionName {name : List Char} (h : isFunctionName name = true) :
    name ≠ [] ∧ ∀ c ∈ name, Text.isBlank c = false := by
  cases name with
  | nil => cases h
  | cons c cs =>
      obtain ⟨hc, hcs⟩ := Bool.and_eq_true_iff.mp h
      refine ⟨List.cons_ne_nil c cs, List.forall_mem_cons.mpr ⟨?_, fun d hd => ?_⟩⟩
      · exact isBlank_eq_false_of_isAlpha hc
      · exact Text.isBlank_eq_false_of_isAlphanum (List.all_eq_true.mp hcs d hd)

end Line

/-! ## Lines of two numbers -/

/-- Two numbers with a spelling of an operation between them. Blanks may stand on either side of
it, and they have to if it is a word. -/
structure NumberLine where
  lhs : SignedNumeral
  before : List Char
  op : BinaryOperation
  symbol : String
  after : List Char
  rhs : SignedNumeral
  mem_symbols : symbol ∈ op.symbols
  isBlank_before : ∀ c ∈ before, Text.isBlank c = true
  isBlank_after : ∀ c ∈ after, Text.isBlank c = true
  separated : symbol.toList.all Char.isAlpha = true → before ≠ [] ∧ after ≠ []

namespace NumberLine

open Line

variable (line : NumberLine)

/-- What follows the first number and blanks. -/
def back : List Char := line.symbol.toList ++ (line.after ++ line.rhs.text)

/-- The line as typed. -/
def text : List Char := line.lhs.text ++ (line.before ++ line.back)

/-- An operation is spelled with one mark, with two stars or with letters. -/
theorem symbol_cases : (∃ c, line.symbol.toList = [c] ∧ isMark c = true) ∨
    line.symbol.toList = ['*', '*'] ∨ line.symbol.toList.all Char.isAlpha = true := by
  have hcases : ∀ symbol ∈ line.op.symbols,
      (symbol.toList.length = 1 ∧ symbol.toList.all isMark = true) ∨
      symbol.toList = ['*', '*'] ∨ symbol.toList.all Char.isAlpha = true := by
    cases line.op <;> decide
  rcases hcases _ line.mem_symbols with ⟨hone, hmark⟩ | hother
  · obtain ⟨c, hc⟩ := List.length_eq_one_iff.mp hone
    exact .inl ⟨c, hc, List.all_eq_true.mp hmark c (hc ▸ List.mem_cons_self)⟩
  · exact .inr hother

theorem symbol_ne_nil : line.symbol.toList ≠ [] := by
  have hsymbols : ∀ symbol ∈ line.op.symbols, symbol.toList ≠ [] := by cases line.op <;> decide
  exact hsymbols _ line.mem_symbols

/-- No spelling of an operation carries a number on. -/
theorem endsNumeral : EndsNumeral Text.isDecimalDigit (line.before ++ line.back) := by
  have hsymbols : ∀ symbol ∈ line.op.symbols, symbol.toList.head?.all (fun c =>
      !Text.isDecimalDigit c && c != '.' && c != 'e' && c != 'E') = true := by
    cases line.op <;> decide +kernel
  refine endsNumeral_blanks_append line.isBlank_before fun c hc => ?_
  rw [back, List.head?_append_of_ne_nil _ line.symbol_ne_nil] at hc
  have hhead := hsymbols _ line.mem_symbols
  rw [Option.mem_def.mp hc] at hhead
  simpa [and_assoc] using hhead

theorem trim_text : Text.trim line.text = line.text := by
  have htext : line.text = line.lhs.text ++
      ((line.before ++ (line.symbol.toList ++ line.after)) ++ line.rhs.text) := by
    simp [text, back]
  rw [htext]
  exact Text.trim_append (fun _ hc => line.lhs.isBlank_eq_false hc)
    (fun _ hc => line.rhs.isBlank_eq_false hc) line.lhs.text_ne_nil line.rhs.text_ne_nil _

/-- A mark between the numbers is found behind the first one. -/
theorem markAndWord?_of_mark (hword : ¬ line.symbol.toList.all Char.isAlpha = true) :
    markAndWord? (line.before ++ line.back) = some (line.symbol.toList, line.rhs.text) := by
  have hrhs := line.rhs.word?_append line.isBlank_after
  rw [back]
  rcases line.symbol_cases with ⟨c, hc, hmark⟩ | hstars | hletters
  · rw [hc]
    exact markAndWord?_append line.isBlank_before hmark
      (line.rhs.head_blanks_append line.isBlank_after) hrhs
  · rw [hstars]
    exact markAndWord?_stars line.isBlank_before hrhs
  · exact absurd hletters hword

section

variable (hword : line.symbol.toList.all Char.isAlpha = true)
include hword

/-- Behind no front of a line with a word between its numbers stands a mark and one word. -/
theorem markAndWord?_of_word (front : List Char) :
    markAndWord? (front ++ (line.before ++ line.back)) = none := by
  -- the last letter of the word, and the blank behind it
  obtain ⟨letters, c, hletters⟩ := (List.eq_nil_or_concat' _).resolve_left line.symbol_ne_nil
  obtain ⟨d, blanks, hafter⟩ := List.exists_cons_of_ne_nil (line.separated hword).2
  have halpha : c.isAlpha = true := List.all_eq_true.mp hword c (by simp [hletters])
  have hblank : Text.isBlank d = true := line.isBlank_after d (hafter ▸ List.mem_cons_self)
  have htext : front ++ (line.before ++ line.back) =
      (front ++ (line.before ++ letters)) ++ c :: d :: (blanks ++ line.rhs.text) := by
    simp [back, hletters, hafter]
  rw [htext]
  exact markAndWord?_eq_none (isBlank_eq_false_of_isAlpha halpha) (isMark_eq_false_of_isAlpha halpha)
    hblank _ _

/-- A line with a word between its numbers consists of three words. -/
theorem words_text :
    Text.words line.text = [line.lhs.text, line.symbol.toList, line.rhs.text] := by
  obtain ⟨hbefore, hafter⟩ := line.separated hword
  have hsymbol : Text.words line.symbol.toList = [line.symbol.toList] :=
    Text.words_word (fun c hc => isBlank_eq_false_of_isAlpha (List.all_eq_true.mp hword c hc))
      line.symbol_ne_nil
  rw [text, back, Text.words_append_blanks line.isBlank_before hbefore,
    Text.words_append_blanks line.isBlank_after hafter, line.lhs.words_text, hsymbol,
    line.rhs.words_text]
  rfl

end

/-- **A line of two numbers is cut at the operation between them.** -/
theorem cut?_text :
    cut? line.text = some ⟨line.lhs.text, line.symbol.toList, line.rhs.text⟩ := by
  have hnumber := line.lhs.numberCut?_append line.endsNumeral
  by_cases hword : line.symbol.toList.all Char.isAlpha = true
  · have hnone := line.markAndWord?_of_word hword
    have hnumberCut : numberCut? line.text = none := by
      rw [text, hnumber, ← List.nil_append (line.before ++ line.back), hnone]
      rfl
    have hsymbolCut : symbolCut? line.text = none := by
      refine symbolCutFrom?_eq_none (fun c hc => ?_) hnone [] line.lhs.text
      rw [List.head?_append_of_ne_nil _ (line.separated hword).1] at hc
      exact line.isBlank_before c (List.mem_of_head? hc)
    have hwordCut : wordCut? line.text =
        some ⟨line.lhs.text, line.symbol.toList, line.rhs.text⟩ := by
      simp only [wordCut?, line.words_text hword]
      rw [if_pos hword]
    rw [cut?, hnumberCut, hsymbolCut, hwordCut]
    rfl
  · rw [line.markAndWord?_of_mark hword] at hnumber
    rw [cut?, text, hnumber]
    rfl

/-- **A line of two numbers is a command on them.** -/
theorem ofLine_text : Command.ofLine line.text =
    .ok (.binary line.op (Operand.read line.lhs.text) (Operand.read line.rhs.text)) := by
  have hline : Command.ofLine line.text = Command.ofCut _ :=
    line.lhs.ofLine_of_cut? line.trim_text line.cut?_text
  have hsymbol := BinaryOperation.ofSymbol?_of_mem line.mem_symbols
  rw [hline, Command.ofCut, String.ofList_toList, hsymbol]

end NumberLine

/-! ## Lines of a function and a number -/

/-- A name of a function and a number behind it, with blanks between them. -/
structure FunctionLine where
  op : UnaryOperation
  name : String
  gap : List Char
  arg : SignedNumeral
  mem_names : name ∈ op.names
  isBlank_gap : ∀ c ∈ gap, Text.isBlank c = true
  separated : gap ≠ []

namespace FunctionLine

open Line

variable (line : FunctionLine)

/-- The line as typed. -/
def text : List Char := line.name.toList ++ (line.gap ++ line.arg.text)

theorem isFunctionName_name : isFunctionName line.name.toList = true := by
  have hnames : ∀ name ∈ line.op.names, isFunctionName name.toList = true := by
    cases line.op <;> decide
  exact hnames _ line.mem_names

theorem trim_text : Text.trim line.text = line.text := by
  obtain ⟨hne, hblank⟩ := isBlank_eq_false_of_isFunctionName line.isFunctionName_name
  exact Text.trim_append hblank (fun _ hc => line.arg.isBlank_eq_false hc) hne
    line.arg.text_ne_nil line.gap

/-- **A line of a function and a number is cut between them.** -/
theorem functionCut?_text : functionCut? line.text = some (line.name.toList, line.arg.text) := by
  obtain ⟨hne, hblank⟩ := isBlank_eq_false_of_isFunctionName line.isFunctionName_name
  have hwords : Text.words line.text = [line.name.toList, line.arg.text] := by
    rw [text, Text.words_append_blanks line.isBlank_gap line.separated,
      Text.words_word hblank hne, line.arg.words_text]
    rfl
  simp only [functionCut?, hwords]
  rw [if_pos line.isFunctionName_name]

/-- **A line of a function and a number is a command on the number.** -/
theorem ofLine_text :
    Command.ofLine line.text = .ok (.unary line.op (Operand.read line.arg.text)) := by
  obtain ⟨d, gap, hgap⟩ := List.exists_cons_of_ne_nil line.separated
  have hmem : d ∈ line.text := by simp [text, hgap]
  have hblank : Text.isBlank d = true := line.isBlank_gap d (hgap ▸ List.mem_cons_self)
  have halpha : d.isAlpha = false := by
    rw [Bool.eq_false_iff]
    intro ha
    rw [isBlank_eq_false_of_isAlpha ha] at hblank
    cases hblank
  have hempty : line.text.isEmpty = false := List.isEmpty_eq_false_iff.mpr (List.ne_nil_of_mem hmem)
  have hname := UnaryOperation.ofName?_of_mem line.mem_names
  simp only [Command.ofLine, line.trim_text, hempty, isQuit_eq_false hmem halpha,
    line.functionCut?_text, Command.ofFunction, String.ofList_toList, hname]
  rfl

end FunctionLine

/-- Blanks around a line do not count. -/
theorem Command.ofLine_blanks_append {left right : List Char}
    (hl : ∀ c ∈ left, Text.isBlank c = true) (hr : ∀ c ∈ right, Text.isBlank c = true)
    (cs : List Char) : ofLine (left ++ (cs ++ right)) = ofLine cs := by
  rw [ofLine, ofLine, Text.trim_blanks_append hl hr]

/-- **Lines of numbers are cut where they are meant to be.** With blanks around it or without, a
line of two numbers is the operation between them, and a line of a function and a number is that
function. The operands are the texts of the numbers, and each of them is read as the number that is
written, up to the sign of zero. -/
theorem ofLine_numbers {left right : List Char} (hl : ∀ c ∈ left, Text.isBlank c = true)
    (hr : ∀ c ∈ right, Text.isBlank c = true) :
    (∀ line : NumberLine, Command.ofLine (left ++ (line.text ++ right)) =
      .ok (.binary line.op (Operand.read line.lhs.text) (Operand.read line.rhs.text))) ∧
    (∀ line : FunctionLine, Command.ofLine (left ++ (line.text ++ right)) =
      .ok (.unary line.op (Operand.read line.arg.text))) ∧
    ∀ a : SignedNumeral, ∃ x, (Operand.read a.text).value = .ok x ∧ SameNumber x a.value := by
  refine ⟨fun line => ?_, fun line => ?_, fun a => a.exists_value_read⟩
  · rw [Command.ofLine_blanks_append hl hr, line.ofLine_text]
  · rw [Command.ofLine_blanks_append hl hr, line.ofLine_text]

/-- The number `+.5E-3`. -/
def SignedNumeral.smallHalf : SignedNumeral where
  sign := some '+'
  numeral := ⟨[], some ['5'], some ⟨'E', some '-', ['3']⟩⟩
  isSign := by simp [IsSign]
  written := by
    refine ⟨⟨List.all_eq_true.mp rfl, List.cons_ne_nil _ _⟩, fun e he => ?_⟩
    obtain rfl := Option.some.inj he
    exact ⟨.inr rfl, by simp [IsSign], ⟨List.all_eq_true.mp rfl, List.cons_ne_nil _ _⟩⟩

/-- The line `+007 pow +.5E-3`, with tabs in it. -/
def NumberLine.sevenPow : NumberLine where
  lhs :=
    { sign := some '+'
      numeral := ⟨['0', '0', '7'], none, none⟩
      isSign := by simp [IsSign]
      written := Numeral.written_of_digits ⟨List.all_eq_true.mp rfl, List.cons_ne_nil _ _⟩ rfl }
  before := ['\t']
  op := .power
  symbol := "pow"
  after := ['\t']
  rhs := .smallHalf
  mem_symbols := by decide
  isBlank_before := List.all_eq_true.mp rfl
  isBlank_after := List.all_eq_true.mp rfl
  separated _ := ⟨List.cons_ne_nil _ _, List.cons_ne_nil _ _⟩

/-- The line `ln +.5E-3`, with a tab in it. -/
def FunctionLine.lnSmallHalf : FunctionLine where
  op := .naturalLog
  name := "ln"
  gap := ['\t']
  arg := .smallHalf
  mem_names := by decide
  isBlank_gap := List.all_eq_true.mp rfl
  separated := List.cons_ne_nil _ _

/-- Zeros in front of a number count for nothing, and its signs and its letter are no operation. -/
theorem ofLine_numbers_sevenPow :
    (∀ c ∈ [' '], Text.isBlank c = true) ∧
    Command.ofLine " +007\tpow\t+.5E-3 ".toList =
      .ok (.binary .power (.int 7) (Operand.read "+.5E-3".toList)) ∧
    Command.ofLine " ln\t+.5E-3 ".toList = .ok (.unary .naturalLog (Operand.read "+.5E-3".toList)) ∧
    ∃ x, (Operand.read "+.5E-3".toList).value = .ok x ∧
      SameNumber x (Decimal.toFloat false ⟨5, -4⟩) := by
  have hspace : ∀ c ∈ [' '], Text.isBlank c = true := List.all_eq_true.mp rfl
  have hseven : Operand.read "+007".toList = .int 7 := by decide
  obtain ⟨hbinary, hunary, hnumeric⟩ := ofLine_numbers hspace hspace
  exact ⟨hspace, hseven ▸ hbinary .sevenPow, hunary .lnSmallHalf, hnumeric .smallHalf⟩

end PocketCalc

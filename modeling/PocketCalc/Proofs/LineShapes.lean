import PocketCalc.Proofs.MarkCuts
import PocketCalc.Proofs.Respacing

/-!
# What a line means

A line is meant by its shape: a name and a word, a number and a mark and a word, a word and a mark
and a word, or three words with letters in the middle. A line can have several of these shapes, and
the first of them counts. All of this is said here without a search, as ways in which a line is put
together, and the text loop is shown to find the one meaning that a line has.

The shapes without a mark are told by the words of the line. These are the runs between its blanks:
a text has exactly the words that it can be put together from.
-/

namespace PocketCalc

open Line

variable {cs t text word : List Char} {words : List (List Char)} {c : Char}

/-! ## The words of a text -/

theorem ConsistsOf.cons_blank (hc : Text.isBlank c = true) (h : ConsistsOf words cs) :
    ConsistsOf words (c :: cs) := by
  obtain ⟨before, text, behind, hbefore, hbehind, hspaced, rfl⟩ := h
  exact ⟨c :: before, text, behind, List.forall_mem_cons.mpr ⟨hc, hbefore⟩, hbehind, hspaced, rfl⟩

/-- A word in front of a blank is one word more. -/
theorem ConsistsOf.cons_word (hc : Text.isBlank c = true) (h : ConsistsOf words cs)
    (word : List Char) : ConsistsOf (word :: words) (word ++ c :: cs) := by
  obtain ⟨before, text, behind, hbefore, hbehind, hspaced, rfl⟩ := h
  have hgap : ∀ d ∈ c :: before, Text.isBlank d = true := List.forall_mem_cons.mpr ⟨hc, hbefore⟩
  cases words with
  | nil =>
      -- what stands behind the word is blank throughout
      cases hspaced
      refine ⟨[], word, c :: (before ++ behind), List.forall_mem_nil _, ?_, .one word, rfl⟩
      exact List.forall_mem_cons.mpr ⟨hc, List.forall_mem_append.mpr ⟨hbefore, hbehind⟩⟩
  | cons next words =>
      refine ⟨[], word ++ (c :: before ++ text), behind, List.forall_mem_nil _, hbehind,
        .more word (c :: before) next text words hgap (List.cons_ne_nil c before) hspaced, ?_⟩
      simp

/-- The search for words goes through the text, and puts it together again. -/
theorem consistsOf_wordsFrom (word cs : List Char) :
    ConsistsOf (Text.wordsFrom word cs) (word.reverse ++ cs) := by
  have hnone : ∀ c ∈ ([] : List Char), Text.isBlank c = true := List.forall_mem_nil _
  induction cs generalizing word with
  | nil =>
      rw [Text.wordsFrom]
      split
      · rename_i hword
        rw [List.isEmpty_iff.mp hword]
        exact ⟨[], [], [], hnone, hnone, .none, rfl⟩
      · exact ⟨[], word.reverse, [], hnone, hnone, .one _, rfl⟩
  | cons c cs ih =>
      rw [Text.wordsFrom]
      split
      · rename_i hc
        split
        · rename_i hword
          rw [List.isEmpty_iff.mp hword]
          exact (ih []).cons_blank hc
        · exact (ih []).cons_word hc word.reverse
      · have hmore := ih (c :: word)
        rwa [List.reverse_cons, List.append_assoc] at hmore

theorem isWord_of_mem_wordsFrom {front : List Char} (hfront : ∀ c ∈ front, Text.isBlank c = false)
    (h : word ∈ Text.wordsFrom front cs) : IsWord word := by
  have hreverse (hne : ¬ front.isEmpty = true) : IsWord front.reverse :=
    ⟨fun c hc => hfront c (List.mem_reverse.mp hc), by simpa using hne⟩
  have hnone : ∀ c ∈ ([] : List Char), Text.isBlank c = false := List.forall_mem_nil _
  induction cs generalizing front with
  | nil =>
      rw [Text.wordsFrom] at h
      split at h
      · cases h
      · rename_i hne
        rw [List.mem_singleton.mp h]
        exact hreverse hne
  | cons c cs ih =>
      rw [Text.wordsFrom] at h
      split at h
      · split at h
        · exact ih hnone h (by simp)
        · rename_i hne
          rcases List.mem_cons.mp h with rfl | hmore
          · exact hreverse hne
          · exact ih hnone hmore (by simp)
      · rename_i hc
        have hmore : ∀ d ∈ c :: front, Text.isBlank d = false :=
          List.forall_mem_cons.mpr ⟨eq_false_of_ne_true hc, hfront⟩
        refine ih hmore h fun _ => ?_
        exact ⟨fun d hd => hmore d (List.mem_reverse.mp hd), by simp⟩

/-- Words that are spaced are the words of the text. -/
theorem Spaced.words_eq (h : Spaced words text) (hwords : ∀ w ∈ words, IsWord w) :
    Text.words text = words := by
  induction h with
  | none => rfl
  | one word =>
      have hword := hwords word List.mem_cons_self
      exact Text.words_word hword.solid hword.nonempty
  | more word gap next text words isBlank nonempty spaced ih =>
      obtain ⟨hword, hmore⟩ := List.forall_mem_cons.mp hwords
      rw [Text.words_append_blanks isBlank nonempty, ih hmore,
        Text.words_word hword.solid hword.nonempty]
      rfl

/-- A text of words ends with a word. -/
theorem Spaced.exists_last (h : Spaced words text) (hne : words ≠ [])
    (hwords : ∀ w ∈ words, IsWord w) : ∃ front back, IsWord back ∧ text = front ++ back := by
  induction h with
  | none => exact absurd rfl hne
  | one word => exact ⟨[], word, hwords word List.mem_cons_self, rfl⟩
  | more word gap next text words _ _ spaced ih =>
      obtain ⟨front, back, hback, rfl⟩ :=
        ih (List.cons_ne_nil _ _) (List.forall_mem_cons.mp hwords).2
      exact ⟨word ++ (gap ++ front), back, hback, by simp⟩

/-- A text of words has no blank at either end. -/
theorem Spaced.trim_eq (h : Spaced words text) (hwords : ∀ w ∈ words, IsWord w) :
    Text.trim text = text := by
  cases h with
  | none => rfl
  | one => exact Text.trim_word (hwords _ List.mem_cons_self).solid
  | more word gap next text words _ _ spaced =>
      obtain ⟨hword, hmore⟩ := List.forall_mem_cons.mp hwords
      obtain ⟨front, back, hback, rfl⟩ := spaced.exists_last (List.cons_ne_nil _ _) hmore
      rw [← List.append_assoc gap]
      exact Text.trim_append hword.solid hback.solid hword.nonempty hback.nonempty (gap ++ front)

/-- **A trimmed text has the words that it is put together from**, and no others. -/
theorem words_eq_iff (ht : Text.trim t = t) :
    Text.words t = words ↔ Spaced words t ∧ ∀ w ∈ words, IsWord w := by
  constructor
  · rintro rfl
    have hwords : ∀ w ∈ Text.words t, IsWord w := fun w hw =>
      isWord_of_mem_wordsFrom (List.forall_mem_nil _) hw
    obtain ⟨before, text, behind, hbefore, hbehind, hspaced, htext⟩ := consistsOf_wordsFrom [] t
    rw [List.reverse_nil, List.nil_append] at htext
    have hall : t = text := by
      rw [← ht, htext, Text.trim_blanks_append hbefore hbehind]
      exact hspaced.trim_eq hwords
    refine ⟨?_, hwords⟩
    rw [← hall] at hspaced
    exact hspaced
  · rintro ⟨hspaced, hwords⟩
    exact hspaced.words_eq hwords

/-! ## The shapes without a mark -/

namespace Line

/-- An ASCII letter with ASCII letters and digits behind it. -/
def IsName (name : List Char) : Prop :=
  ∃ c cs, name = c :: cs ∧ c.isAlpha = true ∧ ∀ d ∈ cs, d.isAlphanum = true

theorem isFunctionName_iff {name : List Char} : isFunctionName name = true ↔ IsName name := by
  cases name with
  | nil => simp [isFunctionName, IsName]
  | cons c cs => simp [isFunctionName, IsName]

/-- The line is a name and a word. -/
structure FunctionShape (t name arg : List Char) : Prop where
  isName : IsName name
  isWord : IsWord arg
  spaced : Spaced [name, arg] t

/-- The line is three words, cut as given, and the middle one has nothing but ASCII letters. -/
structure WordShape (t : List Char) (cut : Cut) : Prop where
  lhs : IsWord cut.lhs
  symbol : cut.symbol ≠ [] ∧ ∀ c ∈ cut.symbol, c.isAlpha = true
  rhs : IsWord cut.rhs
  spaced : Spaced [cut.lhs, cut.symbol, cut.rhs] t

section

variable {name arg : List Char} {cut : Cut}

theorem functionCut?_eq_some_iff (ht : Text.trim t = t) :
    functionCut? t = some (name, arg) ↔ FunctionShape t name arg := by
  constructor
  · intro h
    unfold functionCut? at h
    split at h
    · rename_i hwords
      obtain ⟨hspaced, hall⟩ := (words_eq_iff ht).mp hwords
      split at h
      · rename_i hname
        cases h
        exact ⟨isFunctionName_iff.mp hname, hall arg (by simp), hspaced⟩
      · cases h
    · cases h
  · rintro ⟨hname, harg, hspaced⟩
    have hfunction := isFunctionName_iff.mpr hname
    obtain ⟨hne, hsolid⟩ := isBlank_eq_false_of_isFunctionName hfunction
    have hall : ∀ w ∈ [name, arg], IsWord w := by simp [harg, IsWord.mk hsolid hne]
    rw [functionCut?, hspaced.words_eq hall]
    exact if_pos hfunction

theorem wordCut?_eq_some_iff (ht : Text.trim t = t) : wordCut? t = some cut ↔ WordShape t cut := by
  constructor
  · intro h
    unfold wordCut? at h
    split at h
    · rename_i hwords
      obtain ⟨hspaced, hall⟩ := (words_eq_iff ht).mp hwords
      split at h
      · rename_i hletters
        cases h
        exact ⟨hall _ (by simp), ⟨(hall _ (by simp)).nonempty, List.all_eq_true.mp hletters⟩,
          hall _ (by simp), hspaced⟩
      · cases h
    · cases h
  · rintro ⟨hlhs, ⟨hne, hletters⟩, hrhs, hspaced⟩
    have hsymbol : IsWord cut.symbol :=
      ⟨fun c hc => isBlank_eq_false_of_isAlpha (hletters c hc), hne⟩
    have hall : ∀ w ∈ [cut.lhs, cut.symbol, cut.rhs], IsWord w := by simp [hlhs, hsymbol, hrhs]
    rw [wordCut?, hspaced.words_eq hall]
    exact if_pos (List.all_eq_true.mpr hletters)

theorem functionCut?_eq_none_iff (ht : Text.trim t = t) :
    functionCut? t = none ↔ ∀ name arg, ¬ FunctionShape t name arg := by
  rw [Option.eq_none_iff_forall_ne_some]
  constructor
  · exact fun h name arg hshape => h (name, arg) ((functionCut?_eq_some_iff ht).mpr hshape)
  · exact fun h found hfound => h found.1 found.2 ((functionCut?_eq_some_iff ht).mp hfound)

theorem wordCut?_eq_none_iff (ht : Text.trim t = t) :
    wordCut? t = none ↔ ∀ cut, ¬ WordShape t cut := by
  rw [Option.eq_none_iff_forall_ne_some]
  exact forall_congr' fun cut => not_congr (wordCut?_eq_some_iff ht)

end

end Line

/-! ## Names and spellings of operations -/

theorem UnaryOperation.ofName?_eq_some_iff {op : UnaryOperation} {name : String} :
    ofName? name = some op ↔ name ∈ op.names := by
  refine ⟨fun h => ?_, ofName?_of_mem⟩
  simpa using List.find?_some h

theorem BinaryOperation.ofSymbol?_eq_some_iff {op : BinaryOperation} {symbol : String} :
    ofSymbol? symbol = some op ↔ symbol ∈ op.symbols := by
  refine ⟨fun h => ?_, ofSymbol?_of_mem⟩
  simpa using List.find?_some h

/-- Every mark spells an operation. -/
theorem Line.MarkedLine.exists_operation {left : List Char → Prop} {cut : Cut}
    (h : MarkedLine left t cut) : ∃ op : BinaryOperation, String.ofList cut.symbol ∈ op.symbols := by
  have hmarks : ∀ s ∈ marks, ∃ op ∈ BinaryOperation.all, String.ofList s ∈ op.symbols := by decide
  obtain ⟨-, rest, -, hmarked⟩ := h
  obtain ⟨op, -, hop⟩ := hmarks cut.symbol hmarked.mem
  exact ⟨op, hop⟩

/-! ## The meaning of a line -/

/-- What a line means, by the first shape that it has. Any word can stand in the place of a number, and
is read as an operand. -/
inductive Line.Means (t : List Char) : Except Error Command → Prop
  | function (name arg : List Char) (op : UnaryOperation) (shape : FunctionShape t name arg)
      (known : String.ofList name ∈ op.names) :
      Means t (.ok (.unary op (Operand.read arg)))
  | unknownFunction (name arg : List Char) (shape : FunctionShape t name arg)
      (unknown : ∀ op : UnaryOperation, String.ofList name ∉ op.names) :
      Means t (.error (.malformed (.unknownFunction (String.ofList name))))
  | number (cut : Cut) (op : BinaryOperation)
      (noFunction : ∀ name arg, ¬ FunctionShape t name arg)
      (shape : MarkedLine IsNumberText t cut) (stars : StarsFirst (MarkedLine IsNumberText t) cut)
      (spelled : String.ofList cut.symbol ∈ op.symbols) :
      Means t (.ok (.binary op (Operand.read cut.lhs) (Operand.read cut.rhs)))
  | symbol (cut : Cut) (op : BinaryOperation)
      (noFunction : ∀ name arg, ¬ FunctionShape t name arg)
      (noNumber : ∀ other, ¬ MarkedLine IsNumberText t other)
      (shape : MarkedLine IsWord t cut) (stars : StarsFirst (MarkedLine IsWord t) cut)
      (shortest : ∀ other, MarkedLine IsWord t other → cut.lhs.length ≤ other.lhs.length)
      (spelled : String.ofList cut.symbol ∈ op.symbols) :
      Means t (.ok (.binary op (Operand.read cut.lhs) (Operand.read cut.rhs)))
  | word (cut : Cut) (op : BinaryOperation)
      (noFunction : ∀ name arg, ¬ FunctionShape t name arg)
      (noNumber : ∀ other, ¬ MarkedLine IsNumberText t other)
      (noSymbol : ∀ other, ¬ MarkedLine IsWord t other)
      (shape : WordShape t cut) (spelled : String.ofList cut.symbol ∈ op.symbols) :
      Means t (.ok (.binary op (Operand.read cut.lhs) (Operand.read cut.rhs)))
  | unknownOperator (cut : Cut) (noFunction : ∀ name arg, ¬ FunctionShape t name arg)
      (noNumber : ∀ other, ¬ MarkedLine IsNumberText t other)
      (noSymbol : ∀ other, ¬ MarkedLine IsWord t other) (shape : WordShape t cut)
      (unknown : ∀ op : BinaryOperation, String.ofList cut.symbol ∉ op.symbols) :
      Means t (.error (.malformed (.unknownOperator (String.ofList cut.symbol))))
  | shapeless (noFunction : ∀ name arg, ¬ FunctionShape t name arg)
      (noNumber : ∀ other, ¬ MarkedLine IsNumberText t other)
      (noSymbol : ∀ other, ¬ MarkedLine IsWord t other)
      (noWord : ∀ other, ¬ WordShape t other) :
      Means t (.error (.malformed (.unknownShape (String.ofList t))))

namespace Command

theorem ofFunction_of_mem {name arg : List Char} {op : UnaryOperation}
    (h : String.ofList name ∈ op.names) :
    ofFunction name arg = .ok (.unary op (Operand.read arg)) := by
  rw [ofFunction, UnaryOperation.ofName?_of_mem h]

theorem ofFunction_of_unknown {name arg : List Char}
    (h : ∀ op : UnaryOperation, String.ofList name ∉ op.names) :
    ofFunction name arg = .error (.malformed (.unknownFunction (String.ofList name))) := by
  have hnone : UnaryOperation.ofName? (String.ofList name) = none :=
    Option.eq_none_iff_forall_ne_some.mpr fun op hop =>
      h op (UnaryOperation.ofName?_eq_some_iff.mp hop)
  rw [ofFunction, hnone]

theorem ofCut_of_mem {cut : Cut} {op : BinaryOperation}
    (h : String.ofList cut.symbol ∈ op.symbols) :
    ofCut cut = .ok (.binary op (Operand.read cut.lhs) (Operand.read cut.rhs)) := by
  rw [ofCut, BinaryOperation.ofSymbol?_of_mem h]

theorem ofCut_of_unknown {cut : Cut}
    (h : ∀ op : BinaryOperation, String.ofList cut.symbol ∉ op.symbols) :
    ofCut cut = .error (.malformed (.unknownOperator (String.ofList cut.symbol))) := by
  have hnone : BinaryOperation.ofSymbol? (String.ofList cut.symbol) = none :=
    Option.eq_none_iff_forall_ne_some.mpr fun op hop =>
      h op (BinaryOperation.ofSymbol?_eq_some_iff.mp hop)
  rw [ofCut, hnone]

end Command

/-! ## What the loop finds -/

namespace Line

variable {r : Except Error Command} {name arg : List Char} {cut : Cut}

/-- What is asked for by a trimmed line that does not end the loop. -/
def command (t : List Char) : Except Error Command :=
  match functionCut? t with
  | some (name, arg) => Command.ofFunction name arg
  | none =>
    match cut? t with
    | some cut => Command.ofCut cut
    | none => .error (.malformed (.unknownShape (String.ofList t)))

theorem command_of_function (h : functionCut? t = some (name, arg)) :
    command t = Command.ofFunction name arg := by
  rw [command, h]

section

variable (hf : functionCut? t = none)
include hf

theorem command_of_number (hn : numberCut? t = some cut) : command t = Command.ofCut cut := by
  have hcut : cut? t = some cut := by rw [cut?, hn]; rfl
  rw [command, hf, hcut]

theorem command_of_symbol (hn : numberCut? t = none) (hs : symbolCut? t = some cut) :
    command t = Command.ofCut cut := by
  have hcut : cut? t = some cut := by rw [cut?, hn, hs]; rfl
  rw [command, hf, hcut]

theorem command_of_noMark (hn : numberCut? t = none) (hs : symbolCut? t = none) :
    command t = match wordCut? t with
      | some cut => Command.ofCut cut
      | none => .error (.malformed (.unknownShape (String.ofList t))) := by
  have hcut : cut? t = wordCut? t := by rw [cut?, hn, hs]; rfl
  rw [command, hf, hcut]

end

theorem means_of_function (shape : FunctionShape t name arg) :
    Means t (Command.ofFunction name arg) := by
  by_cases hknown : ∃ op : UnaryOperation, String.ofList name ∈ op.names
  · obtain ⟨op, hop⟩ := hknown
    rw [Command.ofFunction_of_mem hop]
    exact .function name arg op shape hop
  · have hunknown (op : UnaryOperation) : String.ofList name ∉ op.names :=
      fun hop => hknown ⟨op, hop⟩
    rw [Command.ofFunction_of_unknown hunknown]
    exact .unknownFunction name arg shape hunknown

theorem means_of_word (noFunction : ∀ name arg, ¬ FunctionShape t name arg)
    (noNumber : ∀ other, ¬ MarkedLine IsNumberText t other)
    (noSymbol : ∀ other, ¬ MarkedLine IsWord t other) (shape : WordShape t cut) :
    Means t (Command.ofCut cut) := by
  by_cases hknown : ∃ op : BinaryOperation, String.ofList cut.symbol ∈ op.symbols
  · obtain ⟨op, hop⟩ := hknown
    rw [Command.ofCut_of_mem hop]
    exact .word cut op noFunction noNumber noSymbol shape hop
  · have hunknown (op : BinaryOperation) : String.ofList cut.symbol ∉ op.symbols :=
      fun hop => hknown ⟨op, hop⟩
    rw [Command.ofCut_of_unknown hunknown]
    exact .unknownOperator cut noFunction noNumber noSymbol shape hunknown

/-- What the loop takes a line for is what the line means. -/
theorem means_command (ht : Text.trim t = t) : Means t (command t) := by
  -- the shapes are tried in order, and each failure says that the line does not have the shape
  cases hf : functionCut? t with
  | some found =>
      rw [command_of_function hf]
      exact means_of_function ((functionCut?_eq_some_iff ht).mp hf)
  | none =>
  have noFunction := (functionCut?_eq_none_iff ht).mp hf
  cases hn : numberCut? t with
  | some cut =>
      obtain ⟨shape, stars⟩ := numberCut?_eq_some_iff.mp hn
      obtain ⟨op, spelled⟩ := shape.exists_operation
      rw [command_of_number hf hn, Command.ofCut_of_mem spelled]
      exact .number cut op noFunction shape stars spelled
  | none =>
  have noNumber := numberCut?_eq_none_iff.mp hn
  cases hs : symbolCut? t with
  | some cut =>
      obtain ⟨shape, stars, shortest⟩ := symbolCut?_eq_some_iff.mp hs
      obtain ⟨op, spelled⟩ := shape.exists_operation
      rw [command_of_symbol hf hn hs, Command.ofCut_of_mem spelled]
      exact .symbol cut op noFunction noNumber shape stars shortest spelled
  | none =>
  have noSymbol := symbolCut?_eq_none_iff.mp hs
  rw [command_of_noMark hf hn hs]
  cases hw : wordCut? t with
  | some cut => exact means_of_word noFunction noNumber noSymbol ((wordCut?_eq_some_iff ht).mp hw)
  | none =>
      exact .shapeless noFunction noNumber noSymbol ((wordCut?_eq_none_iff ht).mp hw)

/-- A line means one thing only. -/
theorem Means.command_eq (ht : Text.trim t = t) (h : Means t r) : command t = r := by
  have noF := functionCut?_eq_none_iff ht
  cases h with
  | function name arg op shape known =>
      rw [command_of_function ((functionCut?_eq_some_iff ht).mpr shape),
        Command.ofFunction_of_mem known]
  | unknownFunction name arg shape unknown =>
      rw [command_of_function ((functionCut?_eq_some_iff ht).mpr shape),
        Command.ofFunction_of_unknown unknown]
  | number cut op noFunction shape stars spelled =>
      rw [command_of_number (noF.mpr noFunction) (numberCut?_eq_some_iff.mpr ⟨shape, stars⟩),
        Command.ofCut_of_mem spelled]
  | symbol cut op noFunction noNumber shape stars shortest spelled =>
      rw [command_of_symbol (noF.mpr noFunction) (numberCut?_eq_none_iff.mpr noNumber)
        (symbolCut?_eq_some_iff.mpr ⟨shape, stars, shortest⟩), Command.ofCut_of_mem spelled]
  | word cut op noFunction noNumber noSymbol shape spelled =>
      rw [command_of_noMark (noF.mpr noFunction) (numberCut?_eq_none_iff.mpr noNumber)
        (symbolCut?_eq_none_iff.mpr noSymbol), (wordCut?_eq_some_iff ht).mpr shape]
      exact Command.ofCut_of_mem spelled
  | unknownOperator cut noFunction noNumber noSymbol shape unknown =>
      rw [command_of_noMark (noF.mpr noFunction) (numberCut?_eq_none_iff.mpr noNumber)
        (symbolCut?_eq_none_iff.mpr noSymbol), (wordCut?_eq_some_iff ht).mpr shape]
      exact Command.ofCut_of_unknown unknown
  | shapeless noFunction noNumber noSymbol noWord =>
      rw [command_of_noMark (noF.mpr noFunction) (numberCut?_eq_none_iff.mpr noNumber)
        (symbolCut?_eq_none_iff.mpr noSymbol), (wordCut?_eq_none_iff ht).mpr noWord]

end Line

/-- **A line is taken for what it means.** A line that is not blank and does not end the loop has one
meaning, by the first of its shapes, and it is the one that the loop finds. -/
theorem Command.ofLine_eq_iff_means {line : List Char} (nonblank : Text.trim line ≠ [])
    (stays : ∀ word ∈ ["quit", "exit"], (Text.trim line).map Char.toLower ≠ word.toList)
    (r : Except Error Command) :
    Command.ofLine line = r ↔ Line.Means (Text.trim line) r := by
  have hempty : (Text.trim line).isEmpty = false := by simpa using nonblank
  have hquit : isQuit (Text.trim line) = false := by
    rw [isQuit, Bool.or_eq_false_iff, beq_eq_false_iff_ne, beq_eq_false_iff_ne]
    exact ⟨stays "quit" (by simp), stays "exit" (by simp)⟩
  have hcommand : Command.ofLine line = Line.command (Text.trim line) := by
    rw [Command.ofLine]
    simp only [hempty, hquit]
    rfl
  have htrim := Text.trim_trim line
  rw [hcommand]
  constructor
  · rintro rfl
    exact Line.means_command htrim
  · exact fun h => h.command_eq htrim

/-- The exponent of a number keeps its sign, and a third star goes to the word behind two of them. -/
theorem Command.ofLine_eq_iff_means_exponent :
    let line := " 1e+5***2\t".toList
    (Text.trim line ≠ [] ∧
      ∀ word ∈ ["quit", "exit"], (Text.trim line).map Char.toLower ≠ word.toList) ∧
    Line.Means (Text.trim line)
      (.ok (.binary .power (Operand.read "1e+5".toList) (Operand.read "*2".toList))) := by
  intro line
  have nonblank : Text.trim line ≠ [] := by decide +kernel
  have stays : ∀ word ∈ ["quit", "exit"], (Text.trim line).map Char.toLower ≠ word.toList := by
    decide +kernel
  have hline : Command.ofLine line =
      .ok (.binary .power (Operand.read "1e+5".toList) (Operand.read "*2".toList)) := by
    decide +kernel
  exact ⟨⟨nonblank, stays⟩, (Command.ofLine_eq_iff_means nonblank stays _).mp hline⟩

end PocketCalc

import Mathlib.Data.List.Infix
import PocketCalc.Cli.Run
import PocketCalc.Proofs.Blanks
import PocketCalc.Proofs.BufferShape
import PocketCalc.Proofs.Display
import PocketCalc.Proofs.Transcripts

/-!
# What a list of labels comes to

A keypad goes by the labels that stand for keys, and by nothing else that is around them: not by the
labels of no key, and, where the labels are read from the input, not by how its lines are broken.

A line is cut from the bytes of the input and then read as text. So that nothing is lost on the way,
a byte below 128 has to be a character of its own wherever it occurs: then a newline byte is a
newline character, lines of a text are texts, and the words of the lines are the words of the text.
-/

namespace PocketCalc

/-! ## Texts as bytes -/

/-- The bytes of a text. -/
def utf8 (cs : List Char) : List UInt8 := cs.flatMap String.utf8EncodeChar

theorem utf8_cons (c : Char) (cs : List Char) :
    utf8 (c :: cs) = String.utf8EncodeChar c ++ utf8 cs :=
  List.flatMap_cons

theorem utf8_append (cs ds : List Char) : utf8 (cs ++ ds) = utf8 cs ++ utf8 ds :=
  List.flatMap_append

theorem utf8_concat (cs : List Char) (c : Char) :
    utf8 (cs ++ [c]) = utf8 cs ++ String.utf8EncodeChar c := by
  rw [utf8_append, utf8_cons]
  exact congrArg _ (List.append_nil _)

theorem toList_toByteArray (bytes : List UInt8) : bytes.toByteArray.toList = bytes := by
  have hloop (array : ByteArray) (i : Nat) (front : List UInt8) :
      ByteArray.toList.loop array i front = front.reverse ++ array.data.toList.drop i := by
    fun_induction ByteArray.toList.loop array i front with
    | case1 i front hi ih =>
        have hlength : i < array.data.toList.length := by simpa using hi
        rw [ih, List.drop_eq_getElem_cons hlength]
        simp [ByteArray.get!, hi]
    | case2 i front hi =>
        rw [List.drop_eq_nil_of_le (by simpa using Nat.le_of_not_lt hi)]
        simp
  rw [ByteArray.toList, hloop, List.toList_data_toByteArray]
  rfl

theorem toList_toUTF8 (text : String) : text.toUTF8.toList = utf8 text.toList := by
  conv_lhs => rw [← String.ofList_toList (s := text)]
  rw [String.toUTF8_eq_toByteArray, String.toByteArray_ofList, List.utf8Encode, toList_toByteArray]
  rfl

/-- The bytes of a text are read as the text. -/
theorem Line.decode?_utf8 (cs : List Char) : Line.decode? (utf8 cs) = some cs := by
  have hvalid : (utf8 cs).toByteArray.IsValidUTF8 := ⟨cs, rfl⟩
  have hstring : String.fromUTF8 (utf8 cs).toByteArray hvalid = String.ofList cs := by
    apply String.toByteArray_inj.mp
    rw [String.toByteArray_ofList]
    rfl
  rw [Line.decode?, String.fromUTF8?, dif_pos hvalid, hstring, Option.map_some,
    String.toList_ofList]

/-- A byte below 128 is a character of its own. -/
theorem utf8EncodeChar_of_mem {b : UInt8} {c : Char} (hb : b.toNat < 128)
    (h : b ∈ String.utf8EncodeChar c) : String.utf8EncodeChar c = [b] ∧ c.toNat = b.toNat := by
  have high (n : Nat) (hn : 128 ≤ n ∧ n < 256) (hbn : b = UInt8.ofNat n) : False := by
    rw [hbn, UInt8.toNat_ofNat', Nat.mod_eq_of_lt hn.2] at hb
    omega
  unfold String.utf8EncodeChar at h ⊢
  dsimp only at h ⊢
  split_ifs at h ⊢ with h1 h2 h3
  · obtain rfl := List.mem_singleton.mp h
    refine ⟨rfl, ?_⟩
    rw [UInt8.toNat_ofNat', Nat.mod_eq_of_lt (by omega)]
    rfl
  all_goals
    simp only [List.mem_cons, List.not_mem_nil, or_false] at h
    refine absurd h fun h => ?_
  · rcases h with h | h <;> exact high _ (by omega) h
  · rcases h with h | h | h <;> exact high _ (by omega) h
  · rcases h with h | h | h | h <;> exact high _ (by omega) h

/-! ## Lines of a text -/

namespace Line

/-- What stands in front of a newline is a text, carriage return or not, and has its words. -/
theorem withoutReturn_utf8 (cs : List Char) :
    ∃ text, withoutReturn (utf8 cs) = utf8 text ∧ Text.words text = Text.words cs := by
  rcases List.eq_nil_or_concat' cs with rfl | ⟨front, c, rfl⟩
  · exact ⟨[], rfl, rfl⟩
  rw [withoutReturn, utf8_concat, List.getLast?_append_of_ne_nil _ String.utf8EncodeChar_ne_nil]
  split
  · rename_i hlast
    obtain ⟨hbytes, hcode⟩ := utf8EncodeChar_of_mem (by decide) (List.mem_of_getLast? hlast)
    have hc : Text.isBlank c = true := by
      rw [← Char.ofNat_toNat c, hcode]
      decide
    refine ⟨front, ?_, (Text.words_concat_of_isBlank hc front).symm⟩
    rw [hbytes, List.dropLast_concat]
  · exact ⟨front ++ [c], (utf8_concat front c).symm, rfl⟩

/-- Bytes without a newline among them belong to the line. -/
theorem splitFrom_append {front : List UInt8} (h : 10 ∉ front) (line bytes : List UInt8) :
    splitFrom line (front ++ bytes) = splitFrom (front.reverse ++ line) bytes := by
  induction front generalizing line with
  | nil => rfl
  | cons b front ih =>
      obtain ⟨hb, hfront⟩ := not_or.mp (mt List.mem_cons.mpr h)
      rw [List.cons_append, splitFrom_other (Ne.symm hb), ih hfront, List.reverse_cons,
        List.append_assoc]
      rfl

theorem exists_texts (line cs : List Char) :
    ∃ texts : List (List Char), splitFrom (utf8 line).reverse (utf8 cs) = texts.map utf8 ∧
      texts.flatMap Text.words = Text.words (line ++ cs) := by
  induction cs generalizing line with
  | nil =>
      cases line with
      | nil => exact ⟨[], rfl, rfl⟩
      | cons c line =>
          have hne : (utf8 (c :: line)).reverse.isEmpty = false := by
            rw [utf8_cons]
            simp [String.utf8EncodeChar_ne_nil]
          refine ⟨[c :: line], ?_, by simp⟩
          show splitFrom _ [] = _
          rw [splitFrom, hne, if_neg Bool.false_ne_true, List.reverse_reverse]
          rfl
  | cons c cs ih =>
      by_cases hc : 10 ∈ String.utf8EncodeChar c
      · -- a newline ends the line, and no word goes on behind it
        obtain ⟨hbytes, hcode⟩ := utf8EncodeChar_of_mem (by decide) hc
        have hblank : Text.isBlank c = true := by
          rw [← Char.ofNat_toNat c, hcode]
          decide
        obtain ⟨text, htext, hwords⟩ := withoutReturn_utf8 line
        obtain ⟨texts, hsplit, hmore⟩ := ih []
        refine ⟨text :: texts, ?_, ?_⟩
        · rw [utf8_cons, hbytes, List.singleton_append, splitFrom_newline, List.reverse_reverse,
            htext, List.map_cons, ← hsplit]
          rfl
        · rw [List.flatMap_cons, hwords, hmore, Text.words_append_of_isBlank hblank,
            List.nil_append]
      · -- any other character belongs to it
        obtain ⟨texts, hsplit, hwords⟩ := ih (line ++ [c])
        refine ⟨texts, ?_, by rw [hwords, List.append_assoc, List.singleton_append]⟩
        rw [utf8_cons, splitFrom_append hc, ← hsplit, utf8_concat, List.reverse_append]

/-- **The lines of a text are texts, and their words are the words of the text.** -/
theorem exists_texts_split (cs : List Char) :
    ∃ texts : List (List Char), split (utf8 cs) = texts.map utf8 ∧
      texts.flatMap Text.words = Text.words cs :=
  exists_texts [] cs

end Line

/-! ## Labels one after another -/

namespace Key

/-- The keys that some labels stand for. Labels of no key are passed over. -/
def ofLabels (env : Environment) (labels : List (List Char)) : List Key :=
  labels.filterMap fun label => (ofLabel env label).toOption

/-- Whether a label stands for a key. -/
def isLabel (env : Environment) (label : List Char) : Bool := (ofLabel env label).toOption.isSome

variable {env : Environment}

theorem ofLabels_append (front back : List (List Char)) :
    ofLabels env (front ++ back) = ofLabels env front ++ ofLabels env back :=
  List.filterMap_append

theorem ofLabels_cons_of_error {label : List Char} {error : Error}
    (h : ofLabel env label = .error error) (labels : List (List Char)) :
    ofLabels env (label :: labels) = ofLabels env labels :=
  List.filterMap_cons_none (by rw [h]; rfl)

theorem ofLabels_cons_of_ok {label : List Char} {key : Key} (h : ofLabel env label = .ok key)
    (labels : List (List Char)) :
    ofLabels env (label :: labels) = key :: ofLabels env labels :=
  List.filterMap_cons_some (by rw [h]; rfl)

/-- Labels of no key can be left out. -/
theorem ofLabels_filter (labels : List (List Char)) :
    ofLabels env (labels.filter (isLabel env)) = ofLabels env labels := by
  rw [ofLabels, ofLabels, List.filterMap_filter]
  refine List.filterMap_congr fun label _ => ?_
  unfold isLabel
  cases (ofLabel env label).toOption <;> rfl

theorem length_ofLabels (labels : List (List Char)) :
    (ofLabels env labels).length = (labels.filter (isLabel env)).length := by
  induction labels with
  | nil => rfl
  | cons label labels ih =>
      cases h : ofLabel env label with
      | error error =>
          have hl : isLabel env label = false := by rw [isLabel, h]; rfl
          rw [ofLabels_cons_of_error h, List.filter_cons_of_neg (by rw [hl]; decide), ih]
      | ok key =>
          have hl : isLabel env label = true := by rw [isLabel, h]; rfl
          rw [ofLabels_cons_of_ok h, List.filter_cons_of_pos hl, List.length_cons, ih,
            List.length_cons]

end Key

namespace Keypad

variable {calculator : Calculator} {pad : Keypad}

/-- The keypads behind each of some keys. -/
def trail (calculator : Calculator) (pad : Keypad) (keys : List Key) : List Keypad :=
  (keys.scanl (press calculator) pad).tail

theorem trail_cons (key : Key) (keys : List Key) :
    pad.trail calculator (key :: keys) =
      pad.press calculator key :: (pad.press calculator key).trail calculator keys := by
  cases keys <;> simp [trail]

theorem length_trail (keys : List Key) : (pad.trail calculator keys).length = keys.length := by
  rw [trail, List.length_tail, List.length_scanl, Nat.add_sub_cancel]

theorem trail_append (front back : List Key) :
    pad.trail calculator (front ++ back) =
      pad.trail calculator front ++ (pad.run calculator front).trail calculator back := by
  induction front generalizing pad with
  | nil => rfl
  | cons key front ih =>
      rw [List.cons_append, trail_cons, ih, trail_cons, List.cons_append]
      rfl

/-- **Only the keys count that the labels stand for**: there is a display for each of them, and the
keypad ends up where they lead. -/
theorem pressAll_eq (calculator : Calculator) (pad : Keypad) (labels : List (List Char)) :
    pad.pressAll calculator labels =
      ((pad.trail calculator (Key.ofLabels calculator.env labels)).map Keypad.display,
        pad.run calculator (Key.ofLabels calculator.env labels)) := by
  induction labels generalizing pad with
  | nil => rfl
  | cons label labels ih =>
      unfold pressAll pressLabel
      cases h : Key.ofLabel calculator.env label with
      | error error => exact (ih pad).trans (by rw [Key.ofLabels_cons_of_error h])
      | ok key =>
          simp only [Except.map, ih, Key.ofLabels_cons_of_ok h, trail_cons, List.map_cons]
          rfl

theorem pressAll_append (front back : List (List Char)) :
    pad.pressAll calculator (front ++ back) =
      ((pad.pressAll calculator front).1 ++
          ((pad.pressAll calculator front).2.pressAll calculator back).1,
        ((pad.pressAll calculator front).2.pressAll calculator back).2) := by
  have hrun (keys more : List Key) : pad.run calculator (keys ++ more) =
      (pad.run calculator keys).run calculator more := List.foldl_append
  simp only [pressAll_eq, Key.ofLabels_append, trail_append, List.map_append, hrun]

/-! ## A display is one line -/

theorem newline_not_mem_display (hc : Coherent calculator pad) (hf : pad.buffer.Fitting) :
    '\n' ∉ pad.display.toList := by
  cases he : pad.isError with
  | true =>
      obtain ⟨-, -, -, error, hd⟩ := hc.error he
      rw [hd, Error.shortMessage.eq_def]
      split <;> decide
  | false =>
      rw [hc.text he]
      split
      · decide
      · rw [Buffer.text, String.toList_ofList]
        intro hmem
        obtain ⟨before, after, hb⟩ := List.append_of_mem hmem
        exact absurd (Buffer.fits_of_split hf hb).typeable (by decide)

theorem newline_not_mem_displays (hc : Coherent calculator pad) (hf : pad.buffer.Fitting)
    (labels : List (List Char)) :
    ∀ display ∈ (pad.pressAll calculator labels).1, '\n' ∉ display.toList := by
  induction labels generalizing pad with
  | nil => nofun
  | cons label labels ih =>
      unfold pressAll pressLabel
      cases h : Key.ofLabel calculator.env label with
      | error error => exact ih hc hf
      | ok key =>
          have hc' := coherent_press hc key
          have hf' := fitting_press hf (Key.bound_ofLabel h)
          exact List.forall_mem_cons.mpr ⟨newline_not_mem_display hc' hf', ih hc' hf'⟩

end Keypad

namespace Cli

theorem lines_cons (text : String) (texts : List String) :
    (lines (text :: texts)).toList = text.toList ++ '\n' :: (lines texts).toList := by
  rw [lines, List.map_cons, String.join_cons, String.toList_append, String.toList_append,
    List.append_assoc]
  rfl

/-- Texts that are lines can be told apart in what is printed. -/
theorem splitOn_lines {texts : List String} (h : ∀ text ∈ texts, '\n' ∉ text.toList) :
    (lines texts).toList.splitOn '\n' = texts.map String.toList ++ [[]] := by
  induction texts with
  | nil => rfl
  | cons text texts ih =>
      obtain ⟨htext, htexts⟩ := List.forall_mem_cons.mp h
      rw [lines_cons, List.splitOn_append_cons_self, List.splitOn_eq_singleton htext, ih htexts]
      rfl

/-- The lines of the input are pressed one after another, as if they were one. -/
theorem pressLines_utf8 (calculator : Calculator) (pad : Keypad) (texts : List (List Char)) :
    pressLines calculator pad (texts.map utf8) =
      ((pad.pressAll calculator (texts.flatMap Text.words)).1, false) := by
  induction texts generalizing pad with
  | nil => rfl
  | cons text texts ih =>
      rw [List.map_cons, pressLines, Line.decode?_utf8]
      simp only [ih, List.flatMap_cons, Keypad.pressAll_append]

theorem runKeyInput_utf8 (calculator : Calculator) (cs : List Char) :
    runKeyInput calculator (utf8 cs) = runKeys calculator (Text.words cs) := by
  obtain ⟨texts, hsplit, hwords⟩ := Line.exists_texts_split cs
  rw [runKeyInput, hsplit, pressLines_utf8, hwords]
  rfl

/-- **A keypad session depends on nothing but the labels that stand for keys.** Keys that come from
the input are the words of the whole text, however its lines are broken. Whatever was pressed
before, some labels show one line for each of them that stands for a key, which is the display
behind that key; and with the other labels left out both what is shown and the keypad in the end
stay the same. -/
theorem keys_spec :
    (∀ (config : Config) (text : String),
      runRequest config text.toUTF8.toList (.keys []) =
        runKeys config.calculator (Text.words text.toList)) ∧
    ∀ (calculator : Calculator) (before labels : List (List Char)),
      let pad := (({} : Keypad).pressAll calculator before).2
      let (displays, final) := pad.pressAll calculator labels
      let known := labels.filter (Key.isLabel calculator.env)
      let keys := Key.ofLabels calculator.env labels
      displays = (pad.trail calculator keys).map Keypad.display ∧
        final = pad.run calculator keys ∧
        displays.length = known.length ∧
        (lines displays).toList.splitOn '\n' = displays.map String.toList ++ [[]] ∧
        pad.pressAll calculator known = (displays, final) := by
  refine ⟨fun config text => ?_, fun calculator before labels => ?_⟩
  · rw [toList_toUTF8]
    exact runKeyInput_utf8 config.calculator text.toList
  · have hcoherent : Keypad.Coherent calculator (({} : Keypad).pressAll calculator before).2 := by
      rw [Keypad.pressAll_eq]
      exact Keypad.coherent_run_of Keypad.coherent_init _
    have hfitting : (({} : Keypad).pressAll calculator before).2.buffer.Fitting :=
      Keypad.fitting_pressAll Buffer.fitting_empty before
    have heq := Keypad.pressAll_eq calculator (({} : Keypad).pressAll calculator before).2 labels
    refine ⟨congrArg Prod.fst heq, congrArg Prod.snd heq, ?_,
      splitOn_lines (Keypad.newline_not_mem_displays hcoherent hfitting labels), ?_⟩
    · rw [heq, List.length_map, Keypad.length_trail, Key.length_ofLabels]
    · rw [Keypad.pressAll_eq, Key.ofLabels_filter, ← heq]

/-- A label of no key and a carriage return leave no trace. -/
example : runRequest {} "1 foo +\r\n2\n=".toUTF8.toList (.keys []) =
    .success "1\n1 + \n1 + 2\n3\n" := by
  decide +kernel

end Cli

end PocketCalc

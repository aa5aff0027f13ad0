import PocketCalc.Proofs.NumberLines

/-!
# Cuts at an operator mark

Two shapes of a line have an operator mark in them: a number, a mark and a word, and a word, a mark
and a word, with blanks at will around the mark. The shapes are said here as ways to put a line
together, and the cuts of the text loop are shown to find them.

What stands behind the left side is cut in at most one way: blanks are no marks, so the mark is the
first thing behind them, and the word is all the rest. Only two stars can be meant in two ways, as
one mark or as a mark in front of a word. A left side that is a number is determined as well,
because no mark and no blank carries a number on. A left side that is any word is not, and the
shortest one is taken; the search for it goes through the line character by character, and the
induction follows it.
-/

namespace PocketCalc

open Number

namespace Line

variable {cs rest symbol rhs t : List Char} {c : Char}

/-! ## Words -/

/-- A run of characters, none of them blank. -/
structure IsWord (w : List Char) : Prop where
  solid : ∀ c ∈ w, Text.isBlank c = false
  nonempty : w ≠ []

theorem word?_eq_some_iff : word? cs = some rhs ↔
    IsWord rhs ∧ ∃ blanks, (∀ c ∈ blanks, Text.isBlank c = true) ∧ cs = blanks ++ rhs := by
  constructor
  · intro h
    simp only [word?] at h
    split at h
    · rename_i hword
      cases h
      refine ⟨⟨fun c hc => ?_, hword.1⟩, Text.exists_blanks_append cs⟩
      simpa using List.all_eq_true.mp hword.2 c hc
    · cases h
  · rintro ⟨hword, blanks, hblanks, rfl⟩
    exact word?_append hblanks hword.solid hword.nonempty

/-! ## A mark and a word -/

/-- The operator marks. -/
def marks : List (List Char) :=
  [['*', '*'], ['-'], ['+'], ['*'], ['/'], ['^'], ['×'], ['÷'], ['−']]

/-- The text is a mark and a word, with blanks at will in front of either. -/
structure Marked (rest symbol rhs : List Char) : Prop where
  mem : symbol ∈ marks
  word : IsWord rhs
  split : ∃ before after, (∀ c ∈ before, Text.isBlank c = true) ∧
    (∀ c ∈ after, Text.isBlank c = true) ∧ rest = before ++ (symbol ++ (after ++ rhs))

/-- The text is a mark and a word, and the mark is two stars where it can be. -/
structure MarkedFirst (rest symbol rhs : List Char) : Prop where
  marked : Marked rest symbol rhs
  stars : ∀ word, Marked rest ['*', '*'] word → symbol = ['*', '*']

/-- Where there is a mark and a word, two stars can be preferred. -/
theorem Marked.exists_first (h : Marked rest symbol rhs) :
    ∃ symbol rhs, MarkedFirst rest symbol rhs := by
  by_cases hstars : ∃ word, Marked rest ['*', '*'] word
  · obtain ⟨word, hword⟩ := hstars
    exact ⟨['*', '*'], word, hword, fun _ _ => rfl⟩
  · exact ⟨symbol, rhs, h, fun word hword => absurd ⟨word, hword⟩ hstars⟩

/-- A mark is two stars or a single character. -/
theorem mem_marks_iff : symbol ∈ marks ↔ symbol = ['*', '*'] ∨ ∃ c, symbol = [c] ∧ isMark c = true := by
  constructor
  · intro h
    simp only [marks, List.mem_cons, List.not_mem_nil, or_false] at h
    rcases h with h | h
    · exact .inl h
    · rcases h with rfl | rfl | rfl | rfl | rfl | rfl | rfl | rfl <;> exact .inr ⟨_, rfl, rfl⟩
  · rintro (rfl | ⟨c, rfl, hc⟩)
    · exact List.mem_cons_self
    · simp only [isMark, Bool.or_eq_true, beq_iff_eq] at hc
      rcases hc with ((((((rfl | rfl) | rfl) | rfl) | rfl) | rfl) | rfl) | rfl <;> simp [marks]

/-- A mark starts with a character that is a mark by itself. -/
theorem exists_mark (h : symbol ∈ marks) : ∃ c more, symbol = c :: more ∧ isMark c = true := by
  rcases mem_marks_iff.mp h with rfl | ⟨c, rfl, hc⟩
  · exact ⟨'*', ['*'], rfl, rfl⟩
  · exact ⟨c, [], rfl, hc⟩

/-- Behind the blanks stands the mark, and behind the mark nothing but the word and blanks. -/
theorem marked_iff : Marked rest symbol rhs ↔
    symbol ∈ marks ∧ ∃ more, Text.trimStart rest = symbol ++ more ∧ word? more = some rhs := by
  constructor
  · rintro ⟨hmem, hword, before, after, hbefore, hafter, rfl⟩
    refine ⟨hmem, after ++ rhs, ?_, word?_eq_some_iff.mpr ⟨hword, after, hafter, rfl⟩⟩
    obtain ⟨c, more, rfl, hc⟩ := exists_mark hmem
    exact trimStart_mark hbefore hc _
  · rintro ⟨hmem, more, hstart, hmore⟩
    obtain ⟨hword, after, hafter, rfl⟩ := word?_eq_some_iff.mp hmore
    obtain ⟨before, hbefore, hrest⟩ := Text.exists_blanks_append rest
    exact ⟨hmem, hword, before, after, hbefore, hafter, hstart ▸ hrest⟩

/-- What is found at the front is a mark and a word, two stars before one. -/
theorem markedFirst_of_markAndWord? (h : markAndWord? rest = some (symbol, rhs)) :
    MarkedFirst rest symbol rhs := by
  unfold markAndWord? at h
  split at h
  · rename_i more hstart
    have hstars : ['*', '*'] ∈ marks := List.mem_cons_self
    split at h
    · rename_i word hword
      cases h
      exact ⟨marked_iff.mpr ⟨hstars, more, hstart, hword⟩, fun _ _ => rfl⟩
    · -- one star is taken where two leave no word
      rename_i hnone
      obtain ⟨word, hword, heq⟩ := Option.map_eq_some_iff.mp h
      cases heq
      have hstar : ['*'] ∈ marks := mem_marks_iff.mpr (.inr ⟨'*', rfl, rfl⟩)
      refine ⟨marked_iff.mpr ⟨hstar, _, hstart, hword⟩, fun other hother => ?_⟩
      obtain ⟨-, more', hstart', hmore'⟩ := marked_iff.mp hother
      obtain rfl : _ = more' := by simpa [hstart] using hstart'
      rw [hnone] at hmore'
      cases hmore'
  · rename_i c more hother hstart
    by_cases hc : isMark c = true
    · rw [if_pos hc] at h
      obtain ⟨word, hword, heq⟩ := Option.map_eq_some_iff.mp h
      cases heq
      have hmem : [c] ∈ marks := mem_marks_iff.mpr (.inr ⟨c, rfl, hc⟩)
      refine ⟨marked_iff.mpr ⟨hmem, more, hstart, hword⟩, fun other hstars => ?_⟩
      obtain ⟨-, more', hstart', -⟩ := marked_iff.mp hstars
      rw [hstart] at hstart'
      obtain ⟨rfl, rfl⟩ := List.cons.inj hstart'
      exact absurd rfl (hother more' rfl)
    · rw [if_neg hc] at h
      cases h
  · cases h

/-- **A mark and a word are found wherever they are**, and two stars are preferred to one. -/
theorem markAndWord?_eq_some_iff :
    markAndWord? rest = some (symbol, rhs) ↔ MarkedFirst rest symbol rhs := by
  refine ⟨markedFirst_of_markAndWord?, fun ⟨hmarked, hfirst⟩ => ?_⟩
  obtain ⟨hmem, more, hstart, hword⟩ := marked_iff.mp hmarked
  rcases mem_marks_iff.mp hmem with rfl | ⟨c, rfl, hc⟩
  · rw [List.cons_append, List.singleton_append] at hstart
    simp only [markAndWord?, hstart, hword]
  · rw [List.singleton_append] at hstart
    rw [markAndWord?, hstart]
    split
    · rename_i more' heq
      obtain ⟨rfl, rfl⟩ := List.cons.inj heq
      split
      · rename_i word hstars
        have htwo : Marked rest ['*', '*'] word :=
          marked_iff.mpr ⟨List.mem_cons_self, more', hstart, hstars⟩
        exact absurd (hfirst word htwo) (by decide)
      · rw [hword]
        rfl
    · rename_i d more' _ heq
      obtain ⟨rfl, rfl⟩ := List.cons.inj heq
      rw [if_pos hc, hword]
      rfl
    · rename_i heq
      cases heq

/-- A text is cut at a mark in one way at most. -/
theorem MarkedFirst.unique {symbol' rhs' : List Char} (h : MarkedFirst rest symbol rhs)
    (h' : MarkedFirst rest symbol' rhs') : symbol = symbol' ∧ rhs = rhs' := by
  have hfound := markAndWord?_eq_some_iff.mpr h
  rw [markAndWord?_eq_some_iff.mpr h'] at hfound
  exact Prod.mk.inj (Option.some.inj hfound).symm

/-- Neither a blank nor a mark carries a number on. -/
theorem Marked.endsNumeral (h : Marked rest symbol rhs) :
    EndsNumeral Text.isDecimalDigit rest := by
  obtain ⟨hmem, -, before, after, hbefore, -, rfl⟩ := h
  refine endsNumeral_blanks_append hbefore fun c hc => ?_
  have hmarks : ∀ s ∈ marks, s.head?.all (fun c =>
      !Text.isDecimalDigit c && c != '.' && c != 'e' && c != 'E') = true := by decide +kernel
  obtain ⟨d, more, rfl, -⟩ := exists_mark hmem
  obtain rfl : d = c := Option.some.inj hc
  simpa [and_assoc] using hmarks _ hmem

/-! ## A left side, a mark and a word -/

/-- The line is a left side of some kind, a mark and a word, cut as given. -/
structure MarkedLine (left : List Char → Prop) (t : List Char) (cut : Cut) : Prop where
  left : left cut.lhs
  split : ∃ rest, t = cut.lhs ++ rest ∧ Marked rest cut.symbol cut.rhs

/-- A cut of a line with two stars where the left side leaves room for them as one mark. -/
def StarsFirst (shape : Cut → Prop) (cut : Cut) : Prop :=
  ∀ word, shape ⟨cut.lhs, ['*', '*'], word⟩ → cut.symbol = ['*', '*']

variable {left : List Char → Prop} {cut : Cut}

/-- What is preferred behind a left side is what is preferred for the line. -/
theorem markedLine_starsFirst_iff :
    MarkedLine left t cut ∧ StarsFirst (MarkedLine left t) cut ↔
      left cut.lhs ∧ ∃ rest, t = cut.lhs ++ rest ∧ MarkedFirst rest cut.symbol cut.rhs := by
  constructor
  · rintro ⟨⟨hleft, rest, ht, hmarked⟩, hstars⟩
    exact ⟨hleft, rest, ht, hmarked, fun word hword => hstars word ⟨hleft, rest, ht, hword⟩⟩
  · rintro ⟨hleft, rest, ht, hmarked, hstars⟩
    refine ⟨⟨hleft, rest, ht, hmarked⟩, ?_⟩
    rintro word ⟨-, rest', ht', hword⟩
    obtain rfl : rest' = rest := List.append_cancel_left (ht'.symm.trans ht)
    exact hstars word hword

/-- A line that can be cut can be cut with two stars preferred, at the same left side. -/
theorem MarkedLine.exists_starsFirst (h : MarkedLine left t cut) :
    ∃ found, found.lhs = cut.lhs ∧ MarkedLine left t found ∧ StarsFirst (MarkedLine left t) found := by
  obtain ⟨hleft, rest, ht, hmarked⟩ := h
  obtain ⟨symbol, rhs, hfirst⟩ := hmarked.exists_first
  exact ⟨⟨cut.lhs, symbol, rhs⟩, rfl, markedLine_starsFirst_iff.mpr ⟨hleft, rest, ht, hfirst⟩⟩

/-! ## A number on the left -/

/-- A number as command lines are cut: an optional sign and a numeral, in decimal digits of any
script. -/
def IsNumberText (s : List Char) : Prop :=
  ∃ (sign : Option Char) (n : Numeral), (∀ c ∈ sign, IsSign c) ∧
    n.WrittenIn Text.isDecimalDigit ∧ s = sign.toList ++ n.text

/-- **A number, a mark and a word are cut where they are put together**, and there is one place only
where this can be. -/
theorem numberCut?_eq_some_iff : numberCut? t = some cut ↔
    MarkedLine IsNumberText t cut ∧ StarsFirst (MarkedLine IsNumberText t) cut := by
  rw [markedLine_starsFirst_iff]
  constructor
  · intro h
    have hsign := splitSign_append t
    have hnumeral := Numeral.split_append Text.isDecimalDigit (splitSign t).2
    unfold numberCut? at h
    cases hsplit : Numeral.split Text.isDecimalDigit (splitSign t).2 with
    | mk n rest =>
    rw [hsplit] at hnumeral
    simp only [hsplit] at h
    split at h
    · cases h
    · rename_i hdigits
      obtain ⟨⟨symbol, rhs⟩, hfound, rfl⟩ := Option.map_eq_some_iff.mp h
      refine ⟨⟨(splitSign t).1, n, isSign_of_splitSign t, writtenIn_of_split hsplit hdigits, rfl⟩,
        rest, ?_, markAndWord?_eq_some_iff.mp hfound⟩
      dsimp only at hnumeral ⊢
      rw [List.append_assoc, hnumeral, hsign]
  · rintro ⟨⟨sign, n, hsign, hn, hlhs⟩, rest, ht, hmarked⟩
    obtain ⟨lhs, symbol, rhs⟩ := cut
    dsimp only at hlhs ht hmarked
    subst hlhs ht
    have hp := isDigitClass_isDecimalDigit
    have hsplit := split_writtenIn hp hn hmarked.marked.endsNumeral
    have hfound := markAndWord?_eq_some_iff.mpr hmarked
    have htext : splitSign (sign.toList ++ n.text ++ rest) = (sign, n.text ++ rest) := by
      rw [List.append_assoc]
      exact splitSign_of_sign hsign (hn.head_not_isSign hp rest)
    simp only [numberCut?, htext, hsplit, hfound]
    rw [if_neg hn.nonempty]
    rfl

/-- No cut is found where the line is no number, mark and word. -/
theorem numberCut?_eq_none_iff :
    numberCut? t = none ↔ ∀ cut, ¬ MarkedLine IsNumberText t cut := by
  constructor
  · intro hnone cut hshape
    obtain ⟨found, -, hfound⟩ := hshape.exists_starsFirst
    rw [numberCut?_eq_some_iff.mpr hfound] at hnone
    cases hnone
  · intro hnone
    refine Option.eq_none_iff_forall_ne_some.mpr fun cut hcut => ?_
    exact hnone cut (numberCut?_eq_some_iff.mp hcut).1

/-! ## Any word on the left -/

/-- A word without its first character is a word or nothing. -/
theorem IsWord.tail {w : List Char} (h : IsWord (c :: w)) (hne : w ≠ []) : IsWord w :=
  ⟨fun d hd => h.solid d (List.mem_cons_of_mem c hd), hne⟩

theorem isWord_singleton (hc : Text.isBlank c = false) : IsWord [c] :=
  ⟨fun _ hd => List.mem_singleton.mp hd ▸ hc, List.cons_ne_nil c []⟩

theorem IsWord.cons {w : List Char} (hc : Text.isBlank c = false) (h : IsWord w) :
    IsWord (c :: w) :=
  ⟨List.forall_mem_cons.mpr ⟨hc, h.solid⟩, List.cons_ne_nil c w⟩

/-- Where the search ends without a cut, no word has a mark and a word behind it. -/
theorem markAndWord?_of_symbolCutFrom?_eq_none {lhs : List Char}
    (h : symbolCutFrom? lhs cs = none) {front : List Char} (hfront : IsWord front)
    (hcs : cs = front ++ rest) : markAndWord? rest = none := by
  induction cs generalizing lhs front with
  | nil => exact absurd (List.append_eq_nil_iff.mp hcs.symm).1 hfront.nonempty
  | cons c cs ih =>
      obtain ⟨d, ds, rfl⟩ := List.exists_cons_of_ne_nil hfront.nonempty
      rw [List.cons_append] at hcs
      obtain ⟨rfl, rfl⟩ := List.cons.inj hcs
      have hc := hfront.solid c List.mem_cons_self
      rw [symbolCutFrom?, hc, if_neg Bool.false_ne_true] at h
      cases hfound : markAndWord? (ds ++ rest) with
      | some found =>
          rw [hfound] at h
          cases h
      | none =>
          rw [hfound] at h
          by_cases hds : ds = []
          · rwa [hds, List.nil_append] at hfound
          · exact ih h (hfront.tail hds) rfl

/-- Where the search ends with a cut, its left side is a word, and the shortest that works. -/
theorem exists_of_symbolCutFrom? {lhs : List Char} {cut : Cut}
    (h : symbolCutFrom? lhs cs = some cut) :
    ∃ front rest, IsWord front ∧ cs = front ++ rest ∧ cut.lhs = lhs ++ front ∧
      markAndWord? rest = some (cut.symbol, cut.rhs) ∧
      ∀ front' rest', IsWord front' → cs = front' ++ rest' → markAndWord? rest' ≠ none →
        front.length ≤ front'.length := by
  induction cs generalizing lhs with
  | nil => cases h
  | cons c cs ih =>
      rw [symbolCutFrom?] at h
      split at h
      · cases h
      rename_i hblank
      have hc : Text.isBlank c = false := eq_false_of_ne_true hblank
      cases hfound : markAndWord? cs with
      | some found =>
          rw [hfound] at h
          cases h
          refine ⟨[c], cs, isWord_singleton hc, rfl, rfl, hfound, fun front' _ hfront' _ _ => ?_⟩
          exact List.length_pos_iff.mpr hfront'.nonempty
      | none =>
          rw [hfound] at h
          obtain ⟨front, rest, hfront, rfl, hlhs, hmark, hshortest⟩ := ih h
          refine ⟨c :: front, rest, .cons hc hfront, rfl, ?_, hmark, ?_⟩
          · rw [hlhs, List.append_assoc, List.singleton_append]
          · intro front' rest' hfront' hcs hother
            obtain ⟨d, ds, rfl⟩ := List.exists_cons_of_ne_nil hfront'.nonempty
            rw [List.cons_append] at hcs
            obtain ⟨rfl, htail⟩ := List.cons.inj hcs
            by_cases hds : ds = []
            · -- the first character alone was tried already
              rw [hds, List.nil_append] at htail
              rw [← htail, hfound] at hother
              exact absurd rfl hother
            · exact Nat.succ_le_succ (hshortest ds rest' (hfront'.tail hds) htail hother)

/-- **A word, a mark and a word are cut at the shortest left side.** -/
theorem symbolCut?_eq_some_iff : symbolCut? t = some cut ↔
    MarkedLine IsWord t cut ∧ StarsFirst (MarkedLine IsWord t) cut ∧
      ∀ other, MarkedLine IsWord t other → cut.lhs.length ≤ other.lhs.length := by
  have hsound {cut : Cut} (h : symbolCut? t = some cut) : (IsWord cut.lhs ∧
      ∃ rest, t = cut.lhs ++ rest ∧ MarkedFirst rest cut.symbol cut.rhs) ∧
      ∀ other, MarkedLine IsWord t other → cut.lhs.length ≤ other.lhs.length := by
    obtain ⟨front, rest, hfront, ht, hlhs, hmark, hshortest⟩ := exists_of_symbolCutFrom? h
    rw [List.nil_append] at hlhs
    rw [← hlhs] at hfront ht hshortest
    refine ⟨⟨hfront, rest, ht, markAndWord?_eq_some_iff.mp hmark⟩, ?_⟩
    rintro other ⟨hword, rest', ht', hmarked⟩
    refine hshortest other.lhs rest' hword ht' ?_
    obtain ⟨symbol, rhs, hfirst⟩ := hmarked.exists_first
    rw [markAndWord?_eq_some_iff.mpr hfirst]
    exact Option.some_ne_none _
  rw [← and_assoc, markedLine_starsFirst_iff]
  refine ⟨hsound, fun ⟨⟨hword, rest, ht, hmarked⟩, hshortest⟩ => ?_⟩
  cases hcut : symbolCut? t with
  | none =>
      have hnone := markAndWord?_of_symbolCutFrom?_eq_none hcut hword ht
      rw [markAndWord?_eq_some_iff.mpr hmarked] at hnone
      cases hnone
  | some found =>
      -- two shortest left sides are the same front of the line
      obtain ⟨⟨hword', rest', ht', hmarked'⟩, hshortest'⟩ := hsound hcut
      have hlength : found.lhs.length = cut.lhs.length :=
        Nat.le_antisymm (hshortest' cut ⟨hword, rest, ht, hmarked.marked⟩)
          (hshortest found ⟨hword', rest', ht', hmarked'.marked⟩)
      obtain ⟨hlhs, rfl⟩ := List.append_inj (ht'.symm.trans ht) hlength
      obtain ⟨hsymbol, hrhs⟩ := hmarked'.unique hmarked
      obtain ⟨lhs, symbol, rhs⟩ := cut
      obtain ⟨lhs', symbol', rhs'⟩ := found
      dsimp only at hlhs hsymbol hrhs
      rw [hlhs, hsymbol, hrhs]

/-- No cut is found where no word has a mark and a word behind it. -/
theorem symbolCut?_eq_none_iff :
    symbolCut? t = none ↔ ∀ cut, ¬ MarkedLine IsWord t cut := by
  constructor
  · rintro hnone cut ⟨hword, rest, ht, hmarked⟩
    obtain ⟨symbol, rhs, hfirst⟩ := hmarked.exists_first
    have hfound := markAndWord?_of_symbolCutFrom?_eq_none hnone hword ht
    rw [markAndWord?_eq_some_iff.mpr hfirst] at hfound
    cases hfound
  · intro hnone
    refine Option.eq_none_iff_forall_ne_some.mpr fun cut hcut => ?_
    exact hnone cut (symbolCut?_eq_some_iff.mp hcut).1

end Line

end PocketCalc

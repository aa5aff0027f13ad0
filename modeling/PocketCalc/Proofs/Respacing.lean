import PocketCalc.Proofs.Blanks
import PocketCalc.Proofs.LongestMatch

/-!
# Blanks between tokens

The tokens of a text stay the same when the text is spaced in another way. Where tokens stand side
by side, each of them is the longest one at its place, with regard to all that follows; where a
blank or the end of the text follows, a word that is a token is the longest one by itself, because
no token has a blank in it. So all that has to be known about a text is how its tokens are spelled.

What is parsed depends on the kinds of the tokens alone, so it stays the same as well; only the
places in a complaint do not.
-/

namespace PocketCalc

open Number

variable {c : Char} {cs rest text behind word : List Char} {words : List (List Char)}
  {position : Nat} {kind : TokenKind} {ks : List TokenKind} {ts : List Token}

/-! ## The characters of a token -/

/-- A character of a token is one of a number, one of a name, or stands in a symbol. -/
theorem TokenText.of_mem (h : TokenText word kind) (hc : c ∈ word) :
    (c.isDigit = true ∨ c ∈ numberMarks) ∨
      (kind = .identifier (String.ofList word) ∧ isNameChar c = true) ∨ (word, kind) ∈ symbols := by
  cases h with
  | number n x written value => exact .inl (written.isDigit_or_mem hc)
  | identifier d ds start more =>
      have hname : ∀ e ∈ d :: ds, isNameChar e = true :=
        List.forall_mem_cons.mpr ⟨Lexeme.isNameChar_of_isNameStart start, more⟩
      exact .inr (.inl ⟨rfl, hname c hc⟩)
  | symbol _ _ mem => exact .inr (.inr mem)

theorem isBlank_eq_false_of_isNameChar (h : isNameChar c = true) : Text.isBlank c = false := by
  rw [Bool.eq_false_iff]
  intro hb
  rcases Bool.or_eq_true_iff.mp h with hc | hc
  · rw [Text.isLetterOrNumeral_eq_false_of_isBlank hb] at hc
    cases hc
  · rw [beq_iff_eq.mp hc] at hb
    cases hb

/-- No token has a blank in it. -/
theorem TokenText.isBlank_eq_false (h : TokenText word kind) (hc : c ∈ word) :
    Text.isBlank c = false := by
  rcases h.of_mem hc with hnumber | ⟨-, hname⟩ | hsymbol
  · exact isBlank_eq_false_of_isDigit_or_mem hnumber
  · exact isBlank_eq_false_of_isNameChar hname
  · have marks : symbols.all (·.1.all (!Text.isBlank ·)) = true := rfl
    simpa using List.all_eq_true.mp (List.all_eq_true.mp marks _ hsymbol) c hc

/-! ## A word at the front of a text -/

/-- A token is the longest one at the front of a text if nothing of what follows goes on with it. -/
theorem TokenText.longestToken (h : TokenText word kind)
    (halone : ∀ more kind', more <+: rest → TokenText (word ++ more) kind' → more = []) :
    LongestToken (word ++ rest) word kind where
  isPrefix := List.prefix_append word rest
  token := h
  longest word' kind' hprefix htoken := by
    rcases List.prefix_or_prefix_of_prefix hprefix (List.prefix_append word rest) with hle | hge
    · exact hle.length_le
    · obtain ⟨more, rfl⟩ := hge
      have hmore : more = [] :=
        halone more kind' ((List.prefix_append_right_inj word).mp hprefix) htoken
      simp [hmore]

/-- **The longest token at the front of a text is its first token.** -/
theorem LongestToken.scansTo (h : LongestToken (word ++ rest) word kind)
    (plain : ¬ RedundantZeros word) (hrest : ScansTo rest ks) :
    ScansTo (word ++ rest) (kind :: ks) := by
  have hfront (position : Nat) : Front position (word ++ rest) (.ok ⟨kind, word, rest⟩) :=
    .token word rest kind h plain
  have hnonblank : ∀ c ∈ word, Text.isBlank c = false := fun c hc => h.token.isBlank_eq_false hc
  obtain ⟨c, cs, hword⟩ := List.exists_cons_of_ne_nil h.token.ne_nil
  rw [hword, List.cons_append] at hfront ⊢
  refine scansTo_lexeme (l := ⟨kind, word, rest⟩) (hnonblank c (hword ▸ List.mem_cons_self))
    (fun position => ?_) hrest
  rw [hword]
  exact (front_first position c (cs ++ rest)).unique (hfront position)

/-- A word that is read as a token of this kind wherever it stands alone. -/
structure Spelling (word : List Char) (kind : TokenKind) : Prop where
  token : TokenText word kind
  plain : ¬ RedundantZeros word

/-- **In front of a blank, and at the end, a word is read as what it spells.** -/
theorem Spelling.scansTo (h : Spelling word kind) (hr : ∀ c ∈ rest.head?, Text.isBlank c = true)
    (hrest : ScansTo rest ks) : ScansTo (word ++ rest) (kind :: ks) := by
  refine (h.token.longestToken fun more kind' hprefix htoken => ?_).scansTo h.plain hrest
  cases more with
  | nil => rfl
  | cons d more =>
      -- a longer token would have the blank in it
      obtain ⟨back, hback⟩ := hprefix
      have hblank : Text.isBlank d = true := hr d (by rw [← hback]; rfl)
      rw [htoken.isBlank_eq_false (List.mem_append_right word List.mem_cons_self)] at hblank
      cases hblank

/-! ## How the tokens of a text are spelled -/

/-- Fronts of one text with as many bytes are the same. -/
theorem eq_of_byteLength_eq {front front' back back' : List Char}
    (h : front ++ back = front' ++ back') (hlength : byteLength front = byteLength front') :
    front = front' ∧ back = back' := by
  have hfront : front = front' := by
    rcases List.append_eq_append_iff.mp h with ⟨more, hmore, -⟩ | ⟨more, hmore, -⟩
    · by_cases hnil : more = []
      · rw [hmore, hnil, List.append_nil]
      · have hpos := byteLength_pos hnil
        rw [hmore, byteLength_append] at hlength
        omega
    · by_cases hnil : more = []
      · rw [hmore, hnil, List.append_nil]
      · have hpos := byteLength_pos hnil
        rw [hmore, byteLength_append] at hlength
        omega
  rw [hfront] at h
  exact ⟨hfront, List.append_cancel_left h⟩

/-- A token spans one word only. -/
theorem Token.Spans.unique {t : Token} {word' : List Char} (h : t.Spans position cs word)
    (h' : t.Spans position cs word') : word = word' := by
  obtain ⟨front, back, hcs, hstart, hstop⟩ := h
  obtain ⟨front', back', hcs', hstart', hstop'⟩ := h'
  rw [hcs, List.append_assoc, List.append_assoc] at hcs'
  obtain ⟨-, hbehind⟩ := eq_of_byteLength_eq hcs' (by omega)
  exact (eq_of_byteLength_eq hbehind (by omega)).1

/-- What is taken off the front of a text spells its kind. -/
theorem Front.spelling {l : Lexeme} (h : Front position cs (.ok l)) :
    cs = l.spelling ++ l.rest ∧ Spelling l.spelling l.kind := by
  cases h with
  | token word rest kind longest plain => exact ⟨rfl, longest.token, plain⟩

/-- The words that the tokens of a text span spell them. -/
theorem ScansAs.exists_words {r : Except SyntaxFault (List Token)} (h : ScansAs position cs r) :
    ∀ ts, r = .ok ts → ∃ words, List.Forall₂ (Token.Spans position cs) ts words ∧
      List.Forall₂ Spelling words (ts.map (·.kind)) := by
  induction h with
  | stop position =>
      intro ts hts
      cases hts
      exact ⟨[], .nil, .nil⟩
  | blank position c cs r isBlank more ih =>
      intro ts hts
      obtain ⟨words, hspans, hspell⟩ := ih ts hts
      exact ⟨words, hspans.imp fun t word hspan => hspan.behind [c], hspell⟩
  | fault position c cs fault isBlank front => exact nofun
  | token position c cs l r isBlank front more ih =>
      intro ts hts
      cases r with
      | error fault => cases hts
      | ok behind =>
          cases hts
          obtain ⟨words, hspans, hspell⟩ := ih behind rfl
          obtain ⟨htext, hspelling⟩ := front.spelling
          have hspan : Token.Spans position (c :: cs)
              ⟨l.kind, position, position + byteLength l.spelling⟩ l.spelling :=
            ⟨[], l.rest, htext, rfl, rfl⟩
          have hbehind : List.Forall₂ (Token.Spans position (c :: cs)) behind words :=
            htext ▸ hspans.imp fun t word h => h.behind l.spelling
          exact ⟨l.spelling :: words, .cons hspan hbehind, .cons hspelling hspell⟩

/-! ## Texts with the same words -/

/-- The words stand one behind the other, with blanks between any two of them. -/
inductive Spaced : List (List Char) → List Char → Prop where
  | none : Spaced [] []
  | one (word : List Char) : Spaced [word] word
  | more (word gap next text : List Char) (words : List (List Char))
      (isBlank : ∀ c ∈ gap, Text.isBlank c = true) (nonempty : gap ≠ [])
      (spaced : Spaced (next :: words) text) :
      Spaced (word :: next :: words) (word ++ (gap ++ text))

/-- The text consists of these words in this order, with blanks between any two of them, and at will
in front of them and behind them. -/
def ConsistsOf (words : List (List Char)) (cs : List Char) : Prop :=
  ∃ before text behind, (∀ c ∈ before, Text.isBlank c = true) ∧
    (∀ c ∈ behind, Text.isBlank c = true) ∧ Spaced words text ∧ cs = before ++ (text ++ behind)

/-- Words that are spaced are read as what each of them spells. -/
theorem Spaced.scansTo (h : Spaced words text) (hspell : List.Forall₂ Spelling words ks)
    (hbehind : ∀ c ∈ behind, Text.isBlank c = true) : ScansTo (text ++ behind) ks := by
  have hend : ScansTo behind [] := by
    have := scansTo_blanks hbehind scansTo_nil
    rwa [List.append_nil] at this
  induction h generalizing ks with
  | none =>
      cases hspell
      exact hend
  | one word =>
      cases hspell with
      | cons hword hnone =>
          cases hnone
          exact hword.scansTo (fun c hc => hbehind c (List.mem_of_head? hc)) hend
  | more word gap next text words isBlank nonempty spaced ih =>
      cases hspell with
      | cons hword hmore =>
          obtain ⟨d, ds, rfl⟩ := List.exists_cons_of_ne_nil nonempty
          rw [List.append_assoc, List.append_assoc]
          refine hword.scansTo (fun c hc => ?_) (scansTo_blanks isBlank (ih hmore))
          cases hc
          exact isBlank d List.mem_cons_self

theorem ConsistsOf.scansTo (h : ConsistsOf words cs) (hspell : List.Forall₂ Spelling words ks) :
    ScansTo cs ks := by
  obtain ⟨before, text, behind, hbefore, hbehind, hspaced, rfl⟩ := h
  exact scansTo_blanks hbefore (hspaced.scansTo hspell hbehind)

/-! ## What is parsed -/

/-- What is read from tokens depends on their kinds alone. -/
theorem Expr.ofTokens_of_kinds {ts' : List Token} {e : Expr} (h : Expr.ofTokens ts = .ok e)
    (hkinds : ts'.map (·.kind) = ts.map (·.kind)) : Expr.ofTokens ts' = .ok e := by
  obtain ⟨d, htokens, hdepth, rfl⟩ := Grammar.derivation_of_ofTokens h
  exact Grammar.ofTokens_of_derivation d (htokens.trans hkinds.symm) hdepth

/-- **Blanks between tokens do not matter.** The tokens of a text are spelled by words of it, and
every text that consists of these words has tokens of the same kinds. It is parsed as the same tree,
or neither of them is parsed. -/
theorem scan_of_consistsOf {cs : List Char} {ts : List Token} (h : Token.scan cs = .ok ts) :
    (∃ words, List.Forall₂ (Token.Spans 0 cs) ts words) ∧
    ∀ words cs', List.Forall₂ (Token.Spans 0 cs) ts words → ConsistsOf words cs' →
      (∃ ts', Token.scan cs' = .ok ts' ∧ ts'.map (·.kind) = ts.map (·.kind)) ∧
      ((∃ e, Expr.parse cs = .ok e ∧ Expr.parse cs' = .ok e) ∨
        ∃ fault fault', Expr.parse cs = .error fault ∧ Expr.parse cs' = .error fault') := by
  obtain ⟨spelled, hspelled, hspell⟩ := (scansAs_scanFrom 0 cs).exists_words ts h
  refine ⟨⟨spelled, hspelled⟩, fun words cs' hwords hcs' => ?_⟩
  have hsame : words = spelled :=
    List.right_unique_forall₂' (fun _ _ _ h h' => h.unique h') hwords hspelled
  obtain ⟨ts', hts', hkinds⟩ := hcs'.scansTo (hsame ▸ hspell) 0
  have hparse : Expr.parse cs = Expr.ofTokens ts := by rw [Expr.parse, h]; rfl
  have hparse' : Expr.parse cs' = Expr.ofTokens ts' := by rw [Expr.parse, Token.scan, hts']; rfl
  refine ⟨⟨ts', hts', hkinds⟩, ?_⟩
  rw [hparse, hparse']
  cases hread : Expr.ofTokens ts with
  | ok e => exact .inl ⟨e, rfl, Expr.ofTokens_of_kinds hread hkinds⟩
  | error fault =>
      cases hread' : Expr.ofTokens ts' with
      | error fault' => exact .inr ⟨fault, fault', rfl, rfl⟩
      | ok e =>
          rw [Expr.ofTokens_of_kinds hread' hkinds.symm] at hread
          cases hread

/-- A letter that starts no exponent stays a name, and of three stars the first two stay one. -/
theorem scan_of_consistsOf_stars :
    Token.scan "2e***3".toList = .ok [⟨.number 2, 0, 1⟩, ⟨.identifier "e", 1, 2⟩, ⟨.power, 2, 4⟩,
      ⟨.star, 4, 5⟩, ⟨.number 3, 5, 6⟩] ∧
    ConsistsOf [['2'], ['e'], ['*', '*'], ['*'], ['3']] " 2 e\t** * 3".toList ∧
    ∃ ts', Token.scan " 2 e\t** * 3".toList = .ok ts' ∧
      ts'.map (·.kind) = [.number 2, .identifier "e", .power, .star, .number 3] := by
  have hscan : Token.scan "2e***3".toList = .ok [⟨.number 2, 0, 1⟩, ⟨.identifier "e", 1, 2⟩,
      ⟨.power, 2, 4⟩, ⟨.star, 4, 5⟩, ⟨.number 3, 5, 6⟩] := by
    decide +kernel
  have hspans : List.Forall₂ (Token.Spans 0 "2e***3".toList) [⟨.number 2, 0, 1⟩,
      ⟨.identifier "e", 1, 2⟩, ⟨.power, 2, 4⟩, ⟨.star, 4, 5⟩, ⟨.number 3, 5, 6⟩]
      [['2'], ['e'], ['*', '*'], ['*'], ['3']] :=
    .cons ⟨"".toList, "e***3".toList, rfl, rfl, rfl⟩ <|
    .cons ⟨"2".toList, "***3".toList, rfl, rfl, rfl⟩ <|
    .cons ⟨"2e".toList, "*3".toList, rfl, rfl, rfl⟩ <|
    .cons ⟨"2e**".toList, "3".toList, rfl, rfl, rfl⟩ <|
    .cons ⟨"2e***".toList, "".toList, rfl, rfl, rfl⟩ .nil
  have hgap : ∀ c ∈ [' '], Text.isBlank c = true := List.all_eq_true.mp rfl
  have htab : ∀ c ∈ ['\t'], Text.isBlank c = true := List.all_eq_true.mp rfl
  have hne (c : Char) : [c] ≠ [] := List.cons_ne_nil c []
  have hspaced : Spaced [['2'], ['e'], ['*', '*'], ['*'], ['3']] "2 e\t** * 3".toList :=
    .more ['2'] [' '] _ _ _ hgap (hne ' ') <| .more ['e'] ['\t'] _ _ _ htab (hne '\t') <|
    .more ['*', '*'] [' '] _ _ _ hgap (hne ' ') <| .more ['*'] [' '] _ _ _ hgap (hne ' ') <|
    .one ['3']
  have hconsists : ConsistsOf [['2'], ['e'], ['*', '*'], ['*'], ['3']] " 2 e\t** * 3".toList :=
    ⟨[' '], _, [], hgap, List.forall_mem_nil _, hspaced, rfl⟩
  exact ⟨hscan, hconsists, ((scan_of_consistsOf hscan).2 _ _ hspans hconsists).1⟩

end PocketCalc

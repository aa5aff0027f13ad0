import PocketCalc.Proofs.Concatenation
import PocketCalc.Proofs.TokenLanguage

/-!
# The scan takes the longest token at every place

`ScansAs` says what a scan from the left is: blanks are skipped, and at any other place stands what
`Front` tells. The scan gives that and nothing else, in front of any text and from any position.

Where it reaches the end, its tokens lay the text out. They stand one behind the other, each spells
its own kind, and what no token spans is blank.
-/

namespace PocketCalc

open Number

variable {c : Char} {cs rest word : List Char} {position : Nat} {ts : List Token}

/-! ## A scan from the left -/

/-- A text is scanned from the left: either into tokens up to its end, or up to the first place
where a fault stands. -/
inductive ScansAs : Nat → List Char → Except SyntaxFault (List Token) → Prop where
  | stop (position : Nat) : ScansAs position [] (.ok [])
  | blank (position : Nat) (c : Char) (cs : List Char) (r : Except SyntaxFault (List Token))
      (isBlank : Text.isBlank c = true) (more : ScansAs (position + c.utf8Size) cs r) :
      ScansAs position (c :: cs) r
  | fault (position : Nat) (c : Char) (cs : List Char) (fault : SyntaxFault)
      (isBlank : Text.isBlank c = false) (front : Front position (c :: cs) (.error fault)) :
      ScansAs position (c :: cs) (.error fault)
  | token (position : Nat) (c : Char) (cs : List Char) (l : Lexeme)
      (r : Except SyntaxFault (List Token)) (isBlank : Text.isBlank c = false)
      (front : Front position (c :: cs) (.ok l))
      (more : ScansAs (position + byteLength l.spelling) l.rest r) :
      ScansAs position (c :: cs)
        (r.map (⟨l.kind, position, position + byteLength l.spelling⟩ :: ·))

theorem ScansAs.unique {r r' : Except SyntaxFault (List Token)} (h : ScansAs position cs r)
    (h' : ScansAs position cs r') : r = r' := by
  induction h generalizing r' with
  | stop position => cases h'; rfl
  | blank position c cs r isBlank more ih =>
      cases h' with
      | blank _ _ _ _ _ more' => exact ih more'
      | fault _ _ _ _ isBlank' => simp [isBlank] at isBlank'
      | token _ _ _ _ _ isBlank' => simp [isBlank] at isBlank'
  | fault position c cs fault isBlank front =>
      cases h' with
      | blank _ _ _ _ isBlank' => simp [isBlank] at isBlank'
      | fault _ _ _ fault' _ front' => cases front.unique front'; rfl
      | token _ _ _ l _ _ front' => cases front.unique front'
  | token position c cs l r isBlank front more ih =>
      cases h' with
      | blank _ _ _ _ isBlank' => simp [isBlank] at isBlank'
      | fault _ _ _ fault' _ front' => cases front.unique front'
      | token _ _ _ l' r'' _ front' more' =>
          cases front.unique front'
          rw [ih more']

/-- The scan goes through a text from the left. -/
theorem scansAs_scanFrom (position : Nat) (cs : List Char) :
    ScansAs position cs (Token.scanFrom position cs) := by
  fun_induction Token.scanFrom position cs with
  | case1 position => exact .stop position
  | case2 position c cs hblank ih => exact .blank position c cs _ hblank ih
  | case3 position c cs hblank fault hfirst =>
      have hfront := front_first position c cs
      rw [hfirst] at hfront
      exact .fault position c cs fault (eq_false_of_ne_true hblank) hfront
  | case4 position c cs hblank l hfirst hlength stop ih =>
      have hfront := front_first position c cs
      rw [hfirst] at hfront
      exact .token position c cs l _ (eq_false_of_ne_true hblank) hfront ih

theorem scanFrom_eq_iff {r : Except SyntaxFault (List Token)} :
    Token.scanFrom position cs = r ↔ ScansAs position cs r := by
  constructor
  · rintro rfl
    exact scansAs_scanFrom position cs
  · exact (scansAs_scanFrom position cs).unique

/-! ## The tokens lay the text out -/

theorem byteLength_append (cs ds : List Char) :
    byteLength (cs ++ ds) = byteLength cs + byteLength ds := by
  induction cs with
  | nil => exact (Nat.zero_add _).symm
  | cons c cs ih => rw [List.cons_append, byteLength, byteLength, ih, Nat.add_assoc]

theorem byteLength_pos (h : word ≠ []) : 0 < byteLength word := by
  cases word with
  | nil => exact absurd rfl h
  | cons c cs => exact Nat.add_pos_left c.utf8Size_pos _

/-- A front that is no shorter than another one goes on from it. -/
theorem exists_append_of_byteLength_le {front back : List Char}
    (h : word ++ rest = front ++ c :: back) (hle : byteLength word ≤ byteLength front) :
    ∃ front', front = word ++ front' := by
  rcases List.append_eq_append_iff.mp h with ⟨front', hfront', -⟩ | ⟨more, hword, -⟩
  · exact ⟨front', hfront'⟩
  cases more with
  | nil => exact ⟨[], by rw [hword, List.append_nil, List.append_nil]⟩
  | cons d more =>
      have hpos := byteLength_pos (List.cons_ne_nil d more)
      rw [hword, byteLength_append] at hle
      omega

/-- A token spans this word of a text whose first byte is at `position`, and no character in
part. -/
def Token.Spans (position : Nat) (cs : List Char) (t : Token) (word : List Char) : Prop :=
  ∃ front back, cs = front ++ word ++ back ∧ t.start = position + byteLength front ∧
    t.stop = t.start + byteLength word

/-- The tokens lay out a text whose first byte is at `position`. -/
structure LaysOut (position : Nat) (cs : List Char) (ts : List Token) : Prop where
  /-- Every token has the kind that its span spells. -/
  spells : ∀ t ∈ ts, ∃ word, t.Spans position cs word ∧ TokenText word t.kind
  nonempty : ∀ t ∈ ts, t.start < t.stop
  inOrder : ts.Pairwise fun t t' => t.stop ≤ t'.start
  /-- A character that stands in no span is blank. -/
  blank : ∀ front c back, cs = front ++ c :: back →
    (∀ t ∈ ts, position + byteLength front < t.start ∨ t.stop ≤ position + byteLength front) →
    Text.isBlank c = true

/-- What stands behind a front of the text stands behind it as part of the whole text, too. -/
theorem Token.Spans.behind {t : Token} (front : List Char)
    (h : t.Spans (position + byteLength front) cs word) : t.Spans position (front ++ cs) word := by
  obtain ⟨before, back, hcs, hstart, hstop⟩ := h
  refine ⟨front ++ before, back, by rw [hcs]; simp only [List.append_assoc], ?_, hstop⟩
  rw [hstart, byteLength_append, Nat.add_assoc]

theorem Token.Spans.position_le {t : Token} (h : t.Spans position cs word) :
    position ≤ t.start := by
  obtain ⟨front, back, -, hstart, -⟩ := h
  exact hstart ▸ Nat.le_add_right _ _

namespace LaysOut

theorem stop (position : Nat) : LaysOut position [] [] where
  spells := nofun
  nonempty := nofun
  inOrder := .nil
  blank _ _ _ h := absurd h.symm (List.append_ne_nil_of_right_ne_nil _ nofun)

theorem skip (hc : Text.isBlank c = true) (h : LaysOut (position + c.utf8Size) cs ts) :
    LaysOut position (c :: cs) ts where
  spells t ht := by
    obtain ⟨word, hspan, htext⟩ := h.spells t ht
    exact ⟨word, hspan.behind [c], htext⟩
  nonempty := h.nonempty
  inOrder := h.inOrder
  blank front d back hcs houtside := by
    cases front with
    | nil =>
        cases hcs
        exact hc
    | cons _ front =>
        obtain ⟨rfl, htail⟩ := List.cons.inj hcs
        refine h.blank front d back htail fun t ht => ?_
        rw [Nat.add_assoc]
        exact houtside t ht

theorem take {kind : TokenKind} (ht : TokenText word kind)
    (h : LaysOut (position + byteLength word) rest ts) :
    LaysOut position (word ++ rest) (⟨kind, position, position + byteLength word⟩ :: ts) where
  spells := by
    refine List.forall_mem_cons.mpr ⟨⟨word, ⟨[], rest, rfl, rfl, rfl⟩, ht⟩, fun t hmem => ?_⟩
    obtain ⟨word', hspan, htext⟩ := h.spells t hmem
    exact ⟨word', hspan.behind word, htext⟩
  nonempty := List.forall_mem_cons.mpr
    ⟨Nat.lt_add_of_pos_right (byteLength_pos ht.ne_nil), h.nonempty⟩
  inOrder := by
    refine .cons (fun t hmem => ?_) h.inOrder
    obtain ⟨word', hspan, -⟩ := h.spells t hmem
    exact hspan.position_le
  blank front c back hcs houtside := by
    obtain ⟨hhead, htail⟩ := List.forall_mem_cons.mp houtside
    dsimp only at hhead
    obtain ⟨front', rfl⟩ := exists_append_of_byteLength_le hcs (by omega)
    rw [List.append_assoc] at hcs
    refine h.blank front' c back (List.append_cancel_left hcs) fun t hmem => ?_
    rw [Nat.add_assoc, ← byteLength_append]
    exact htail t hmem

end LaysOut

theorem Front.longest {l : Lexeme} (h : Front position cs (.ok l)) :
    cs = l.spelling ++ l.rest ∧ LongestToken cs l.spelling l.kind := by
  cases h with
  | token word rest kind longest plain => exact ⟨rfl, longest⟩

/-- **The tokens of a text lay it out.** -/
theorem ScansAs.laysOut {r : Except SyntaxFault (List Token)} (h : ScansAs position cs r) :
    ∀ ts, r = .ok ts → LaysOut position cs ts := by
  induction h with
  | stop position =>
      rintro _ ⟨⟩
      exact .stop position
  | blank position c cs r isBlank more ih => exact fun ts hts => (ih ts hts).skip isBlank
  | fault position c cs fault isBlank front => exact nofun
  | token position c cs l r isBlank front more ih =>
      intro ts hts
      cases r with
      | error fault => cases hts
      | ok behind =>
          cases hts
          obtain ⟨htext, hlongest⟩ := front.longest
          rw [htext]
          exact (ih behind rfl).take hlongest.token

/-! ## What the scan refuses -/

/-- The faults of a text that is not cut into tokens. -/
inductive SyntaxFault.OfScan : SyntaxFault → Prop where
  | lonePoint (position : Nat) : OfScan (.lonePoint position)
  | leadingZeros (literal : String) : OfScan (.leadingZeros literal)
  | unexpectedCharacter (c : Char) (position : Nat) : OfScan (.unexpectedCharacter c position)

theorem Front.ofScan {fault : SyntaxFault} (h : Front position cs (.error fault)) :
    fault.OfScan := by
  cases h with
  | leadingZeros word rest kind longest redundant => exact .leadingZeros _
  | lonePoint cs none => exact .lonePoint _
  | unexpectedCharacter c cs none => exact .unexpectedCharacter _ _

theorem ScansAs.ofScan {r : Except SyntaxFault (List Token)} (h : ScansAs position cs r) :
    ∀ fault, r = .error fault → fault.OfScan := by
  induction h with
  | stop position => exact nofun
  | blank position c cs r isBlank more ih => exact ih
  | fault position c cs fault isBlank front =>
      rintro _ ⟨⟩
      exact front.ofScan
  | token position c cs l r isBlank front more ih =>
      intro fault hfault
      cases r with
      | ok behind => cases hfault
      | error fault' =>
          cases hfault
          exact ih fault rfl

theorem head?_toList_append {s : String} (h : s.toList.head? = some c) (t : String) :
    (s ++ t).toList.head? = some c := by
  rw [String.toList_append, List.head?_append, h, Option.some_or]

/-- A numeral is never refused for its value. -/
theorem SyntaxFault.OfScan.message_ne {fault : SyntaxFault} (h : fault.OfScan) (literal : String) :
    fault.message ≠ "invalid number `" ++ literal ++ "`" := by
  intro hm
  -- the first letter of the message tells them apart
  have hinvalid : fault.message.toList.head? = some 'i' := by
    rw [hm]
    exact head?_toList_append (head?_toList_append (by decide) _) _
  have hother : fault.message.toList.head? = some 'l' ∨ fault.message.toList.head? = some 'u' := by
    cases h with
    | lonePoint position => exact .inl (head?_toList_append (by decide) _)
    | leadingZeros literal =>
        exact .inl (head?_toList_append (head?_toList_append (by decide) _) _)
    | unexpectedCharacter c position =>
        have hstart : "unexpected character `".toList.head? = some 'u' := by decide
        exact .inr (head?_toList_append (head?_toList_append (head?_toList_append hstart _) _) _)
  rw [hinvalid] at hother
  rcases hother with h | h
  · cases h
  · cases h

/-- A number that is a token is none below zero, and a number to every reader of one. -/
theorem TokenText.of_number {x : Float} (h : TokenText word (.number x)) :
    (x.isNaN = false ∧ isNegative x = false ∧ ¬ x < 0) ∧
      ∃ operand, Operand.readNumber? word = some operand ∧ operand.value = .ok x := by
  obtain ⟨c, cs, rfl⟩ := List.exists_cons_of_ne_nil h.ne_nil
  generalize hkind : TokenKind.number x = kind at h
  generalize hword : c :: cs = word at h
  cases h with
  | number n x' written value =>
      cases hkind
      obtain ⟨hnan, hsign⟩ := value.isNaN_eq_false
      refine ⟨⟨hnan, value.notNegative, hsign⟩, ?_⟩
      rw [value.unique (roundsToDouble_toFloat n.decimal)]
      exact exists_readNumber? written
  | identifier d ds start more => cases hkind
  | symbol _ _ mem =>
      have hsymbols : ∀ s ∈ symbols, ∀ x, s.2 ≠ .number x := by simp [symbols]
      exact absurd hkind.symm (hsymbols _ mem x)

/-- **The scan accepts the language of tokens by longest match, and loses nothing.** It gives what a
scan from the left is, tokens or the first fault, and nothing else. Tokens lay out the text, and
the numbers among them are zero or more. A fault is never about the value of a numeral, because
what is taken for one is a number to the reader of operands, too. -/
theorem scan_spec (cs : List Char) :
    (∀ r, Token.scan cs = r ↔ ScansAs 0 cs r) ∧
    (∀ ts, Token.scan cs = .ok ts → LaysOut 0 cs ts ∧ ∀ t ∈ ts, ∀ x, t.kind = .number x →
      x.isNaN = false ∧ isNegative x = false ∧ ¬ x < 0) ∧
    (∀ fault, Token.scan cs = .error fault → fault.OfScan ∧
      ∀ literal, fault.message ≠ "invalid number `" ++ literal ++ "`") ∧
    (∀ word x, TokenText word (.number x) →
      ∃ operand, Operand.readNumber? word = some operand ∧ operand.value = .ok x) := by
  have hscan : ScansAs 0 cs (Token.scan cs) := scansAs_scanFrom 0 cs
  refine ⟨fun r => scanFrom_eq_iff, fun ts hts => ?_, fun fault hfault => ?_,
    fun word x htext => htext.of_number.2⟩
  · have hlaid := hscan.laysOut ts hts
    refine ⟨hlaid, fun t ht x hx => ?_⟩
    obtain ⟨word, -, htext⟩ := hlaid.spells t ht
    rw [hx] at htext
    exact htext.of_number.1
  · have hof := hscan.ofScan fault hfault
    exact ⟨hof, hof.message_ne⟩

/-- The second letter of an exponent starts a name, and zeros in front of a digit are a fault. -/
theorem scan_spec_exponent :
    (∃ ts, Token.scan "1e+5e**".toList = .ok ts ∧
      ts = [⟨.number 100000, 0, 4⟩, ⟨.identifier "e", 4, 5⟩, ⟨.power, 5, 7⟩] ∧
      ScansAs 0 "1e+5e**".toList (.ok ts) ∧ LaysOut 0 "1e+5e**".toList ts ∧
      (100000 : Float).isNaN = false ∧ isNegative 100000 = false ∧ ¬ (100000 : Float) < 0) ∧
    (Token.scan "1 + 007".toList = .error (.leadingZeros "007") ∧
      ScansAs 0 "1 + 007".toList (.error (.leadingZeros "007")) ∧
      (SyntaxFault.leadingZeros "007").message ≠ "invalid number `" ++ "007" ++ "`") ∧
    ∃ operand, Operand.readNumber? ".5".toList = some operand ∧
      operand.value = .ok (Decimal.toFloat false ⟨5, -1⟩) := by
  obtain ⟨hiff, hok, -, hnumber⟩ := scan_spec "1e+5e**".toList
  obtain ⟨hiff', -, herror, -⟩ := scan_spec "1 + 007".toList
  have hscan : Token.scan "1e+5e**".toList =
      .ok [⟨.number 100000, 0, 4⟩, ⟨.identifier "e", 4, 5⟩, ⟨.power, 5, 7⟩] := by
    decide +kernel
  have hscan' : Token.scan "1 + 007".toList = .error (.leadingZeros "007") := by
    decide +kernel
  have hhalf : (⟨[], some ['5'], none⟩ : Numeral).Written :=
    Numeral.written_of_digits ⟨List.all_eq_true.mp rfl, List.cons_ne_nil _ _⟩ rfl
  obtain ⟨hlaid, hnumbers⟩ := hok _ hscan
  exact ⟨⟨_, hscan, rfl, (hiff _).mp hscan, hlaid, hnumbers _ List.mem_cons_self _ rfl⟩,
    ⟨hscan', (hiff' _).mp hscan', (herror _ hscan').2 "007"⟩,
    hnumber ".5".toList _ (tokenText_number hhalf)⟩

end PocketCalc

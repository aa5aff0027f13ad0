import PocketCalc.Proofs.Scanning

/-!
# A text in front of another one

What a text is cut into stays the same when another text is put behind it, as long as the first
character of that one carries no token on. So the tokens of both together are the tokens of the one
and of the other, and the same goes for the stars in place of each `pow`.

Nothing has to be known about the text in front but that it is cut at all: whatever its last token
is, it ends where the text ends.
-/

namespace PocketCalc

open Number

/-- A character that no token goes on with, whatever token stands in front of it. -/
structure EndsToken (c : Char) : Prop where
  notName : isNameChar c = false
  notPoint : c ≠ '.'
  /-- A sign could go on with an exponent. -/
  notSign : ¬ IsSign c
  notStar : c ≠ '*'

/-- A text whose first character, if it has one, carries no token on. -/
def Apart (rest : List Char) : Prop := ∀ c ∈ rest.head?, EndsToken c

variable {cs rest : List Char} {c : Char}

theorem isNameChar_of_isDigit (h : c.isDigit = true) : isNameChar c = true := by
  have hc : c.toNat < 0x80 := by
    simp only [Char.isDigit, Bool.and_eq_true, decide_eq_true_eq, UInt32.le_iff_toNat_le] at h
    have h2 : c.val.toNat ≤ 57 := h.2
    exact Nat.lt_of_le_of_lt h2 (by decide)
  simp [isNameChar, Text.isLetterOrNumeral, hc, Char.isAlphanum, h]

theorem EndsToken.isDigit_eq_false (h : EndsToken c) : c.isDigit = false := by
  rw [Bool.eq_false_iff]
  intro hd
  have hn := h.notName
  rw [isNameChar_of_isDigit hd] at hn
  cases hn

theorem EndsToken.ne_of_isNameChar {d : Char} (h : EndsToken c) (hd : isNameChar d = true) :
    c ≠ d := by
  rintro rfl
  rw [h.notName] at hd
  cases hd

theorem Apart.endsNumeral (h : Apart rest) : EndsNumeral Char.isDigit rest :=
  fun c hc => ⟨(h c hc).isDigit_eq_false, (h c hc).notPoint, (h c hc).ne_of_isNameChar rfl,
    (h c hc).ne_of_isNameChar rfl⟩

/-! ## Numerals -/

/-- What a character class takes off a text ends where the text ends. -/
theorem takeWhile_dropWhile_append {p : Char → Bool} (hr : ∀ c ∈ rest.head?, p c = false)
    (cs : List Char) :
    (cs ++ rest).takeWhile p = cs.takeWhile p ∧
      (cs ++ rest).dropWhile p = cs.dropWhile p ++ rest := by
  have hfront : ∀ c ∈ cs.takeWhile p, p c = true := List.all_eq_true.mp List.all_takeWhile
  have hhead : ∀ c ∈ (cs.dropWhile p ++ rest).head?, p c = false := by
    intro c hc
    cases hd : cs.dropWhile p with
    | nil => exact hr c (by rwa [hd] at hc)
    | cons d ds =>
        have hnot := List.head?_dropWhile_not p cs
        rw [hd] at hc hnot
        obtain rfl : d = c := Option.some.inj hc
        simpa using hnot
  have hsplit : cs ++ rest = cs.takeWhile p ++ (cs.dropWhile p ++ rest) := by
    rw [← List.append_assoc, List.takeWhile_append_dropWhile]
  rw [hsplit]
  exact takeWhile_dropWhile_front hfront hhead

theorem splitSign_append_apart (hr : Apart rest) (cs : List Char) :
    splitSign (cs ++ rest) = ((splitSign cs).1, (splitSign cs).2 ++ rest) := by
  cases cs with
  | nil => exact splitSign_of_head fun c hc => (hr c hc).notSign
  | cons c cs =>
      by_cases hc : IsSign c
      · rcases hc with rfl | rfl
        · rfl
        · rfl
      · have hhead : ∀ ds : List Char, ∀ d ∈ (c :: ds).head?, ¬ IsSign d := by
          intro ds d hd
          cases hd
          exact hc
        rw [List.cons_append, splitSign_of_head (hhead _), splitSign_of_head (hhead _),
          List.cons_append]

theorem split?_append_apart (hr : Apart rest) (cs : List Char) :
    Exponent.split? Char.isDigit (cs ++ rest) =
      (Exponent.split? Char.isDigit cs).map fun found => (found.1, found.2 ++ rest) := by
  cases cs with
  | nil => exact split?_eq_none hr.endsNumeral
  | cons mark cs =>
      have hdigit : ∀ c ∈ rest.head?, c.isDigit = false := fun c hc => (hr c hc).isDigit_eq_false
      obtain ⟨htake, hdrop⟩ := takeWhile_dropWhile_append hdigit (splitSign cs).2
      simp only [List.cons_append, Exponent.split?, splitSign_append_apart hr, htake, hdrop]
      split
      · rfl
      · rfl

theorem splitFraction_append_apart (hr : Apart rest) (cs : List Char) :
    Numeral.splitFraction Char.isDigit (cs ++ rest) =
      ((Numeral.splitFraction Char.isDigit cs).1,
        (Numeral.splitFraction Char.isDigit cs).2 ++ rest) := by
  have hdigit : ∀ c ∈ rest.head?, c.isDigit = false := fun c hc => (hr c hc).isDigit_eq_false
  have hnone : ∀ ds : List Char, (∀ c ∈ ds.head?, c ≠ '.') →
      Numeral.splitFraction Char.isDigit ds = (none, ds) := by
    intro ds hds
    unfold Numeral.splitFraction
    split
    · exact absurd rfl (hds '.' rfl)
    · rfl
  cases cs with
  | nil => exact hnone rest fun c hc => (hr c hc).notPoint
  | cons c cs =>
      by_cases hc : c = '.'
      · subst hc
        obtain ⟨htake, hdrop⟩ := takeWhile_dropWhile_append hdigit cs
        show (some ((cs ++ rest).takeWhile Char.isDigit), (cs ++ rest).dropWhile Char.isDigit) = _
        rw [htake, hdrop]
        rfl
      · have hhead : ∀ ds : List Char, ∀ d ∈ (c :: ds).head?, d ≠ '.' := by
          intro ds d hd
          cases hd
          exact hc
        rw [List.cons_append, hnone _ (hhead _), hnone _ (hhead _), List.cons_append]

/-- **The numeral at the front of a text ends where the text ends.** -/
theorem split_append_apart (hr : Apart rest) (cs : List Char) :
    Numeral.split Char.isDigit (cs ++ rest) =
      ((Numeral.split Char.isDigit cs).1, (Numeral.split Char.isDigit cs).2 ++ rest) := by
  have hdigit : ∀ c ∈ rest.head?, c.isDigit = false := fun c hc => (hr c hc).isDigit_eq_false
  obtain ⟨htake, hdrop⟩ := takeWhile_dropWhile_append hdigit cs
  unfold Numeral.split
  rw [htake, hdrop, splitFraction_append_apart hr]
  simp only [split?_append_apart hr]
  cases Exponent.split? Char.isDigit
      (Numeral.splitFraction Char.isDigit (cs.dropWhile Char.isDigit)).2 with
  | none => rfl
  | some found => rfl

/-! ## Lexemes -/

namespace Lexeme

/-- The lexeme in front of more text. -/
def before (l : Lexeme) (rest : List Char) : Lexeme := { l with rest := l.rest ++ rest }

variable {l : Lexeme} {position : Nat}

theorem number_append_apart (hr : Apart rest) (h : number position cs = .ok l) (position' : Nat) :
    number position' (cs ++ rest) = .ok (l.before rest) := by
  simp only [number, split_append_apart hr] at h ⊢
  split at h
  · cases h
  split at h
  · cases h
  rename_i hd hz
  cases h
  rw [if_neg hd, if_neg hz]
  rfl

theorem identifier_append_apart (hr : Apart rest) (cs : List Char) :
    identifier (cs ++ rest) = (identifier cs).before rest := by
  obtain ⟨htake, hdrop⟩ := takeWhile_dropWhile_append (fun c hc => (hr c hc).notName) cs
  rw [identifier, htake, hdrop]
  rfl

theorem symbol?_append_apart (hr : Apart rest) (h : symbol? cs = some l) :
    symbol? (cs ++ rest) = some (l.before rest) := by
  unfold symbol? at h
  split at h
  · cases h; rfl
  · cases h; rfl
  · cases h; rfl
  · -- a star alone stays alone, because no other one stands at the front of what follows
    rename_i ds hstar
    cases h
    rw [List.cons_append, symbol?]
    · rfl
    · intro more hmore
      cases ds with
      | nil => exact (hr '*' (by rw [show rest = _ from hmore]; rfl)).notStar rfl
      | cons d ds =>
          obtain ⟨rfl, -⟩ := List.cons.inj hmore
          exact hstar ds rfl
  · cases h; rfl
  · cases h; rfl
  · cases h; rfl
  · cases h; rfl
  · cases h

/-- **The first lexeme of a text stays what it is**, wherever the text stands. -/
theorem first_append_apart (hr : Apart rest) (h : first position c cs = .ok l) (position' : Nat) :
    first position' c (cs ++ rest) = .ok (l.before rest) := by
  unfold first at h ⊢
  split at h
  · rename_i hc
    rw [if_pos hc]
    exact number_append_apart hr h position'
  split at h
  · rename_i hc hname
    cases h
    rw [if_neg hc, if_pos hname, ← List.cons_append, identifier_append_apart hr]
  rename_i hc hname
  rw [if_neg hc, if_neg hname]
  split at h
  · rename_i found hfound
    cases h
    rw [← List.cons_append, symbol?_append_apart hr hfound]
  · cases h

end Lexeme

/-! ## Tokens -/

variable {position : Nat} {ts : List Token} {ks : List TokenKind}

/-- What the tokens of a text that is not empty are: those behind a blank, or those behind its first
lexeme, with that in front. -/
theorem scanFrom_cons_cases (h : Token.scanFrom position (c :: cs) = .ok ts) :
    (Text.isBlank c = true ∧ Token.scanFrom (position + c.utf8Size) cs = .ok ts) ∨
      (Text.isBlank c = false ∧ ∃ l more, Lexeme.first position c cs = .ok l ∧
        Token.scanFrom (position + byteLength l.spelling) l.rest = .ok more ∧
        ts = ⟨l.kind, position, position + byteLength l.spelling⟩ :: more) := by
  rw [Token.scanFrom.eq_def] at h
  dsimp only at h
  cases hc : Text.isBlank c with
  | true =>
      rw [hc, if_pos rfl] at h
      exact .inl ⟨rfl, h⟩
  | false =>
      rw [hc, if_neg Bool.false_ne_true] at h
      split at h
      · cases h
      · rename_i l hl
        cases hmore : Token.scanFrom (position + byteLength l.spelling) l.rest with
        | error fault =>
            rw [hmore] at h
            cases h
        | ok more =>
            rw [hmore] at h
            cases h
            exact .inr ⟨rfl, l, more, hl, hmore, rfl⟩

/-- **The tokens of a text stay what they are in front of another text**, wherever both stand. -/
theorem scansTo_append (h : Token.scanFrom position cs = .ok ts) (hr : Apart rest)
    (hrest : ScansTo rest ks) : ScansTo (cs ++ rest) (ts.map (·.kind) ++ ks) := by
  -- each step leaves a shorter text, and it starts at another position
  induction hn : cs.length using Nat.strongRecOn generalizing position cs ts with
  | ind n ih =>
      subst hn
      cases cs with
      | nil =>
          rw [Token.scanFrom.eq_def] at h
          cases h
          exact hrest
      | cons c cs =>
          rcases scanFrom_cons_cases h with ⟨hc, h⟩ | ⟨hc, l, more, hl, hmore, rfl⟩
          · exact scansTo_blank hc (ih _ (Nat.lt_succ_self _) h rfl)
          · have hbehind : ScansTo (l.before rest).rest (more.map (·.kind) ++ ks) :=
              ih _ (Lexeme.length_rest_lt hl) hmore rfl
            exact scansTo_lexeme (l := l.before rest) hc (Lexeme.first_append_apart hr hl) hbehind

/-- No `pow` reaches out of a text into one that stands apart from it. -/
theorem expandPow_append_apart (hr : Apart rest) (cs : List Char) :
    expandPow (cs ++ rest) = expandPow cs ++ expandPow rest :=
  expandPow_append_of_head
    (fun c hc => ⟨(hr c hc).ne_of_isNameChar rfl, (hr c hc).ne_of_isNameChar rfl⟩) cs

end PocketCalc

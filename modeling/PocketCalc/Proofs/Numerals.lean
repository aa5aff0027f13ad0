import PocketCalc.Number.Numeral
import PocketCalc.Text.Blank

/-!
# Written numerals are read back

A numeral that is written down in ASCII is taken off the front of a text as a whole, as long as
what follows does not carry it on. The lexer, the reader of operands and the command lines all cut
numerals with the same function, but not with the same digits; so the digits stay a parameter here.
-/

namespace PocketCalc.Number

/-- What a character class takes off the front of a text, and what it leaves. -/
theorem takeWhile_dropWhile_front {p : Char → Bool} {front rest : List Char}
    (hf : ∀ c ∈ front, p c = true) (hr : ∀ c ∈ rest.head?, p c = false) :
    (front ++ rest).takeWhile p = front ∧ (front ++ rest).dropWhile p = rest := by
  rw [List.takeWhile_append_of_pos hf, List.dropWhile_append_of_pos hf]
  cases rest with
  | nil => exact ⟨List.append_nil front, rfl⟩
  | cons c rest =>
      have hc : p c = false := hr c rfl
      simp [hc]

/-- Digits of ASCII, at least one. -/
structure Digits (ds : List Char) : Prop where
  isDigit : ∀ c ∈ ds, c.isDigit = true
  nonempty : ds ≠ []

/-- A sign that can be written in front of a number. -/
def IsSign (c : Char) : Prop := c = '+' ∨ c = '-'

/-- An exponent as it can be written. -/
structure Exponent.Written (e : Exponent) : Prop where
  mark : e.mark = 'e' ∨ e.mark = 'E'
  sign : ∀ c ∈ e.sign, IsSign c
  digits : Digits e.digits

/-- A numeral as it can be written: a digit on one side of the point at least. -/
structure Numeral.Written (n : Numeral) : Prop where
  digits : Digits n.digits
  exponent : ∀ e ∈ n.exponent, e.Written

/-- Digits are all that a numeral without an exponent takes. -/
theorem Numeral.written_of_digits {n : Numeral} (h : Digits n.digits) (he : n.exponent = none) :
    n.Written := by
  refine ⟨h, ?_⟩
  intro e hmem
  rw [he] at hmem
  cases hmem

/-! ## Taking a numeral off a text -/

/-- A class of digits that has those of ASCII and no other character of a numeral. -/
structure IsDigitClass (p : Char → Bool) : Prop where
  digit : ∀ c, c.isDigit = true → p c = true
  point : p '.' = false
  mark : p 'e' = false ∧ p 'E' = false
  sign : p '+' = false ∧ p '-' = false

/-- An exponent in the digits of a class. -/
structure Exponent.WrittenIn (p : Char → Bool) (e : Exponent) : Prop where
  mark : e.mark = 'e' ∨ e.mark = 'E'
  sign : ∀ c ∈ e.sign, IsSign c
  isDigit : ∀ c ∈ e.digits, p c = true
  nonempty : e.digits ≠ []

/-- A numeral in the digits of a class. -/
structure Numeral.WrittenIn (p : Char → Bool) (n : Numeral) : Prop where
  isDigit : ∀ c ∈ n.digits, p c = true
  nonempty : n.digits ≠ []
  exponent : ∀ e ∈ n.exponent, e.WrittenIn p

theorem Exponent.Written.writtenIn {p : Char → Bool} (hp : IsDigitClass p) {e : Exponent}
    (he : e.Written) : e.WrittenIn p :=
  ⟨he.mark, he.sign, fun c hc => hp.digit c (he.digits.isDigit c hc), he.digits.nonempty⟩

theorem Numeral.Written.writtenIn {p : Char → Bool} (hp : IsDigitClass p) {n : Numeral}
    (hn : n.Written) : n.WrittenIn p :=
  ⟨fun c hc => hp.digit c (hn.digits.isDigit c hc), hn.digits.nonempty,
    fun e he => (hn.exponent e he).writtenIn hp⟩

/-- What carries no numeral on: the end of the text, or a character of no use to one. -/
def EndsNumeral (p : Char → Bool) (rest : List Char) : Prop :=
  ∀ c ∈ rest.head?, p c = false ∧ c ≠ '.' ∧ c ≠ 'e' ∧ c ≠ 'E'

theorem endsNumeral_nil {p : Char → Bool} : EndsNumeral p [] := by
  intro c hc
  cases hc

theorem splitSign_of_head {cs : List Char} (hc : ∀ c ∈ cs.head?, ¬ IsSign c) :
    splitSign cs = (none, cs) := by
  unfold splitSign
  split
  · exact absurd (.inl rfl) (hc '+' rfl)
  · exact absurd (.inr rfl) (hc '-' rfl)
  · rfl

theorem splitSign_of_sign {sign : Option Char} {cs : List Char} (hs : ∀ c ∈ sign, IsSign c)
    (hc : ∀ c ∈ cs.head?, ¬ IsSign c) : splitSign (sign.toList ++ cs) = (sign, cs) := by
  cases sign with
  | some c =>
      rcases hs c rfl with rfl | rfl
      · rfl
      · rfl
  | none => exact splitSign_of_head hc

/-- Nothing but a sign is split off as one. -/
theorem isSign_of_splitSign (cs : List Char) : ∀ c ∈ (splitSign cs).1, IsSign c := by
  unfold splitSign
  split
  · rintro _ ⟨⟩
    exact .inl rfl
  · rintro _ ⟨⟩
    exact .inr rfl
  · nofun

section

variable {p : Char → Bool} (hp : IsDigitClass p) {rest : List Char}
include hp

theorem not_isSign_of_isDigitClass {c : Char} (h : p c = true) : ¬ IsSign c := by
  rintro (rfl | rfl)
  · rw [hp.sign.1] at h
    cases h
  · rw [hp.sign.2] at h
    cases h

/-- The first digit of an exponent is no sign, so the sign that is split off is the one written. -/
theorem Exponent.WrittenIn.splitSign_eq {e : Exponent} (he : e.WrittenIn p) (rest : List Char) :
    splitSign (e.sign.toList ++ (e.digits ++ rest)) = (e.sign, e.digits ++ rest) := by
  refine splitSign_of_sign he.sign fun c hc => ?_
  obtain ⟨d, ds, hds⟩ := List.exists_cons_of_ne_nil he.nonempty
  rw [hds] at hc
  obtain rfl : d = c := Option.some.inj hc
  exact not_isSign_of_isDigitClass hp (he.isDigit d (hds ▸ List.mem_cons_self))

theorem split?_of_writtenIn {e : Exponent} (he : e.WrittenIn p)
    (hr : ∀ c ∈ rest.head?, p c = false) : Exponent.split? p (e.text ++ rest) = some (e, rest) := by
  have hsplit := he.splitSign_eq hp rest
  obtain ⟨mark, sign, digits⟩ := e
  obtain ⟨hmark, hsign, hdigits, hne⟩ := he
  obtain ⟨htake, hdrop⟩ := takeWhile_dropWhile_front hdigits hr
  simp only [Exponent.text, List.cons_append, List.append_assoc, Exponent.split?, hsplit, htake,
    hdrop]
  rw [if_pos ⟨hmark, hne⟩]

omit hp in
theorem split?_eq_none (hr : EndsNumeral p rest) : Exponent.split? p rest = none := by
  cases rest with
  | nil => rfl
  | cons c rest =>
      obtain ⟨-, -, he, hE⟩ := hr c rfl
      simp [Exponent.split?, he, hE]

/-- The exponent of a numeral and what follows it, or what follows alone. -/
theorem split?_exponent {exponent : Option Exponent} (he : ∀ e ∈ exponent, e.WrittenIn p)
    (hr : EndsNumeral p rest) :
    Exponent.split? p ((exponent.map Exponent.text).getD [] ++ rest) =
      exponent.map (·, rest) := by
  cases exponent with
  | none => exact split?_eq_none hr
  | some e => exact split?_of_writtenIn hp (he e rfl) fun c hc => (hr c hc).1

/-- Neither an exponent nor what ends a numeral goes on with digits or with a point. -/
theorem head_exponent {exponent : Option Exponent} (he : ∀ e ∈ exponent, e.WrittenIn p)
    (hr : EndsNumeral p rest) :
    ∀ c ∈ ((exponent.map Exponent.text).getD [] ++ rest).head?, p c = false ∧ c ≠ '.' := by
  intro c hc
  cases exponent with
  | none => exact ⟨(hr c hc).1, (hr c hc).2.1⟩
  | some e =>
      obtain rfl : e.mark = c := Option.some.inj hc
      rcases (he e rfl).mark with hm | hm
      · exact ⟨hm ▸ hp.mark.1, by rw [hm]; decide⟩
      · exact ⟨hm ▸ hp.mark.2, by rw [hm]; decide⟩

/-- **A numeral in the digits of the class is taken off the front of a text as a whole.** -/
theorem split_writtenIn {n : Numeral} (hn : n.WrittenIn p) (hr : EndsNumeral p rest) :
    Numeral.split p (n.text ++ rest) = (n, rest) := by
  obtain ⟨whole, fraction, exponent⟩ := n
  obtain ⟨hdigits, -, he⟩ := hn
  have hexponent := split?_exponent hp he hr
  have hhead := head_exponent hp he hr
  have hwhole : ∀ c ∈ whole, p c = true :=
    fun c hc => hdigits c (List.mem_append_left _ hc)
  generalize hback : (exponent.map Exponent.text).getD [] ++ rest = back at hexponent hhead
  cases fraction with
  | none =>
      obtain ⟨htake, hdrop⟩ := takeWhile_dropWhile_front hwhole fun c hc => (hhead c hc).1
      have hfraction : Numeral.splitFraction p back = (none, back) := by
        unfold Numeral.splitFraction
        split
        · exact absurd rfl (hhead '.' rfl).2
        · rfl
      have htext : (⟨whole, none, exponent⟩ : Numeral).text ++ rest = whole ++ back := by
        simp [Numeral.text, ← hback]
      rw [htext]
      simp only [Numeral.split, htake, hdrop, hfraction, hexponent]
      cases exponent with
      | none => subst hback; rfl
      | some e => rfl
  | some ds =>
      have hds : ∀ c ∈ ds, p c = true :=
        fun c hc => hdigits c (List.mem_append_right _ hc)
      obtain ⟨htake, hdrop⟩ := takeWhile_dropWhile_front hds fun c hc => (hhead c hc).1
      have hpoint : ∀ c ∈ ('.' :: (ds ++ back)).head?, p c = false := by
        intro c hc
        obtain rfl : '.' = c := Option.some.inj hc
        exact hp.point
      obtain ⟨htake', hdrop'⟩ := takeWhile_dropWhile_front hwhole hpoint
      have htext : (⟨whole, some ds, exponent⟩ : Numeral).text ++ rest =
          whole ++ '.' :: (ds ++ back) := by
        simp [Numeral.text, ← hback]
      rw [htext]
      simp only [Numeral.split, htake', hdrop', Numeral.splitFraction, htake, hdrop, hexponent]
      cases exponent with
      | none => subst hback; rfl
      | some e => rfl

/-- A numeral in ASCII is taken off likewise. -/
theorem split_numeral {n : Numeral} (hn : n.Written) (hr : EndsNumeral p rest) :
    Numeral.split p (n.text ++ rest) = (n, rest) :=
  split_writtenIn hp (hn.writtenIn hp) hr

end

/-! ## What is taken off is a numeral -/

section

variable {p : Char → Bool} {cs rest : List Char}

theorem writtenIn_of_split? {e : Exponent} (h : Exponent.split? p cs = some (e, rest)) :
    e.WrittenIn p := by
  cases cs with
  | nil => cases h
  | cons mark cs =>
      simp only [Exponent.split?] at h
      split at h
      · rename_i hfound
        cases h
        exact ⟨hfound.1, isSign_of_splitSign _, List.all_eq_true.mp List.all_takeWhile, hfound.2⟩
      · cases h

/-- A numeral that is split off a text has digits only where digits belong, and an exponent as it
can be written. -/
theorem writtenIn_of_split {n : Numeral} (h : Numeral.split p cs = (n, rest))
    (hd : n.digits ≠ []) : n.WrittenIn p := by
  have hdigit (ds : List Char) : ∀ c ∈ ds.takeWhile p, p c = true :=
    List.all_eq_true.mp List.all_takeWhile
  have hfraction (ds : List Char) :
      ∀ c ∈ (Numeral.splitFraction p ds).1.getD [], p c = true := by
    unfold Numeral.splitFraction
    split
    · exact hdigit _
    · nofun
  unfold Numeral.split at h
  dsimp only at h
  split at h
  · rename_i e rest' he
    cases h
    refine ⟨fun c hc => ?_, hd, fun e' he' => ?_⟩
    · rcases List.mem_append.mp hc with hc | hc
      · exact hdigit _ c hc
      · exact hfraction _ c hc
    · cases he'
      exact writtenIn_of_split? he
  · cases h
    refine ⟨fun c hc => ?_, hd, nofun⟩
    rcases List.mem_append.mp hc with hc | hc
    · exact hdigit _ c hc
    · exact hfraction _ c hc

/-- The digits of ASCII make a numeral that can be written anywhere. -/
theorem Numeral.WrittenIn.written {n : Numeral} (h : n.WrittenIn Char.isDigit) : n.Written :=
  ⟨⟨h.isDigit, h.nonempty⟩, fun e he =>
    ⟨(h.exponent e he).mark, (h.exponent e he).sign,
      ⟨(h.exponent e he).isDigit, (h.exponent e he).nonempty⟩⟩⟩

end

theorem isDigitClass_isDigit : IsDigitClass Char.isDigit where
  digit _ h := h
  point := rfl
  mark := ⟨rfl, rfl⟩
  sign := ⟨rfl, rfl⟩

/-! ## The first character -/

/-- A written numeral starts with a digit or with a point. -/
theorem Numeral.Written.exists_start {n : Numeral} (hn : n.Written) :
    ∃ c cs, n.text = c :: cs ∧ (c.isDigit || c == '.') = true ∧ Text.isBlank c = false := by
  obtain ⟨whole, fraction, exponent⟩ := n
  obtain ⟨⟨hdigits, hne⟩, -⟩ := hn
  cases whole with
  | nil =>
      cases fraction with
      | none => exact absurd rfl hne
      | some ds => exact ⟨'.', ds ++ _, rfl, rfl, rfl⟩
  | cons c cs =>
      have hc : c.isDigit = true := hdigits c List.mem_cons_self
      exact ⟨c, _, rfl, by rw [hc]; rfl, Text.isBlank_eq_false_of_isDigit hc⟩

/-- A numeral starts with no sign, so none is split off it. -/
theorem Numeral.WrittenIn.head_not_isSign {p : Char → Bool} (hp : IsDigitClass p) {n : Numeral}
    (hn : n.WrittenIn p) (rest : List Char) : ∀ c ∈ (n.text ++ rest).head?, ¬ IsSign c := by
  obtain ⟨whole, fraction, exponent⟩ := n
  intro c hc
  cases whole with
  | cons d ds =>
      obtain rfl : d = c := Option.some.inj hc
      exact not_isSign_of_isDigitClass hp (hn.isDigit d List.mem_cons_self)
  | nil =>
      cases fraction with
      | none => exact absurd rfl hn.nonempty
      | some ds =>
          obtain rfl : '.' = c := Option.some.inj hc
          rintro (h | h)
          · cases h
          · cases h

theorem Numeral.Written.head_not_isSign {n : Numeral} (hn : n.Written) (rest : List Char) :
    ∀ c ∈ (n.text ++ rest).head?, ¬ IsSign c :=
  (hn.writtenIn isDigitClass_isDigit).head_not_isSign isDigitClass_isDigit rest

/-! ## All characters -/

/-- The characters of numbers other than digits. -/
def numberMarks : List Char := ['.', 'e', 'E', '+', '-']

theorem IsSign.mem_numberMarks {c : Char} (h : IsSign c) : c ∈ numberMarks := by
  rcases h with rfl | rfl
  · decide
  · decide

theorem Exponent.Written.isDigit_or_mem {e : Exponent} (he : e.Written) {c : Char}
    (hc : c ∈ e.text) : c.isDigit = true ∨ c ∈ numberMarks := by
  simp only [Exponent.text, List.mem_cons, List.mem_append, Option.mem_toList] at hc
  rcases hc with rfl | hs | hd
  · rcases he.mark with hm | hm
    · exact .inr (by rw [hm]; decide)
    · exact .inr (by rw [hm]; decide)
  · exact .inr (he.sign c hs).mem_numberMarks
  · exact .inl (he.digits.isDigit c hd)

theorem Numeral.Written.isDigit_or_mem {n : Numeral} (hn : n.Written) {c : Char}
    (hc : c ∈ n.text) : c.isDigit = true ∨ c ∈ numberMarks := by
  obtain ⟨whole, fraction, exponent⟩ := n
  obtain ⟨⟨hdigits, -⟩, hexponent⟩ := hn
  rcases List.mem_append.mp hc with hfront | hback
  · rcases List.mem_append.mp hfront with hwhole | hfraction
    · exact .inl (hdigits c (List.mem_append_left _ hwhole))
    · cases fraction with
      | none => exact absurd hfraction List.not_mem_nil
      | some ds =>
          rcases List.mem_cons.mp hfraction with hpoint | hds
          · exact .inr (hpoint ▸ by decide)
          · exact .inl (hdigits c (List.mem_append_right _ hds))
  · cases exponent with
    | none => exact absurd hback List.not_mem_nil
    | some e => exact (hexponent e rfl).isDigit_or_mem hback

/-- A sign in front of a numeral is one of its characters, too. -/
theorem Numeral.Written.signed_isDigit_or_mem {n : Numeral} (hn : n.Written) {sign : Option Char}
    (hsign : ∀ c ∈ sign, IsSign c) {c : Char} (hc : c ∈ sign.toList ++ n.text) :
    c.isDigit = true ∨ c ∈ numberMarks := by
  rcases List.mem_append.mp hc with hs | hn'
  · exact .inr (hsign c (Option.mem_toList.mp hs)).mem_numberMarks
  · exact hn.isDigit_or_mem hn'

theorem isBlank_eq_false_of_isDigit_or_mem {c : Char}
    (h : c.isDigit = true ∨ c ∈ numberMarks) : Text.isBlank c = false := by
  have marks : numberMarks.all (!Text.isBlank ·) = true := rfl
  rcases h with hd | hm
  · exact Text.isBlank_eq_false_of_isDigit hd
  · simpa using List.all_eq_true.mp marks c hm

end PocketCalc.Number

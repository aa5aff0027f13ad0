import PocketCalc.Proofs.Respacing

/-!
# The word `pow` as an operator

The evaluator writes two stars in place of every `pow` before it cuts a text into tokens. That is
the same as cutting the text as it stands and reading each name `pow` as the power, as long as no
longer name has a `pow` in it and no star stands right in front of one: stars that touch would be
paired in another way.

No other token is cut elsewhere for that. A `pow` lies within one name, and the stars that come in
for it carry nothing on but a star.
-/

namespace PocketCalc

open Number

variable {c : Char} {cs rest word : List Char} {position : Nat} {kind : TokenKind}
  {ts : List Token}

/-! ## Where two stars come in -/

/-- What starts the text with the stars in it and has no star starts the text itself. -/
theorem isPrefix_of_isPrefix_expandPow {front : List Char} (h : front <+: expandPow cs)
    (hstar : '*' ∉ front) : front <+: cs := by
  induction cs using expandPow.induct generalizing front with
  | case1 => exact h
  | case2 cs ih =>
      cases front with
      | nil => exact List.nil_prefix
      | cons d front =>
          obtain ⟨rfl, -⟩ := List.cons_prefix_cons.mp h
          exact absurd List.mem_cons_self hstar
  | case3 c cs hpow ih =>
      cases front with
      | nil => exact List.nil_prefix
      | cons d front =>
          rw [expandPow_cons fun t ht => hpow t (List.cons.inj ht).1 (List.cons.inj ht).2] at h
          obtain ⟨hd, hfront⟩ := List.cons_prefix_cons.mp h
          have hmore := ih hfront fun hmem => hstar (List.mem_cons_of_mem d hmem)
          exact List.cons_prefix_cons.mpr ⟨hd, hmore⟩

/-- No `pow` is left. -/
theorem not_isInfix_expandPow (cs : List Char) : ¬ "pow".toList <:+: expandPow cs := by
  induction cs using expandPow.induct with
  | case1 => exact fun h => absurd h.length_le (by decide)
  | case2 cs ih =>
      intro h
      rcases List.infix_cons_iff.mp h with hfront | h
      · exact absurd (List.cons_prefix_cons.mp hfront).1 (by decide)
      rcases List.infix_cons_iff.mp h with hfront | h
      · exact absurd (List.cons_prefix_cons.mp hfront).1 (by decide)
      · exact ih h
  | case3 c cs hpow ih =>
      intro h
      rw [expandPow_cons fun t ht => hpow t (List.cons.inj ht).1 (List.cons.inj ht).2] at h
      rcases List.infix_cons_iff.mp h with hfront | h
      · -- its `ow` would have stood there before
        obtain ⟨rfl, hbehind⟩ := List.cons_prefix_cons.mp hfront
        obtain ⟨t, ht⟩ := isPrefix_of_isPrefix_expandPow hbehind (by decide)
        exact hpow t rfl ht.symm
      · exact ih h

/-- No `pow` reaches out of a text that has no first letter of it. -/
theorem expandPow_append_of_not_mem (h : 'p' ∉ word) (rest : List Char) :
    expandPow (word ++ rest) = word ++ expandPow rest := by
  induction word with
  | nil => rfl
  | cons c word ih =>
      have hfront : ∀ t, c :: (word ++ rest) ≠ 'p' :: 'o' :: 'w' :: t := by
        intro t ht
        exact h ((List.cons.inj ht).1 ▸ List.mem_cons_self)
      rw [List.cons_append, expandPow_cons hfront, ih fun hmem => h (List.mem_cons_of_mem c hmem)]
      rfl

/-- A star at the front was there before, or a `pow` was. -/
theorem head?_expandPow (h : (expandPow cs).head? = some '*') :
    cs.head? = some '*' ∨ "pow".toList <+: cs := by
  by_cases hpow : "pow".toList <+: cs
  · exact .inr hpow
  cases cs with
  | nil => cases h
  | cons c cs =>
      rw [expandPow_cons fun t ht => hpow (pow_isPrefix_iff.mpr ⟨t, ht⟩)] at h
      exact .inl h

/-! ## Tokens with a star, and names -/

/-- Stars are in no token but the star and the power. -/
theorem TokenText.of_mem_star (h : TokenText word kind) (hstar : '*' ∈ word) :
    word = ['*'] ∨ word = ['*', '*'] := by
  rcases h.of_mem hstar with hnumber | ⟨-, hname⟩ | hsymbol
  · exact absurd hnumber (by decide)
  · exact absurd hname (by decide)
  · have hsymbols : ∀ s ∈ symbols, '*' ∈ s.1 → s.1 = ['*'] ∨ s.1 = ['*', '*'] := by decide
    exact hsymbols _ hsymbol hstar

/-- A star carries nothing on but a star. -/
theorem TokenText.of_append_star {more : List Char} (h : TokenText (word ++ more) kind)
    (hword : word ≠ []) (hmore : '*' ∈ more) : word = ['*'] ∧ more = ['*'] := by
  have hnil : more ≠ [] := List.ne_nil_of_mem hmore
  rcases h.of_mem_star (List.mem_append_right word hmore) with hone | htwo
  · rcases List.append_eq_singleton_iff.mp hone with ⟨hempty, -⟩ | ⟨-, hempty⟩
    · exact absurd hempty hword
    · exact absurd hempty hnil
  · rcases List.append_eq_cons_iff.mp htwo with ⟨hempty, -⟩ | ⟨t, rfl, ht⟩
    · exact absurd hempty hword
    · rcases List.append_eq_singleton_iff.mp ht.symm with ⟨rfl, hstar⟩ | ⟨-, hempty⟩
      · exact ⟨rfl, hstar⟩
      · exact absurd hempty hnil

/-- A token with the first letter of `pow` in it is a name. -/
theorem TokenText.of_mem_p (h : TokenText word kind) (hp : 'p' ∈ word) :
    kind = .identifier (String.ofList word) := by
  rcases h.of_mem hp with hnumber | ⟨hkind, -⟩ | hsymbol
  · exact absurd hnumber (by decide)
  · exact hkind
  · have hsymbols : ∀ s ∈ symbols, 'p' ∉ s.1 := by decide
    exact absurd hp (hsymbols _ hsymbol)

/-- A name as a token is spelled like it. -/
theorem TokenText.of_identifier {name : String} (h : TokenText word (.identifier name)) :
    word = name.toList ∧ ∃ c cs, word = c :: cs ∧ isNameStart c = true := by
  generalize hkind : TokenKind.identifier name = kind at h
  cases h with
  | number n x written value => cases hkind
  | identifier c cs start more =>
      cases hkind
      exact ⟨String.toList_ofList.symm, c, cs, rfl, start⟩
  | symbol _ _ mem =>
      have hsymbols : ∀ s ∈ symbols, ∀ name, s.2 ≠ .identifier name := by simp [symbols]
      exact absurd hkind.symm (hsymbols _ mem name)

/-- A name is taken as far as it goes. -/
theorem LongestToken.of_isNameStart (h : LongestToken (c :: cs) word kind)
    (hc : isNameStart c = true) :
    word = (c :: cs).takeWhile isNameChar ∧ kind = .identifier (String.ofList word) := by
  obtain ⟨hword, hkind⟩ := h.unique (longestToken_identifier hc cs)
  exact ⟨hword, hword ▸ hkind⟩

theorem LongestToken.isNameChar_head {name : String}
    (h : LongestToken (word ++ rest) word (.identifier name)) :
    ∀ c ∈ rest.head?, isNameChar c = false := by
  intro c hc
  obtain ⟨-, d, ds, rfl, start⟩ := h.token.of_identifier
  have hword : d :: ds = (d :: ds ++ rest).takeWhile isNameChar := (h.of_isNameStart start).1
  have hrest : (d :: ds ++ rest).dropWhile isNameChar = rest := by
    have htext := List.takeWhile_append_dropWhile (p := isNameChar) (l := d :: ds ++ rest)
    rw [← hword] at htext
    exact List.append_cancel_left htext
  have hhead := List.head?_dropWhile_not isNameChar (d :: ds ++ rest)
  rw [hrest, Option.mem_def.mp hc] at hhead
  simpa using hhead

/-! ## One token -/

/-- Stars that come in carry no token on, unless they stand behind a star. -/
theorem LongestToken.append_expandPow (h : LongestToken (word ++ rest) word kind)
    (hstar : word = ['*'] → ¬ "pow".toList <+: rest) :
    LongestToken (word ++ expandPow rest) word kind := by
  refine h.token.longestToken fun more kind' hprefix htoken => ?_
  by_cases hmem : '*' ∈ more
  · -- the token is a star, and a second one follows it
    obtain ⟨rfl, rfl⟩ := htoken.of_append_star h.token.ne_nil hmem
    have hhead : (expandPow rest).head? = some '*' := by
      obtain ⟨t, ht⟩ := hprefix
      rw [← ht]
      rfl
    rcases head?_expandPow hhead with hrest | hpow
    · obtain ⟨t, rfl⟩ := List.head?_eq_some_iff.mp hrest
      have hlonger : TokenText ['*', '*'] .power := .symbol _ _ (by decide)
      exact absurd (h.longest ['*', '*'] .power ⟨t, rfl⟩ hlonger) (by decide)
    · exact absurd hpow (hstar rfl)
  · have hprefix' : word ++ more <+: word ++ rest :=
      (List.prefix_append_right_inj word).mpr (isPrefix_of_isPrefix_expandPow hprefix hmem)
    have hle := h.longest _ _ hprefix' htoken
    rw [List.length_append] at hle
    exact List.length_eq_zero_iff.mp (by omega)

/-- A token without a `pow` in it stays at the front. -/
theorem LongestToken.expandPow_append (h : LongestToken (word ++ rest) word kind)
    (hpow : ¬ "pow".toList <:+: word) :
    expandPow (word ++ rest) = word ++ expandPow rest := by
  by_cases hp : 'p' ∈ word
  · have hname := h.token.of_mem_p hp
    subst hname
    -- the name ends here, so no `pow` reaches out of it
    have hhead : ∀ c ∈ rest.head?, c ≠ 'o' ∧ c ≠ 'w' := by
      intro c hc
      have hend := h.isNameChar_head c hc
      refine ⟨?_, ?_⟩
      · rintro rfl
        cases hend
      · rintro rfl
        cases hend
    rw [expandPow_append_of_head hhead, expandPow_eq_self_of_not_isInfix hpow]
  · exact expandPow_append_of_not_mem hp rest

/-! ## All tokens -/

/-- The kind of a token where the name `pow` is read as the power. -/
def TokenKind.withPower (kind : TokenKind) : TokenKind :=
  if kind = .identifier "pow" then .power else kind

/-- Every `pow` in the names of a text is a name of its own, and none stands right behind a star. -/
structure PowAlone (position : Nat) (cs : List Char) (ts : List Token) : Prop where
  alone : ∀ t ∈ ts, ∀ name, t.kind = .identifier name → "pow".toList <:+: name.toList →
    name = "pow"
  apart : ∀ t ∈ ts, t.kind = .identifier "pow" → ∀ front back, cs = front ++ '*' :: back →
    t.start ≠ position + byteLength (front ++ ['*'])

theorem PowAlone.behind {ts' : List Token} (front : List Char)
    (h : PowAlone position (front ++ cs) ts') (hsub : ts ⊆ ts') :
    PowAlone (position + byteLength front) cs ts where
  alone t ht := h.alone t (hsub ht)
  apart t ht hkind before back hcs := by
    have hne := h.apart t (hsub ht) hkind (front ++ before) back (by rw [hcs, List.append_assoc])
    rwa [List.append_assoc, byteLength_append, ← Nat.add_assoc] at hne

/-- A `pow` at the front of a text is the start of its first name. -/
theorem ScansAs.exists_pow (h : ScansAs position cs (.ok ts)) (hpow : "pow".toList <+: cs) :
    ∃ t ∈ ts, t.start = position ∧ ∃ name, t.kind = .identifier name ∧
      "pow".toList <:+: name.toList := by
  obtain ⟨rest, rfl⟩ := pow_isPrefix_iff.mp hpow
  generalize hr : Except.ok ts = r at h
  cases h with
  | blank _ _ _ _ isBlank more => exact absurd isBlank (by decide)
  | fault _ _ _ fault isBlank front => cases hr
  | token _ _ _ l r isBlank front more =>
      cases r with
      | error fault => cases hr
      | ok behind =>
          cases hr
          obtain ⟨htext, hlongest⟩ := front.longest
          obtain ⟨hword, hkind⟩ := hlongest.of_isNameStart (by decide)
          have hname : (String.ofList l.spelling).toList =
              "pow".toList ++ rest.takeWhile isNameChar := by
            rw [String.toList_ofList, hword]
            rfl
          refine ⟨_, List.mem_cons_self, rfl, _, hkind, ?_⟩
          rw [hname]
          exact (List.prefix_append _ _).isInfix

/-- No other token has a `pow` in it. -/
theorem PowAlone.not_isInfix {t : Token} (h : PowAlone position cs (t :: ts))
    (htoken : TokenText word t.kind) (hkind : t.kind ≠ .identifier "pow") :
    ¬ "pow".toList <:+: word := by
  intro hpart
  have hname := htoken.of_mem_p (hpart.mem (by decide))
  have htoList : (String.ofList word).toList = word := String.toList_ofList
  have hsame := h.alone t List.mem_cons_self _ hname (htoList.symm ▸ hpart)
  rw [hsame] at hname
  exact hkind hname

/-- Nor does a `pow` stand right behind a star. -/
theorem PowAlone.not_isPrefix {t : Token} (h : PowAlone position (['*'] ++ rest) (t :: ts))
    (hscan : ScansAs (position + byteLength ['*']) rest (.ok ts)) :
    ¬ "pow".toList <+: rest := by
  intro hfront
  obtain ⟨s, hs, hstart, name, hname, hpart⟩ := hscan.exists_pow hfront
  have hmem : s ∈ t :: ts := List.mem_cons_of_mem t hs
  rw [h.alone s hmem name hname hpart] at hname
  exact h.apart s hmem hname [] rest rfl hstart

/-- **With stars in place of every `pow`, a text has the power in place of every name `pow`.** -/
theorem ScansAs.scansTo_expandPow {r : Except SyntaxFault (List Token)}
    (h : ScansAs position cs r) : ∀ ts, r = .ok ts → PowAlone position cs ts →
      ScansTo (expandPow cs) (ts.map fun t => t.kind.withPower) := by
  induction h with
  | stop position =>
      intro ts hts hpow
      cases hts
      exact scansTo_nil
  | blank position c cs r isBlank more ih =>
      intro ts hts hpow
      have hfront : ∀ t, c :: cs ≠ 'p' :: 'o' :: 'w' :: t := by
        intro t ht
        obtain rfl := (List.cons.inj ht).1
        exact absurd isBlank (by decide)
      rw [expandPow_cons hfront]
      exact scansTo_blank isBlank (ih ts hts (hpow.behind [c] fun _ ht => ht))
  | fault position c cs fault isBlank front => exact nofun
  | token position c cs l r isBlank front more ih =>
      intro ts hts hpow
      cases r with
      | error fault => cases hts
      | ok behind =>
          cases hts
          obtain ⟨htext, hlongest⟩ := front.longest
          have hplain := front.spelling.2.plain
          rw [htext] at hpow hlongest ⊢
          have hbehind := hpow.behind l.spelling (List.subset_cons_self _ behind)
          have hrest := ih behind rfl hbehind
          by_cases hkind : l.kind = .identifier "pow"
          · -- two stars come in here
            have hword : l.spelling = "pow".toList :=
              (TokenText.of_identifier (hkind ▸ hlongest.token)).1
            rw [hword, List.map_cons, hkind]
            exact scansTo_symbol (l := ⟨.power, ['*', '*'], expandPow l.rest⟩) (by decide) rfl hrest
          · have hnone := hpow.not_isInfix hlongest.token hkind
            have hstar : l.spelling = ['*'] → ¬ "pow".toList <+: l.rest := fun hword =>
              PowAlone.not_isPrefix (hword ▸ hpow) (hword ▸ more)
            rw [hlongest.expandPow_append hnone, List.map_cons, TokenKind.withPower, if_neg hkind]
            exact (hlongest.append_expandPow hstar).scansTo hplain hrest

/-- **Two stars for every `pow` are the same as a power for every name `pow`.** If each `pow` in the
names of a text is a name of its own, and none stands right behind a star, then the text is cut into
tokens of the same kinds, with the power in place of these names. No text has a `pow` left, and a
text without one stays as it is. -/
theorem scan_expandPow :
    (∀ cs ts, Token.scan cs = .ok ts → PowAlone 0 cs ts →
      ∃ ts', Token.scan (expandPow cs) = .ok ts' ∧
        ts'.map (·.kind) = ts.map fun t => t.kind.withPower) ∧
    (∀ cs, ¬ "pow".toList <:+: expandPow cs) ∧
    ∀ cs, ¬ "pow".toList <:+: cs → expandPow cs = cs := by
  refine ⟨fun cs ts hts hpow => ?_, not_isInfix_expandPow,
    fun cs => expandPow_eq_self_of_not_isInfix⟩
  exact (scansAs_scanFrom 0 cs).scansTo_expandPow ts hts hpow 0

/-- Stars that follow a `pow` are paired as before. -/
theorem scan_expandPow_stars :
    Token.scan "3pow***2".toList = .ok [⟨.number 3, 0, 1⟩, ⟨.identifier "pow", 1, 4⟩,
      ⟨.power, 4, 6⟩, ⟨.star, 6, 7⟩, ⟨.number 2, 7, 8⟩] ∧
    expandPow "3pow***2".toList = "3*****2".toList ∧
    (∃ ts', Token.scan "3*****2".toList = .ok ts' ∧
      ts'.map (·.kind) = [.number 3, .power, .power, .star, .number 2]) ∧
    ¬ "pow".toList <:+: "po w".toList ∧ expandPow "po w".toList = "po w".toList := by
  generalize hts : ([⟨.number 3, 0, 1⟩, ⟨.identifier "pow", 1, 4⟩, ⟨.power, 4, 6⟩,
    ⟨.star, 6, 7⟩, ⟨.number 2, 7, 8⟩] : List Token) = ts
  have hscan : Token.scan "3pow***2".toList = .ok ts := by
    subst hts
    decide +kernel
  have halone : PowAlone 0 "3pow***2".toList ts := by
    refine ⟨by subst hts; simp, fun t ht hkind front back hcs => ?_⟩
    have hstart : ∀ t ∈ ts, t.kind = .identifier "pow" → t.start = 1 := by
      subst hts
      decide
    rw [hstart t ht hkind, byteLength_append]
    -- one byte of the text is the digit in front
    cases front with
    | nil => cases hcs
    | cons d front =>
        have hd := d.utf8Size_pos
        show 1 ≠ 0 + (d.utf8Size + byteLength front + 1)
        omega
  have hnone : ¬ "pow".toList <:+: "po w".toList := by decide
  obtain ⟨hpower, -, hsame⟩ := scan_expandPow
  subst hts
  exact ⟨hscan, rfl, hpower _ _ hscan halone, hnone, hsame _ hnone⟩

end PocketCalc

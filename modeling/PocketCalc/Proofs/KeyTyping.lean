import PocketCalc.Proofs.BufferFits
import PocketCalc.Proofs.KeyPhrase

/-!
# Keys type their text

Typing a phrase adds its text to the buffer, with no key dropped and none changed. The guards of
the keypad decide by the end of the text, so what carries the induction over phrases is the *place*
in which each part is typed: an expression at the start or behind an opening parenthesis, an operand
where none is, and an operator behind the end of an operand.
-/

namespace PocketCalc

namespace Typing

open Buffer

/-! ## Places -/

/-- A character that an operand can end in. -/
def isOperandEnd (c : Char) : Bool := (c.isAlphanum || c == '.' || c == ')') && c != 'w'

/-- A text that ends in an operand. -/
def EndsOperand (cs : List Char) : Prop := cs.getLast?.any isOperandEnd = true

/-- Where an expression starts. -/
def AtStart (b : Buffer) : Prop := b = {} ∨ b.endsWithOpenParen = true

/-- Where an operand is missing. -/
def Awaits (b : Buffer) : Prop :=
  b = {} ∨ (b.endsWithOperatorOrOpen = true ∧ b.trailingSegment = [])

/-- Where the parts of a phrase are typed. -/
def Part.Place : Part → Buffer → Prop
  | expression, b => AtStart b
  | operand, b => Awaits b
  | links, b => EndsOperand b.chars

variable {b : Buffer} {c : Char}

theorem endsOperand_append {cs : List Char} (front : List Char) (h : EndsOperand cs) :
    EndsOperand (front ++ cs) := by
  unfold EndsOperand at h ⊢
  rw [List.getLast?_append]
  cases hl : cs.getLast? with
  | none => rw [hl] at h; cases h
  | some c => rw [hl] at h; exact h

theorem eq_push_of_endsOperand (h : EndsOperand b.chars) :
    ∃ front c, b = push front c ∧ isOperandEnd c = true := by
  rcases eq_empty_or_push b with rfl | ⟨front, c, rfl⟩
  · cases h
  · exact ⟨front, c, rfl, by simpa [EndsOperand, push] using h⟩

theorem isBlank_eq_false_of_isOperandEnd (h : isOperandEnd c = true) : Text.isBlank c = false := by
  simp only [isOperandEnd, Bool.and_eq_true, Bool.or_eq_true, beq_iff_eq] at h
  rcases h with ⟨(h | rfl) | rfl, -⟩
  · exact Text.isBlank_eq_false_of_isAlphanum h
  · rfl
  · rfl

/-- No guard refuses an operator behind an operand, and none takes it for a sign. -/
theorem guards_of_endsOperand (h : EndsOperand b.chars) :
    b.isEmpty = false ∧ b.endsWithOpenParen = false ∧ b.endsWithOperatorOrOpen = false := by
  obtain ⟨front, c, rfl, hc⟩ := eq_push_of_endsOperand h
  have hopen : isOperatorOrOpen c = false := by
    rw [Bool.eq_false_iff]
    intro ho
    simp only [isOperatorOrOpen, Bool.or_eq_true, beq_iff_eq] at ho
    rcases ho with (((rfl | rfl) | rfl) | rfl) | rfl <;> exact absurd hc (by decide)
  -- an operand does not end in a `w`
  have hword : "pow".toList.isSuffixOf (front.push c).chars = false := by
    rw [Bool.eq_false_iff]
    intro hw
    rw [eq_w_of_isSuffixOf_push hw] at hc
    exact absurd hc (by decide)
  refine ⟨by simp [isEmpty, push], ?_, ?_⟩
  · have hparen : c ≠ '(' := by rintro rfl; exact absurd hc (by decide)
    simpa [endsWithOpenParen, last?, push] using hparen
  · rw [endsWithOperatorOrOpen_push front (isBlank_eq_false_of_isOperandEnd hc), hopen, hword]
    rfl

theorem endsWithOperatorOrOpen_of_push (b : Buffer) (h : isOperatorOrOpen c = true) :
    (b.push c).endsWithOperatorOrOpen = true := by
  have hb : Text.isBlank c = false := by
    simp only [isOperatorOrOpen, Bool.or_eq_true, beq_iff_eq] at h
    rcases h with (((rfl | rfl) | rfl) | rfl) | rfl <;> rfl
  rw [endsWithOperatorOrOpen_push b hb, h]
  rfl

theorem awaits_push (b : Buffer) (h : isOperatorOrOpen c = true) : Awaits (b.push c) :=
  .inr ⟨endsWithOperatorOrOpen_of_push b h,
    trailingSegment_push_of_break b (isSegmentBreak_of_isOperatorOrOpen h)⟩

theorem awaits_push_blank (h : b.endsWithOperatorOrOpen = true) : Awaits (b.push ' ') :=
  .inr ⟨(endsWithOperatorOrOpen_push_blank b).trans h, trailingSegment_push_of_break b rfl⟩

theorem awaits_of_atStart (h : AtStart b) : Awaits b := by
  rcases h with rfl | h
  · exact .inl rfl
  · rcases eq_empty_or_push b with rfl | ⟨front, c, rfl⟩
    · exact .inl rfl
    · have hc : c = '(' := by simpa [endsWithOpenParen, last?, push] using h
      subst hc
      exact awaits_push front rfl

theorem atStart_push_open (b : Buffer) : AtStart (b.push '(') :=
  .inr (by simp [endsWithOpenParen, last?, push])

/-- Behind an operator and its blanks an operand is missing. -/
theorem awaits_append_operator (b : Buffer) (op : BinaryOperation) :
    Awaits (b.append (' ' :: (op.typed.toList ++ [' ']))) := by
  have hsign : ∀ c, isOperatorOrOpen c = true → Awaits (b.append [' ', c, ' ']) := by
    intro c hc
    simp only [append_cons, append_nil]
    exact awaits_push_blank (endsWithOperatorOrOpen_of_push _ hc)
  cases op with
  | add => exact hsign '+' rfl
  | subtract => exact hsign '-' rfl
  | multiply => exact hsign '*' rfl
  | divide => exact hsign '/' rfl
  | power =>
      -- the word counts as an operator by its three letters
      have hword : (b.append " pow".toList).endsWithOperatorOrOpen = true := by
        have he : b.append " pow".toList = (b.append " po".toList).push 'w' := by
          simp [append, push]
        rw [he, endsWithOperatorOrOpen_push _ (by decide), Bool.or_eq_true]
        refine .inr (List.isSuffixOf_iff_suffix.mpr ⟨b.chars ++ [' '], ?_⟩)
        simp [append, push]
      have hp := awaits_push_blank hword
      have he : (b.append " pow".toList).push ' ' =
          b.append (' ' :: (BinaryOperation.power.typed.toList ++ [' '])) := by
        simp [append, push, BinaryOperation.typed]
      rwa [he] at hp

/-! ## Single keys -/

/-- The keys that take a keypad with the text `b`, where typing goes on, to the text `b'`. -/
def Types (calculator : Calculator) (b : Buffer) (keys : List Key) (b' : Buffer) : Prop :=
  ∀ pad : Keypad, pad.buffer = b → pad.justEvaluated = false →
    (pad.run calculator keys).buffer = b' ∧ (pad.run calculator keys).justEvaluated = false

variable {calculator : Calculator} {b' b'' : Buffer} {keys keys' : List Key}

theorem types_nil (b : Buffer) : Types calculator b [] b := fun _ hb hj => ⟨hb, hj⟩

theorem types_append (h : Types calculator b keys b') (h' : Types calculator b' keys' b'') :
    Types calculator b (keys ++ keys') b'' := by
  intro pad hb hj
  obtain ⟨hb', hj'⟩ := h pad hb hj
  unfold Keypad.run at hb' hj' ⊢
  rw [List.foldl_append]
  exact h' _ hb' hj'

theorem types_cons {key : Key} (h : Types calculator b [key] b')
    (h' : Types calculator b' keys b'') : Types calculator b (key :: keys) b'' :=
  types_append h h'

/-- A text that ends in an operator is not the zero that a digit would replace. -/
theorem isInitial_eq_false (h : b.endsWithOperatorOrOpen = true) : b.isInitial = false := by
  rw [Bool.eq_false_iff]
  intro hi
  simp only [isInitial, Bool.or_eq_true, List.isEmpty_iff, beq_iff_eq] at hi
  obtain ⟨chars⟩ := b
  rcases hi with rfl | rfl <;> exact absurd h (by decide)

theorem types_digit (c : Char) (h : b = {} ∨ b.isInitial = false) :
    Types calculator b [.digit c] (b.push c) := by
  rintro pad rfl hj
  refine ⟨?_, rfl⟩
  show (if pad.justEvaluated || pad.buffer.isInitial then ⟨[c]⟩ else pad.buffer.push c) = _
  rw [hj, Bool.false_or]
  rcases h with h | h
  · rw [h]; rfl
  · rw [h]; rfl

theorem types_point (h : b.trailingSegmentHasPoint = false) :
    Types calculator b [.point] (b.push '.') := by
  rintro pad rfl hj
  refine ⟨?_, rfl⟩
  show (if pad.justEvaluated then ⟨['.']⟩ else if pad.buffer.trailingSegmentHasPoint
    then pad.buffer else pad.buffer.push '.') = _
  rw [hj, h]
  rfl

/-- A minus at the start is a sign. -/
theorem types_sign (h : AtStart b) :
    Types calculator b [.operator .subtract] (b.push '-') := by
  rintro pad rfl hj
  refine ⟨?_, rfl⟩
  have hstart : pad.buffer.isEmpty = true ∨ pad.buffer.endsWithOpenParen = true :=
    h.imp_left fun he => by rw [he]; rfl
  show (if BinaryOperation.subtract = .subtract ∧ (_ ∨ _) then _ else _) = _
  rw [if_pos ⟨rfl, hstart⟩]
  rfl

theorem types_operator (h : EndsOperand b.chars) (op : BinaryOperation) :
    Types calculator b [.operator op] (b.append (' ' :: (op.typed.toList ++ [' ']))) := by
  rintro pad rfl hj
  refine ⟨?_, rfl⟩
  obtain ⟨hempty, hopen, hends⟩ := guards_of_endsOperand h
  show (if op = .subtract ∧ (_ ∨ _) then _ else if _ ∨ _ then _ else _) = _
  rw [if_neg (by simp [Keypad.forget, Key.keepsResult, hempty, hopen]),
    if_neg (by simp [Keypad.forget, Key.keepsResult, hempty, hends])]
  rfl

theorem buffer_pressParen (pad : Keypad) (hj : pad.justEvaluated = false) (c : Char) :
    (pad.pressParen c).buffer = pad.buffer.push c := by
  show (if pad.justEvaluated then ⟨[c]⟩ else pad.buffer.push c) = _
  rw [hj]
  rfl

theorem types_openParen (b : Buffer) : Types calculator b [.openParen] (b.push '(') := by
  rintro pad rfl hj
  exact ⟨buffer_pressParen pad.forget hj '(', rfl⟩

theorem types_closeParen (b : Buffer) : Types calculator b [.closeParen] (b.push ')') := by
  rintro pad rfl hj
  exact ⟨buffer_pressParen pad.forget hj ')', rfl⟩

/-! ## Terms -/

/-- A term is appended where an operand is missing, whichever way its key tells a fresh text. -/
theorem buffer_insertTerm (pad : Keypad) {fresh : Bool} (h : Awaits pad.buffer)
    (hf : pad.buffer = {} → fresh = true)
    (hf' : pad.buffer.endsWithOperatorOrOpen = true → fresh = false) (term : List Char) :
    (pad.insertTerm term fresh).buffer = pad.buffer.append term := by
  show (if fresh then ⟨term⟩ else if pad.buffer.endsWithOperatorOrOpen then pad.buffer.append term
    else _) = _
  rcases h with h | ⟨h, -⟩
  · rw [hf h, h]
    rfl
  · rw [hf' h, h]
    rfl

theorem types_constant (h : Awaits b) (name : String) :
    Types calculator b [.constant name] (b.append name.toList) := by
  rintro pad rfl hj
  refine ⟨buffer_insertTerm pad.forget h (fun he => ?_) (fun he => ?_) _, rfl⟩
  · show (pad.justEvaluated || pad.forget.buffer.isInitial) = true
    rw [he, hj]
    rfl
  · have hi : pad.buffer.isInitial = false := isInitial_eq_false he
    show (pad.justEvaluated || pad.buffer.isInitial) = false
    rw [hj, hi]
    rfl

theorem types_function (h : Awaits b) (name : String) :
    Types calculator b [.function name] (b.append (name.toList ++ ['('])) := by
  rintro pad rfl hj
  refine ⟨buffer_insertTerm pad.forget h (fun he => ?_) (fun he => ?_) _, rfl⟩
  · show (pad.justEvaluated || pad.forget.buffer.isEmpty) = true
    rw [he, hj]
    rfl
  · have hi := isInitial_eq_false he
    rw [isInitial, Bool.or_eq_false_iff] at hi
    show (pad.justEvaluated || pad.buffer.isEmpty) = false
    rw [hj]
    exact hi.1

/-- Behind an operand a function key types the multiplication, too. -/
theorem types_function_behind (h : EndsOperand b.chars) (name : String) :
    Types calculator b [.function name] (b.append (" * ".toList ++ (name.toList ++ ['(']))) := by
  rintro pad rfl hj
  refine ⟨?_, rfl⟩
  obtain ⟨hempty, -, hends⟩ := guards_of_endsOperand h
  show (if pad.justEvaluated || pad.buffer.isEmpty then _
    else if pad.buffer.endsWithOperatorOrOpen then _ else _) = _
  rw [hj, hempty, hends]
  rfl

/-! ## Numbers -/

theorem isInitial_push_push (front : Buffer) (c d : Char) :
    ((front.push c).push d).isInitial = false := by
  have hlen : (front.chars ++ [c, d]).length ≠ ['0'].length := by simp
  have hne : front.chars ++ [c, d] ≠ ['0'] := fun h => hlen (congrArg List.length h)
  simpa [isInitial, push] using hne

theorem eq_zero_of_isInitial_push (h : (b.push c).isInitial = true) : c = '0' := by
  have he : b.chars ++ [c] = ['0'] := by simpa [isInitial, push] using h
  have := congrArg List.getLast? he
  simpa using this

theorem types_digits (h : b.isInitial = false) (ds : List Char) :
    Types calculator b (ds.map .digit) (b.append ds) := by
  induction ds generalizing b with
  | nil => rw [append_nil]; exact types_nil b
  | cons d ds ih =>
      have hpush : (b.push d).isInitial = false := by
        rcases eq_empty_or_push b with rfl | ⟨front, c, rfl⟩
        · cases h
        · exact isInitial_push_push front c d
      rw [append_cons]
      exact types_cons (types_digit d (.inr h)) (ih hpush)

/-- Only a zero at the start would be replaced by a further digit, and there is none behind it. -/
theorem types_whole (n : Numeral) (h : Awaits b) :
    Types calculator b (n.whole.map .digit) (b.append n.whole) := by
  cases hw : n.whole with
  | nil => rw [append_nil]; exact types_nil b
  | cons d ds =>
      have hfirst : Types calculator b [.digit d] (b.push d) :=
        types_digit d (h.imp_right fun he => isInitial_eq_false he.1)
      rw [append_cons]
      by_cases hi : (b.push d).isInitial = true
      · -- the text is a single zero, and so is the whole part
        have hd := eq_zero_of_isInitial_push hi
        have hds : d :: ds = ['0'] := by
          rw [← hw]
          exact n.noLeadingZero (by rw [hw, hd]; rfl)
        rw [(List.cons.inj hds).2, append_nil]
        exact hfirst
      · exact types_cons hfirst (types_digits (by simpa using hi) ds)

theorem hasPoint_of_awaits (h : Awaits b) : b.trailingSegmentHasPoint = false := by
  unfold trailingSegmentHasPoint
  rcases h with rfl | ⟨-, h⟩
  · rfl
  · rw [h]; rfl

theorem types_numeral (n : Numeral) (h : Awaits b) :
    Types calculator b n.keys (b.append n.text) := by
  have hwhole : Types calculator b _ _ := types_whole n h
  unfold Numeral.keys Numeral.text Numeral.tail
  cases hf : n.fraction with
  | none =>
      simp only [Option.map_none, Option.getD_none, List.append_nil]
      exact hwhole
  | some ds =>
      -- no digit of the whole part is a point, and the number starts a segment
      have hpoint : (b.append n.whole).trailingSegmentHasPoint = false := by
        refine hasPoint_append_of_isLoose (hasPoint_of_awaits h) fun c hc => ?_
        exact isLoose_of_isDigit (n.isDigit c (List.mem_append_left _ hc))
      have hstart : ((b.append n.whole).push '.').isInitial = false := by
        rw [Bool.eq_false_iff]
        intro hi
        exact absurd (eq_zero_of_isInitial_push hi) (by decide)
      have happ : b.append (n.whole ++ '.' :: ds) =
          ((b.append n.whole).push '.').append ds := by simp [append, push]
      simp only [Option.map_some, Option.getD_some]
      rw [happ]
      exact types_append hwhole (types_cons (types_point hpoint) (types_digits hstart ds))

/-! ## Where a text ends -/

theorem endsOperand_of_digits {cs : List Char} (hne : cs ≠ [])
    (h : ∀ c ∈ cs, c.isDigit = true ∨ c = '.') : EndsOperand cs := by
  have hend : ∀ c ∈ cs, isOperandEnd c = true := by
    intro c hc
    rcases h c hc with hd | rfl
    · have hw : c ≠ 'w' := by rintro rfl; exact absurd hd (by decide)
      simp [isOperandEnd, Char.isAlphanum, hd, hw]
    · rfl
  unfold EndsOperand
  rw [List.getLast?_eq_some_getLast hne]
  exact hend _ (List.getLast_mem hne)

theorem endsOperand_numeral (n : Numeral) : EndsOperand n.text :=
  endsOperand_of_digits n.text_ne_nil fun _ => n.isDigit_or_eq_point

theorem endsOperand_name {name : String} (h : name ∈ Environment.names) :
    EndsOperand name.toList := by
  have all_names : ∀ name ∈ Environment.names,
      name.toList.getLast?.any isOperandEnd = true := by decide
  exact all_names name h

theorem endsOperand_closeParen (front : List Char) : EndsOperand (front ++ [')']) :=
  endsOperand_append front rfl

variable {env : Environment}

/-- Every part ends in an operand, if it does not leave one that came before it as it is. -/
theorem endsOperand_text {p : Part} (d : Phrase env p) (front : List Char)
    (h : p = .links → EndsOperand front) : EndsOperand (front ++ d.text) := by
  induction d generalizing front with
  | expression negated first links ihFirst ihLinks =>
      have hfirst := ihFirst (front ++ if negated then ['-'] else []) nofun
      have hlinks := ihLinks _ fun _ => hfirst
      simpa [Phrase.text] using hlinks
  | number n => exact endsOperand_append front (endsOperand_numeral n)
  | constant c =>
      exact endsOperand_append front (endsOperand_name (Environment.mem_names_of_lookup c.bound))
  | application f argument _ =>
      have h := endsOperand_closeParen (front ++ (f.name.toList ++ '(' :: argument.text))
      simpa [Phrase.text] using h
  | parenthesized inner _ =>
      have h := endsOperand_closeParen (front ++ '(' :: inner.text)
      simpa [Phrase.text] using h
  | noLinks => simpa [Phrase.text] using h rfl
  | link op operand links ihOperand ihLinks =>
      have hoperand := ihOperand (front ++ ' ' :: (op.typed.toList ++ [' '])) nofun
      have hlinks := ihLinks _ fun _ => hoperand
      simpa [Phrase.text] using hlinks
  | juxtaposed f argument links _ ihLinks =>
      have h := endsOperand_closeParen
        (front ++ " * ".toList ++ (f.name.toList ++ '(' :: argument.text))
      have hlinks := ihLinks _ fun _ => h
      simpa [Phrase.text] using hlinks

/-! ## Phrases -/

theorem append_append (b : Buffer) (cs cs' : List Char) :
    (b.append cs).append cs' = b.append (cs ++ cs') := by
  simp [append]

theorem push_eq_append (b : Buffer) (c : Char) : b.push c = b.append [c] := rfl

/-- A phrase adds its text to the buffer wherever it has its place. -/
def TypesText (calculator : Calculator) {p : Part} (d : Phrase env p) : Prop :=
  ∀ {b : Buffer}, p.Place b → Types calculator b d.keys (b.append d.text)

/-- What stands in parentheses is typed as an expression of its own. -/
theorem types_inside {argument : Phrase env .expression} (h : TypesText calculator argument)
    (b : Buffer) :
    Types calculator (b.push '(') (argument.keys ++ [.closeParen])
      (b.append ('(' :: (argument.text ++ [')']))) := by
  have hclose := types_append (h (atStart_push_open b)) (types_closeParen _)
  simpa [push_eq_append, append_append] using hclose

/-- An operand is typed with what follows it. -/
theorem types_linked {operand : Phrase env .operand} {links : Phrase env .links}
    (hOperand : TypesText calculator operand) (hLinks : TypesText calculator links)
    (h : Awaits b) :
    Types calculator b (operand.keys ++ links.keys) (b.append (operand.text ++ links.text)) := by
  have hend : EndsOperand (b.append operand.text).chars := endsOperand_text operand b.chars nofun
  have hboth := types_append (hOperand h) (hLinks hend)
  rwa [append_append] at hboth

/-- **A phrase types its text**: no key is dropped, and each adds what stands for it. -/
theorem typesText {p : Part} (d : Phrase env p) : TypesText calculator d := by
  induction d with
  | expression negated first links ihFirst ihLinks =>
      intro b h
      cases negated with
      | false => exact types_linked ihFirst ihLinks (awaits_of_atStart h)
      | true =>
          -- behind the sign the operand is still missing
          have hsign : Awaits (b.push '-') := awaits_push b rfl
          have hrest := types_linked ihFirst ihLinks hsign
          have hall := types_cons (types_sign h) hrest
          rw [push_eq_append, append_append] at hall
          exact hall
  | number n => exact fun h => types_numeral n h
  | constant c => exact fun h => types_constant h c.name
  | application f argument ih =>
      intro b h
      have hname : Types calculator b _ _ := types_function h f.name
      rw [← append_append, ← push_eq_append] at hname
      have hall := types_cons hname (types_inside ih _)
      rw [append_append] at hall
      exact hall
  | parenthesized inner ih => exact fun _ => types_cons (types_openParen _) (types_inside ih _)
  | noLinks =>
      intro b _
      rw [Phrase.text, append_nil]
      exact types_nil b
  | link op operand links ihOperand ihLinks =>
      intro b h
      have hrest := types_linked ihOperand ihLinks (awaits_append_operator b op)
      have hall := types_cons (types_operator h op) hrest
      simpa [append_append, Phrase.text, Phrase.keys] using hall
  | juxtaposed f argument links ih ihLinks =>
      intro b h
      have hname : Types calculator b _ _ := types_function_behind h f.name
      rw [← List.append_assoc, ← append_append, ← push_eq_append] at hname
      have hcall := types_cons hname (types_inside ih _)
      -- the links go on behind the parenthesis that closes the call
      have hend : EndsOperand ((b.append (" * ".toList ++ f.name.toList)).append
          ('(' :: (argument.text ++ [')']))).chars := by
        have := endsOperand_closeParen
          ((b.append (" * ".toList ++ f.name.toList)).chars ++ '(' :: argument.text)
        simpa [append] using this
      have hall := types_append hcall (ihLinks hend)
      simpa [append_append, Phrase.text, Phrase.keys] using hall

end Typing

end PocketCalc

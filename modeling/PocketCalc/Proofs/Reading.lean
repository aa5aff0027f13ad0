import PocketCalc.Proofs.Readers

/-!
# Readers and derivations

A reader with room for `room` more levels finds exactly the phrases that nest no deeper than that.
**Soundness**: what it reads is the tree of a derivation of the tokens it took. **Completeness**:
in front of tokens that cannot carry a phrase on it reads that phrase. Both are proved for the
readers of one level from the same about the level below, and then for all levels by induction on
the room.
-/

namespace PocketCalc

/-! ## Tokens that spell a phrase -/

/-- The front of `ts` is spelled like this, and `rest` follows it. -/
def Spells (ts : List Token) (kinds : List TokenKind) (rest : List Token) : Prop :=
  ∃ front, ts = front ++ rest ∧ front.map (·.kind) = kinds

@[simp] theorem spells_nil {ts rest : List Token} : Spells ts [] rest ↔ ts = rest := by
  simp [Spells]

@[simp] theorem spells_cons {ts rest : List Token} {k : TokenKind} {ks : List TokenKind} :
    Spells ts (k :: ks) rest ↔ ∃ t mid, ts = t :: mid ∧ t.kind = k ∧ Spells mid ks rest := by
  constructor
  · rintro ⟨front, rfl, h⟩
    obtain ⟨t, front, rfl, rfl, rfl⟩ := List.map_eq_cons_iff.mp h
    exact ⟨t, front ++ rest, rfl, rfl, front, rfl, rfl⟩
  · rintro ⟨t, _, rfl, rfl, front, rfl, rfl⟩
    exact ⟨t :: front, rfl, rfl⟩

@[simp] theorem spells_append {ts rest : List Token} {ks ks' : List TokenKind} :
    Spells ts (ks ++ ks') rest ↔ ∃ mid, Spells ts ks mid ∧ Spells mid ks' rest := by
  constructor
  · rintro ⟨front, rfl, h⟩
    obtain ⟨front, front', rfl, rfl, rfl⟩ := List.map_eq_append_iff.mp h
    exact ⟨front' ++ rest, ⟨front, by simp, rfl⟩, front', rfl, rfl⟩
  · rintro ⟨_, ⟨front, rfl, rfl⟩, front', rfl, rfl⟩
    exact ⟨front ++ front', by simp, by simp⟩

theorem Spells.map_kind {ts rest : List Token} {ks : List TokenKind} (h : Spells ts ks rest) :
    ts.map (·.kind) = ks ++ rest.map (·.kind) := by
  obtain ⟨front, rfl, rfl⟩ := h
  simp

/-- The first token is the first that is spelled. -/
theorem Spells.head {ts rest : List Token} {k : TokenKind} {ks : List TokenKind}
    (h : Spells ts (k :: ks) rest) : ∀ t ∈ ts.head?, t.kind = k := by
  obtain ⟨t, mid, rfl, rfl, -⟩ := spells_cons.mp h
  intro t' ht
  cases ht
  rfl

/-- Either the first token is of a kind or none of that kind comes first. -/
theorem head_kind_cases (k : TokenKind) (ts : List Token) :
    (∀ t ∈ ts.head?, t.kind ≠ k) ∨ ∃ t rest, ts = t :: rest ∧ t.kind = k := by
  cases ts with
  | nil => exact .inl (by intro t ht; cases ht)
  | cons t rest =>
      by_cases hk : t.kind = k
      · exact .inr ⟨t, rest, rfl, hk⟩
      · exact .inl (by intro t' ht; cases ht; exact hk)

/-! ## Sequencing -/

theorem bind_eq_ok {α β : Type} {read : Except SyntaxFault α} {next : α → Except SyntaxFault β}
    {y : β} (h : read >>= next = .ok y) : ∃ x, read = .ok x ∧ next x = .ok y := by
  cases read with
  | error fault => cases h
  | ok x => exact ⟨x, rfl, h⟩

theorem bind_ok {α β : Type} {read : Except SyntaxFault α} {next : α → Except SyntaxFault β}
    {x : α} (h : read = .ok x) : read >>= next = next x := by
  rw [h]; rfl

theorem length_lt_of_outcome {α : Type} {bound : Nat} {read : Except SyntaxFault (Taken α bound)}
    {x : α} {rest : List Token} (h : outcome read = .ok (x, rest)) : rest.length < bound := by
  cases read with
  | error fault => cases h
  | ok taken => cases h; exact taken.shorter

namespace Grammar

/-- The operators that a reader of chains looks for. -/
def operatorOf : Strength → TokenKind → Option ChainOperator
  | .sum => Expr.sumOperator?
  | .product => Expr.productOperator?

theorem operatorOf_eq_some {s : Strength} {k : TokenKind} {op : ChainOperator} :
    operatorOf s k = some op ↔ op.strength = s ∧ op.token = k := by
  cases s <;> cases op <;> cases k <;>
    simp [operatorOf, Expr.sumOperator?, Expr.productOperator?, ChainOperator.strength,
      ChainOperator.token]

/-- No operator of a chain may follow it. -/
theorem operatorOf_eq_none {s : Strength} {t : Token} {ts : List Token}
    (h : Stops (.chain s) ((t :: ts).map (·.kind))) : operatorOf s t.kind = none := by
  cases ho : operatorOf s t.kind with
  | none => rfl
  | some op =>
      obtain ⟨rfl, hk⟩ := operatorOf_eq_some.mp ho
      rw [List.map_cons, stops_cons, ← hk] at h
      exact absurd h (Nat.not_lt.mpr (grip_token op).1)

/-! ## Soundness -/

/-- What is read as a `c` is the tree of a derivation of it that nests at most `room` levels. -/
def Sound (c : Nonterminal) (room : Nat) {bound : List Token → Nat}
    (read : (ts : List Token) → Except SyntaxFault (Taken c.Meaning (bound ts))) : Prop :=
  ∀ {ts rest : List Token} {x : c.Meaning}, outcome (read ts) = .ok (x, rest) →
    ∃ d : Derivation c, d.tree = x ∧ d.depth ≤ room ∧ Spells ts d.tokens rest

theorem sound_readLinks {s : Strength} {room : Nat} {operand : Reader Expr}
    (hOperand : Sound (.operand s) room operand) :
    Sound (.links s) room (Expr.readLinks (operatorOf s) operand) := by
  -- the operand of a link takes a token, so the links behind it are fewer
  have go : ∀ (n : Nat) {ts rest : List Token} {x : List (ChainOperator × Expr)}, ts.length = n →
      outcome (Expr.readLinks (operatorOf s) operand ts) = .ok (x, rest) →
      ∃ d : Derivation (.links s), d.tree = x ∧ d.depth ≤ room ∧ Spells ts d.tokens rest := by
    intro n
    induction n using Nat.strongRecOn with
    | ind n ih =>
    intro ts rest x hn h
    cases ts with
    | nil =>
        rw [Expr.outcome_readLinks_nil] at h
        cases h
        exact ⟨.noLinks, rfl, Nat.zero_le _, spells_nil.mpr rfl⟩
    | cons t ts =>
        cases ho : operatorOf s t.kind with
        | none =>
            rw [Expr.outcome_readLinks_none ho] at h
            cases h
            exact ⟨.noLinks, rfl, Nat.zero_le _, spells_nil.mpr rfl⟩
        | some op =>
            rw [Expr.outcome_readLinks_some ho] at h
            obtain ⟨⟨y, mid⟩, hy, h⟩ := bind_eq_ok h
            obtain ⟨⟨more, rest'⟩, hmore, h⟩ := bind_eq_ok h
            cases h
            obtain ⟨hs, hk⟩ := operatorOf_eq_some.mp ho
            have hlt : mid.length < n := by
              have := length_lt_of_outcome hy
              simp only [List.length_cons] at hn
              omega
            obtain ⟨d, rfl, hd, hspell⟩ := hOperand hy
            obtain ⟨ds, rfl, hds, hspells⟩ := ih _ hlt rfl hmore
            refine ⟨.link op hs d ds, rfl, Nat.max_le.mpr ⟨hd, hds⟩, ?_⟩
            exact spells_cons.mpr ⟨t, ts, rfl, hk.symm, spells_append.mpr ⟨mid, hspell, hspells⟩⟩
  intro ts rest x h
  exact go _ rfl h

theorem sound_readChain {s : Strength} {room : Nat} {operand : Reader Expr}
    (hOperand : Sound (.operand s) room operand) :
    Sound (.chain s) room (Expr.readChain (operatorOf s) operand) := by
  intro ts rest x h
  rw [Expr.outcome_readChain] at h
  obtain ⟨⟨y, mid⟩, hy, h⟩ := bind_eq_ok h
  obtain ⟨⟨links, rest'⟩, hlinks, h⟩ := bind_eq_ok h
  cases h
  obtain ⟨d, rfl, hd, hspell⟩ := hOperand hy
  obtain ⟨ds, rfl, hds, hspells⟩ := sound_readLinks hOperand hlinks
  exact ⟨.chain d ds, rfl, Nat.max_le.mpr ⟨hd, hds⟩, spells_append.mpr ⟨mid, hspell, hspells⟩⟩

/-- An expression is a sum of products of what is under signs. -/
theorem sound_expression {room : Nat} {level : Expr.Level}
    (hSigned : Sound .signed room level.signed) :
    Sound .expression room level.expression := by
  refine sound_readChain (s := .sum) fun {ts rest x} h => ?_
  obtain ⟨d, rfl, hd, hspell⟩ := sound_readChain (s := .product) (fun {ts rest x} h => by
    obtain ⟨d, rfl, hd, hspell⟩ := hSigned h
    exact ⟨.factor d, rfl, hd, hspell⟩) h
  exact ⟨.term d, rfl, hd, hspell⟩

/-- A list of arguments is read together with the parenthesis that closes it. -/
theorem sound_readArguments {room : Nat} {expression : Reader Expr}
    (hExpression : Sound .expression room expression) (n : Nat) :
    ∀ {ts rest : List Token} {xs : List Expr}, ts.length = n →
      outcome (Expr.readArguments expression ts) = .ok (xs, rest) →
      ∃ d : Derivation .arguments, d.tree = xs ∧ d.depth ≤ room ∧
        Spells ts (d.tokens ++ [.closeParen]) rest := by
  induction n using Nat.strongRecOn with
  | ind n ih =>
    intro ts rest xs hn h
    rcases head_kind_cases .closeParen ts with hc | ⟨t, ts, rfl, hk⟩
    · rw [Expr.outcome_readArguments hc] at h
      obtain ⟨⟨x, mid⟩, hx, h⟩ := bind_eq_ok h
      have hlt := length_lt_of_outcome hx
      obtain ⟨d, rfl, hd, hspell⟩ := hExpression hx
      unfold Expr.afterArgument at h
      split at h
      · rename_i start stop rest' hm
        subst hm
        cases h
        refine ⟨.arguments d .lastArgument, rfl, Nat.max_le.mpr ⟨hd, Nat.zero_le _⟩, ?_⟩
        simp only [Derivation.tokens, List.append_nil, spells_append, spells_cons, spells_nil]
        exact ⟨_, hspell, ⟨.closeParen, start, stop⟩, rest, rfl, rfl, rfl⟩
      · rename_i start stop mid hm
        subst hm
        obtain ⟨⟨ys, rest'⟩, hys, h⟩ := bind_eq_ok h
        cases h
        simp only [List.length_cons] at hlt
        obtain ⟨ds, rfl, hds, hspells⟩ := ih _ (by omega) rfl hys
        -- a comma is the end of the list, or a list without its first argument follows it
        cases ds with
        | noArguments =>
            refine ⟨.arguments d .trailingComma, rfl, Nat.max_le.mpr ⟨hd, Nat.zero_le _⟩, ?_⟩
            have hcomma : Spells (⟨.comma, start, stop⟩ :: mid) [.comma, .closeParen] rest' :=
              spells_cons.mpr ⟨_, mid, rfl, rfl, hspells⟩
            show Spells ts ((d.tokens ++ [.comma]) ++ [.closeParen]) rest'
            rw [List.append_assoc]
            exact spells_append.mpr ⟨_, hspell, hcomma⟩
        | arguments next more =>
            refine ⟨.arguments d (.argument next more), rfl, Nat.max_le.mpr ⟨hd, hds⟩, ?_⟩
            have hcomma : Spells (⟨.comma, start, stop⟩ :: mid)
                (.comma :: ((next.tokens ++ more.tokens) ++ [.closeParen])) rest' :=
              spells_cons.mpr ⟨_, mid, rfl, rfl, hspells⟩
            show Spells ts ((d.tokens ++ .comma :: (next.tokens ++ more.tokens)) ++ [.closeParen])
              rest'
            rw [List.append_assoc]
            exact spells_append.mpr ⟨_, hspell, hcomma⟩
      · cases h
    · rw [Expr.outcome_readArguments_close _ hk] at h
      cases h
      exact ⟨.noArguments, rfl, Nat.zero_le _, by simpa [Derivation.tokens] using hk⟩

/-- The readers of a level are sound. -/
structure LevelSound (room : Nat) (level : Expr.Level) : Prop where
  signed : Sound .signed room level.signed
  trailers : ∀ {callee x : Expr} {ts rest : List Token},
    outcome (level.trailers callee ts) = .ok (x, rest) →
    ∃ d : Derivation .trailers, d.tree.foldl .call callee = x ∧ d.depth ≤ room ∧
      Spells ts d.tokens rest

/-- The level below is sound, where there is one. -/
def BelowSound (room : Nat) (below : Option Expr.Level) : Prop :=
  ∀ level, Expr.Level.enter below = .ok level → ∃ r, room = r + 1 ∧ LevelSound r level

theorem sound_readTrailers {room : Nat} {below : Option Expr.Level}
    (hBelow : BelowSound room below) {callee x : Expr} {ts rest : List Token}
    (h : outcome (Expr.Level.readTrailers below callee ts) = .ok (x, rest)) :
    ∃ d : Derivation .trailers, d.tree.foldl .call callee = x ∧ d.depth ≤ room ∧
      Spells ts d.tokens rest := by
  rcases head_kind_cases .openParen ts with ho | ⟨t, ts, rfl, hk⟩
  · rw [Expr.Level.outcome_readTrailers_none _ _ ho] at h
    cases h
    exact ⟨.noTrailers, rfl, Nat.zero_le _, spells_nil.mpr rfl⟩
  · -- the arguments and the trailers behind them are both read one level down
    rw [Expr.Level.outcome_readTrailers_open _ _ hk] at h
    obtain ⟨level, hlevel, h⟩ := bind_eq_ok h
    obtain ⟨r, rfl, hr⟩ := hBelow level hlevel
    obtain ⟨⟨args, mid⟩, hargs, h⟩ := bind_eq_ok h
    obtain ⟨d, rfl, hd, hspell⟩ := sound_readArguments (sound_expression hr.signed) _ rfl hargs
    obtain ⟨ds, rfl, hds, hspells⟩ := hr.trailers h
    refine ⟨.trailer d ds, rfl, Nat.succ_le_succ (Nat.max_le.mpr ⟨hd, hds⟩), ?_⟩
    simp only [Derivation.tokens, spells_cons, spells_append, spells_nil] at hspell ⊢
    obtain ⟨mid', hspell, t', mid'', rfl, hk', rfl⟩ := hspell
    exact ⟨_, _, rfl, hk, _, hspell, _, _, rfl, hk', hspells⟩

theorem sound_readPrimary {room : Nat} {below : Option Expr.Level}
    (hBelow : BelowSound room below) :
    Sound .primary room (Expr.Level.readPrimary below) := by
  intro ts rest x h
  cases ts with
  | nil => cases h
  | cons t ts =>
      cases hk : t.kind with
      | number y =>
          rw [Expr.Level.outcome_readPrimary_number _ hk] at h
          cases h
          exact ⟨.number y, rfl, Nat.zero_le _, by simpa [Derivation.tokens] using hk⟩
      | identifier id =>
          rw [Expr.Level.outcome_readPrimary_name _ hk] at h
          cases h
          exact ⟨.name id, rfl, Nat.zero_le _, by simpa [Derivation.tokens] using hk⟩
      | openParen =>
          rw [Expr.Level.outcome_readPrimary_open _ hk] at h
          obtain ⟨level, hlevel, h⟩ := bind_eq_ok h
          obtain ⟨r, rfl, hr⟩ := hBelow level hlevel
          obtain ⟨⟨y, mid⟩, hy, h⟩ := bind_eq_ok h
          obtain ⟨d, rfl, hd, hspell⟩ := sound_expression hr.signed hy
          unfold Expr.Level.afterInner at h
          split at h
          · rename_i start stop rest' hm
            subst hm
            cases h
            refine ⟨.parenthesized d, rfl, Nat.succ_le_succ hd, ?_⟩
            simp only [Derivation.tokens, spells_cons, spells_append, spells_nil]
            exact ⟨t, ts, rfl, hk, _, hspell, ⟨.closeParen, start, stop⟩, rest, rfl, rfl, rfl⟩
          · cases h
      | _ =>
          rw [Expr.Level.outcome_readPrimary_other _ (by
            intro t' ht; cases ht; rw [hk]; rfl)] at h
          cases h

theorem sound_readPower {room : Nat} {below : Option Expr.Level}
    (hBelow : BelowSound room below) : Sound .power room (Expr.Level.readPower below) := by
  intro ts rest x h
  rw [Expr.Level.outcome_readPower] at h
  obtain ⟨⟨y, mid⟩, hy, h⟩ := bind_eq_ok h
  obtain ⟨⟨z, mid'⟩, hz, h⟩ := bind_eq_ok h
  obtain ⟨d, rfl, hd, hspell⟩ := sound_readPrimary hBelow hy
  obtain ⟨ds, rfl, hds, hspells⟩ := sound_readTrailers hBelow hz
  -- with an exponent behind it or without, what was read so far is a call
  have hcall : Spells ts (Derivation.called d ds).tokens mid' :=
    spells_append.mpr ⟨mid, hspell, hspells⟩
  have hdepth : (Derivation.called d ds).depth ≤ room := Nat.max_le.mpr ⟨hd, hds⟩
  unfold Expr.Level.afterBase at h
  split at h
  · rename_i start stop mid'' hm
    subst hm
    obtain ⟨level, hlevel, h⟩ := bind_eq_ok h
    obtain ⟨r, rfl, hr⟩ := hBelow level hlevel
    obtain ⟨⟨e, rest'⟩, he, h⟩ := bind_eq_ok h
    cases h
    obtain ⟨de, rfl, hde, hspelle⟩ := hr.signed he
    refine ⟨.raised (.called d ds) de, rfl,
      Nat.max_le.mpr ⟨hdepth, Nat.succ_le_succ hde⟩, ?_⟩
    have hexponent : Spells (⟨.power, start, stop⟩ :: mid'') (.power :: de.tokens) rest' :=
      spells_cons.mpr ⟨⟨.power, start, stop⟩, mid'', rfl, rfl, hspelle⟩
    exact spells_append.mpr ⟨_, hcall, hexponent⟩
  · cases h
    exact ⟨.bare (.called d ds), rfl, hdepth, hcall⟩

theorem sound_readSigned {room : Nat} {below : Option Expr.Level}
    (hBelow : BelowSound room below) : Sound .signed room (Expr.Level.readSigned below) := by
  intro ts rest x h
  by_cases hs : ∀ t ∈ ts.head?, t.kind ≠ .minus ∧ t.kind ≠ .plus
  · rw [Expr.Level.outcome_readSigned_power _ hs] at h
    obtain ⟨d, rfl, hd, hspell⟩ := sound_readPower hBelow h
    exact ⟨.unsigned d, rfl, hd, hspell⟩
  · cases ts with
    | nil => exact absurd (by intro t ht; cases ht) hs
    | cons t ts =>
        cases hk : t.kind with
        | minus =>
            rw [Expr.Level.outcome_readSigned_minus _ hk] at h
            obtain ⟨level, hlevel, h⟩ := bind_eq_ok h
            obtain ⟨r, rfl, hr⟩ := hBelow level hlevel
            obtain ⟨⟨y, mid⟩, hy, h⟩ := bind_eq_ok h
            cases h
            obtain ⟨d, rfl, hd, hspell⟩ := hr.signed hy
            exact ⟨.minus d, rfl, Nat.succ_le_succ hd, spells_cons.mpr ⟨t, ts, rfl, hk, hspell⟩⟩
        | plus =>
            rw [Expr.Level.outcome_readSigned_plus _ hk] at h
            obtain ⟨level, hlevel, h⟩ := bind_eq_ok h
            obtain ⟨r, rfl, hr⟩ := hBelow level hlevel
            obtain ⟨⟨y, mid⟩, hy, h⟩ := bind_eq_ok h
            cases h
            obtain ⟨d, rfl, hd, hspell⟩ := hr.signed hy
            exact ⟨.plus d, rfl, Nat.succ_le_succ hd, spells_cons.mpr ⟨t, ts, rfl, hk, hspell⟩⟩
        | _ => exact absurd (by intro t' ht; cases ht; rw [hk]; simp) hs

/-- **Soundness at every level.** -/
theorem levelSound (room : Nat) : LevelSound room (Expr.Level.withRoom room) := by
  induction room with
  | zero =>
      -- at the deepest level there is none below to enter
      have hBelow : BelowSound 0 none := by intro level h; cases h
      exact ⟨sound_readSigned hBelow, sound_readTrailers hBelow⟩
  | succ room ih =>
      have hBelow : BelowSound (room + 1) (some (Expr.Level.withRoom room)) := by
        intro level h
        cases h
        exact ⟨room, rfl, ih⟩
      exact ⟨sound_readSigned hBelow, sound_readTrailers hBelow⟩

/-! ## Completeness -/

/-- In front of tokens that cannot carry it on, every `c` that nests at most `room` levels is read
as its tree. -/
def Complete (c : Nonterminal) (room : Nat) {bound : List Token → Nat}
    (read : (ts : List Token) → Except SyntaxFault (Taken c.Meaning (bound ts))) : Prop :=
  ∀ {ts rest : List Token} (d : Derivation c), d.depth ≤ room → Spells ts d.tokens rest →
    Stops c (rest.map (·.kind)) → outcome (read ts) = .ok (d.tree, rest)

theorem complete_readLinks {s : Strength} {room : Nat} {operand : Reader Expr}
    (hOperand : Complete (.operand s) room operand) :
    ∀ {ts rest : List Token} (d : Derivation (.links s)), d.depth ≤ room →
      Spells ts d.tokens rest → Stops (.links s) (rest.map (·.kind)) →
      outcome (Expr.readLinks (operatorOf s) operand ts) = .ok (d.tree, rest)
  | [], _, .noLinks, _, hspell, _ => by
      cases spells_nil.mp hspell
      rw [Expr.outcome_readLinks_nil]; rfl
  | t :: ts, _, .noLinks, _, hspell, hstop => by
      cases spells_nil.mp hspell
      rw [Expr.outcome_readLinks_none (operatorOf_eq_none (stops_links.mp hstop))]; rfl
  | _, rest, .link op hs d ds, hdepth, hspell, hstop => by
      obtain ⟨t, ts, rfl, hk, hspell⟩ := spells_cons.mp hspell
      obtain ⟨mid, hspell, hspells⟩ := spells_append.mp hspell
      have hd := Nat.max_le.mp hdepth
      rw [Expr.outcome_readLinks_some (operatorOf_eq_some.mpr ⟨hs, hk.symm⟩)]
      -- behind the operand stands one more operator, or what ends the chain
      have hmid : Stops (.operand s) (mid.map (·.kind)) := by
        rw [hspells.map_kind]; exact stops_operand ds (stops_links.mp hstop)
      rw [bind_ok (hOperand d hd.1 hspell hmid),
        bind_ok (complete_readLinks hOperand ds hd.2 hspells hstop)]
      rfl

theorem complete_readChain {s : Strength} {room : Nat} {operand : Reader Expr}
    (hOperand : Complete (.operand s) room operand) :
    Complete (.chain s) room (Expr.readChain (operatorOf s) operand) := by
  intro ts rest d hdepth hspell hstop
  cases d with
  | chain d ds =>
      obtain ⟨mid, hspell, hspells⟩ := spells_append.mp hspell
      have hd := Nat.max_le.mp hdepth
      have hmid : Stops (.operand s) (mid.map (·.kind)) := by
        rw [hspells.map_kind]; exact stops_operand ds hstop
      rw [Expr.outcome_readChain, bind_ok (hOperand d hd.1 hspell hmid),
        bind_ok (complete_readLinks hOperand ds hd.2 hspells (stops_links.mpr hstop))]
      rfl

theorem complete_expression {room : Nat} {level : Expr.Level}
    (hSigned : Complete .signed room level.signed) :
    Complete .expression room level.expression := by
  refine complete_readChain (s := .sum) fun {ts rest} d hdepth hspell hstop => ?_
  cases d with
  | term product =>
      refine complete_readChain (s := .product) (fun {ts rest} d hdepth hspell hstop => ?_)
        product hdepth hspell (hstop.mono (by decide))
      cases d with
      | factor signed => exact hSigned signed hdepth hspell (hstop.mono (by decide))

theorem afterArgument_close (expression : Reader Expr) (x : Expr) {t : Token} {rest : List Token}
    (h : t.kind = .closeParen) : Expr.afterArgument expression x (t :: rest) = .ok ([x], rest) := by
  obtain ⟨kind, start, stop⟩ := t
  subst h; rfl

theorem afterArgument_comma (expression : Reader Expr) (x : Expr) {t : Token} {rest : List Token}
    (h : t.kind = .comma) :
    Expr.afterArgument expression x (t :: rest) =
      outcome (Expr.readArguments expression rest) >>= fun more => .ok (x :: more.1, more.2) := by
  obtain ⟨kind, start, stop⟩ := t
  subst h; rfl

/-- The first argument of a list is read, and the tokens behind it decide how the list goes on. -/
theorem complete_firstArgument {room : Nat} {expression : Reader Expr}
    (hExpression : Complete .expression room expression) {ts rest : List Token}
    (first : Derivation .expression) (more : Derivation .moreArguments)
    (hdepth : first.depth ≤ room)
    (hspell : Spells ts ((Derivation.arguments first more).tokens ++ [.closeParen]) rest) :
    ∃ mid, Spells mid (more.tokens ++ [.closeParen]) rest ∧
      outcome (Expr.readArguments expression ts) =
        Expr.afterArgument expression first.tree mid := by
  -- an expression does not start with the parenthesis that would end the list
  have hhead : ∀ t ∈ ts.head?, t.kind ≠ .closeParen := by
    obtain ⟨k, ks, hfirst, hk⟩ := exists_start first rfl
    rw [Derivation.tokens, hfirst] at hspell
    intro t ht
    rw [hspell.head t ht]
    rintro rfl
    exact absurd hk (by decide)
  rw [Derivation.tokens, List.append_assoc] at hspell
  obtain ⟨mid, hspell, hspells⟩ := spells_append.mp hspell
  have hmid : Stops .expression (mid.map (·.kind)) := by
    rw [hspells.map_kind, List.append_assoc]
    exact stops_argument more (stops_cons.mpr (by decide))
  refine ⟨mid, hspells, ?_⟩
  rw [Expr.outcome_readArguments hhead, bind_ok (hExpression first hdepth hspell hmid)]

/-- Arguments that are there are read one by one; the induction is on those behind the first. -/
theorem complete_someArguments {room : Nat} {expression : Reader Expr}
    (hExpression : Complete .expression room expression) :
    ∀ {ts rest : List Token} (first : Derivation .expression) (more : Derivation .moreArguments),
      (Derivation.arguments first more).depth ≤ room →
      Spells ts ((Derivation.arguments first more).tokens ++ [.closeParen]) rest →
      outcome (Expr.readArguments expression ts) =
        .ok ((Derivation.arguments first more).tree, rest)
  | _, _, first, .lastArgument, hdepth, hspell => by
      obtain ⟨mid, hspells, h⟩ :=
        complete_firstArgument hExpression first _ (Nat.max_le.mp hdepth).1 hspell
      obtain ⟨t, mid, rfl, hk, hspells⟩ := spells_cons.mp hspells
      cases spells_nil.mp hspells
      rw [h, afterArgument_close _ _ hk]; rfl
  | _, _, first, .trailingComma, hdepth, hspell => by
      obtain ⟨mid, hspells, h⟩ :=
        complete_firstArgument hExpression first _ (Nat.max_le.mp hdepth).1 hspell
      obtain ⟨t, mid, rfl, hk, hspells⟩ := spells_cons.mp hspells
      obtain ⟨t', mid, rfl, hk', hspells⟩ := spells_cons.mp hspells
      cases spells_nil.mp hspells
      rw [h, afterArgument_comma _ _ hk, bind_ok (Expr.outcome_readArguments_close _ hk')]; rfl
  | _, _, first, .argument next more, hdepth, hspell => by
      have hd := Nat.max_le.mp hdepth
      obtain ⟨mid, hspells, h⟩ := complete_firstArgument hExpression first _ hd.1 hspell
      obtain ⟨t, mid, rfl, hk, hspells⟩ := spells_cons.mp hspells
      rw [h, afterArgument_comma _ _ hk,
        bind_ok (complete_someArguments hExpression next more hd.2 hspells)]
      rfl

theorem complete_readArguments {room : Nat} {expression : Reader Expr}
    (hExpression : Complete .expression room expression) {ts rest : List Token}
    (d : Derivation .arguments) (hdepth : d.depth ≤ room)
    (hspell : Spells ts (d.tokens ++ [.closeParen]) rest) :
    outcome (Expr.readArguments expression ts) = .ok (d.tree, rest) := by
  cases d with
  | noArguments =>
      obtain ⟨t, mid, rfl, hk, hspell⟩ := spells_cons.mp hspell
      cases spells_nil.mp hspell
      rw [Expr.outcome_readArguments_close _ hk]; rfl
  | arguments first more => exact complete_someArguments hExpression first more hdepth hspell

/-- The readers of a level are complete. -/
structure LevelComplete (room : Nat) (level : Expr.Level) : Prop where
  signed : Complete .signed room level.signed
  trailers : ∀ {callee : Expr} {ts rest : List Token} (d : Derivation .trailers),
    d.depth ≤ room → Spells ts d.tokens rest → Stops .trailers (rest.map (·.kind)) →
    outcome (level.trailers callee ts) = .ok (d.tree.foldl .call callee, rest)

/-- Where there is room there is a level below, and it is complete. -/
def BelowComplete (room : Nat) (below : Option Expr.Level) : Prop :=
  ∀ r, room = r + 1 → ∃ level, Expr.Level.enter below = .ok level ∧ LevelComplete r level

/-- A phrase one level down needs a level below. -/
theorem BelowComplete.enter {room depth : Nat} {below : Option Expr.Level}
    (hBelow : BelowComplete room below) (h : depth + 1 ≤ room) :
    ∃ r level, Expr.Level.enter below = .ok level ∧ LevelComplete r level ∧ depth ≤ r := by
  obtain ⟨r, rfl⟩ : ∃ r, room = r + 1 := ⟨room - 1, by omega⟩
  obtain ⟨level, hlevel, hr⟩ := hBelow r rfl
  exact ⟨r, level, hlevel, hr, Nat.le_of_succ_le_succ h⟩

theorem complete_readTrailers {room : Nat} {below : Option Expr.Level}
    (hBelow : BelowComplete room below) {callee : Expr} {ts rest : List Token}
    (d : Derivation .trailers) (hdepth : d.depth ≤ room) (hspell : Spells ts d.tokens rest)
    (hstop : Stops .trailers (rest.map (·.kind))) :
    outcome (Expr.Level.readTrailers below callee ts) =
      .ok (d.tree.foldl .call callee, rest) := by
  cases d with
  | noTrailers =>
      cases spells_nil.mp hspell
      refine Expr.Level.outcome_readTrailers_none _ _ fun t ht hk => ?_
      cases ts with
      | nil => cases ht
      | cons t' ts =>
          cases ht
          exact not_stops_openParen (by rw [List.map_cons, hk]) hstop
  | trailer args trailers =>
      obtain ⟨r, level, hlevel, hr, hd⟩ := hBelow.enter hdepth
      obtain ⟨t, mid, rfl, hk, hspell⟩ := spells_cons.mp hspell
      rw [← List.singleton_append, ← List.append_assoc] at hspell
      obtain ⟨mid, hargs, htrailers⟩ := spells_append.mp hspell
      have hd := Nat.max_le.mp hd
      rw [Expr.Level.outcome_readTrailers_open _ _ hk, bind_ok hlevel,
        bind_ok (complete_readArguments (complete_expression hr.signed) args hd.1 hargs)]
      exact hr.trailers trailers hd.2 htrailers hstop

theorem complete_readPrimary {room : Nat} {below : Option Expr.Level}
    (hBelow : BelowComplete room below) :
    Complete .primary room (Expr.Level.readPrimary below) := by
  intro ts rest d hdepth hspell _
  cases d with
  | number x =>
      obtain ⟨t, mid, rfl, hk, hspell⟩ := spells_cons.mp hspell
      cases spells_nil.mp hspell
      rw [Expr.Level.outcome_readPrimary_number _ hk]; rfl
  | name id =>
      obtain ⟨t, mid, rfl, hk, hspell⟩ := spells_cons.mp hspell
      cases spells_nil.mp hspell
      rw [Expr.Level.outcome_readPrimary_name _ hk]; rfl
  | parenthesized inner =>
      obtain ⟨r, level, hlevel, hr, hd⟩ := hBelow.enter hdepth
      obtain ⟨t, mid, rfl, hk, hspell⟩ := spells_cons.mp hspell
      obtain ⟨mid, hinner, hclose⟩ := spells_append.mp hspell
      have hmid : Stops .expression (mid.map (·.kind)) := by
        rw [hclose.map_kind]; exact stops_cons.mpr (by decide)
      obtain ⟨⟨kind, start, stop⟩, mid, rfl, rfl, hend⟩ := spells_cons.mp hclose
      cases spells_nil.mp hend
      rw [Expr.Level.outcome_readPrimary_open _ hk, bind_ok hlevel,
        bind_ok (complete_expression hr.signed inner hd hinner hmid)]
      rfl

theorem complete_readPower {room : Nat} {below : Option Expr.Level}
    (hBelow : BelowComplete room below) :
    Complete .power room (Expr.Level.readPower below) := by
  -- a base is a call, read as its primary and then its trailers
  have hCall : ∀ {ts rest : List Token} (d : Derivation .call), d.depth ≤ room →
      Spells ts d.tokens rest → Stops .call (rest.map (·.kind)) →
      outcome (Expr.Level.readPower below ts) = Expr.Level.afterBase below d.tree rest := by
    intro ts rest d hdepth hspell hstop
    cases d with
    | called callee trailers =>
        obtain ⟨mid, hcallee, htrailers⟩ := spells_append.mp hspell
        have hd := Nat.max_le.mp hdepth
        rw [Expr.Level.outcome_readPower,
          bind_ok (complete_readPrimary hBelow callee hd.1 hcallee (stops_primary _)),
          bind_ok (complete_readTrailers hBelow trailers hd.2 htrailers (hstop.mono (by decide)))]
        rfl
  intro ts rest d hdepth hspell hstop
  cases d with
  | bare call =>
      rw [hCall call hdepth hspell (hstop.mono (by decide)), Expr.Level.afterBase]
      · rfl
      · -- two stars would carry the power on
        rintro start stop rest' rfl
        exact absurd (stops_cons.mp hstop) (by simp [TokenKind.grip, Nonterminal.grip])
  | raised base exponent =>
      have hd := Nat.max_le.mp hdepth
      obtain ⟨mid, hbase, hexponent⟩ := spells_append.mp hspell
      have hmid : Stops .call (mid.map (·.kind)) := by
        rw [hexponent.map_kind]; exact stops_cons.mpr (by decide)
      obtain ⟨⟨kind, start, stop⟩, mid, rfl, rfl, hsigned⟩ := spells_cons.mp hexponent
      obtain ⟨r, level, hlevel, hr, hde⟩ := hBelow.enter hd.2
      rw [hCall base hd.1 hbase hmid, Expr.Level.afterBase, bind_ok hlevel,
        bind_ok (hr.signed exponent hde hsigned (hstop.mono (by decide)))]
      rfl

theorem complete_readSigned {room : Nat} {below : Option Expr.Level}
    (hBelow : BelowComplete room below) :
    Complete .signed room (Expr.Level.readSigned below) := by
  intro ts rest d hdepth hspell hstop
  cases d with
  | minus operand =>
      obtain ⟨r, level, hlevel, hr, hd⟩ := hBelow.enter hdepth
      obtain ⟨t, mid, rfl, hk, hspell⟩ := spells_cons.mp hspell
      rw [Expr.Level.outcome_readSigned_minus _ hk, bind_ok hlevel,
        bind_ok (hr.signed operand hd hspell hstop)]
      rfl
  | plus operand =>
      obtain ⟨r, level, hlevel, hr, hd⟩ := hBelow.enter hdepth
      obtain ⟨t, mid, rfl, hk, hspell⟩ := spells_cons.mp hspell
      rw [Expr.Level.outcome_readSigned_plus _ hk, bind_ok hlevel,
        bind_ok (hr.signed operand hd hspell hstop)]
      rfl
  | unsigned power =>
      rw [Expr.Level.outcome_readSigned_power]
      · exact complete_readPower hBelow power hdepth hspell hstop
      · -- no power starts with a sign, so none is read
        obtain ⟨k, ks, hd, -⟩ := exists_start power rfl
        rw [Derivation.tokens, hd] at hspell
        intro t ht
        rw [hspell.head t ht]
        exact power_ne_sign power (hd.symm.trans (List.append_nil _).symm)

/-- **Completeness at every level.** -/
theorem levelComplete (room : Nat) : LevelComplete room (Expr.Level.withRoom room) := by
  induction room with
  | zero =>
      have hBelow : BelowComplete 0 none := by intro r h; cases h
      exact ⟨complete_readSigned hBelow, complete_readTrailers hBelow⟩
  | succ room ih =>
      have hBelow : BelowComplete (room + 1) (some (Expr.Level.withRoom room)) := by
        intro r h
        cases h
        exact ⟨_, rfl, ih⟩
      exact ⟨complete_readSigned hBelow, complete_readTrailers hBelow⟩

/-! ## Whole token lists -/

theorem ofTokens_eq (ts : List Token) :
    Expr.ofTokens ts =
      outcome ((Expr.Level.withRoom maxNesting).expression ts) >>= fun read =>
        if read.2.isEmpty then .ok read.1 else .error (Expr.unexpected read.2) := by
  rw [Expr.ofTokens]
  cases (Expr.Level.withRoom maxNesting).expression ts <;> rfl

/-- What is read from a whole list is the tree of a derivation of it. -/
theorem derivation_of_ofTokens {ts : List Token} {e : Expr} (h : Expr.ofTokens ts = .ok e) :
    ∃ d : Derivation .expression, d.tokens = ts.map (·.kind) ∧ d.depth ≤ maxNesting ∧
      d.tree = e := by
  rw [ofTokens_eq] at h
  obtain ⟨⟨x, rest⟩, hx, h⟩ := bind_eq_ok h
  obtain ⟨d, rfl, hd, hspell⟩ := sound_expression (levelSound maxNesting).signed hx
  cases rest with
  | nil =>
      -- nothing is left, so the derivation is one of the whole list
      cases h
      exact ⟨d, by rw [hspell.map_kind]; simp, hd, rfl⟩
  | cons t rest => cases h

/-- The tree of a derivation is read from its tokens. -/
theorem ofTokens_of_derivation {ts : List Token} (d : Derivation .expression)
    (h : d.tokens = ts.map (·.kind)) (hd : d.depth ≤ maxNesting) :
    Expr.ofTokens ts = .ok d.tree := by
  have hspell : Spells ts d.tokens [] := ⟨ts, by simp, h.symm⟩
  rw [ofTokens_eq, bind_ok (complete_expression (levelComplete maxNesting).signed d hd hspell
    (stops_nil _))]
  rfl

/-- **The parser accepts exactly its grammar.** It returns `e` for a list of tokens just where
the list has a derivation that nests no deeper than the limit and whose tree is `e`, and no list
has two derivations. -/
theorem ofTokens_eq_ok_iff (ts : List Token) (e : Expr) :
    (Expr.ofTokens ts = .ok e ↔
      ∃ d : Derivation .expression, d.tokens = ts.map (·.kind) ∧ d.depth ≤ maxNesting ∧
        d.tree = e) ∧
    ∀ d d' : Derivation .expression, d.tokens = ts.map (·.kind) → d'.tokens = ts.map (·.kind) →
      d = d' := by
  refine ⟨⟨derivation_of_ofTokens, ?_⟩, fun d d' h h' => tokens_injective (h.trans h'.symm)⟩
  rintro ⟨d, h, hd, rfl⟩
  exact ofTokens_of_derivation d h hd

end Grammar

end PocketCalc

import PocketCalc.Proofs.Grammar

/-!
# What each reader does, step by step

A reader returns its value together with a bound on what it left, which is there for termination
alone. `outcome` forgets the bound, and each reader gets one equation for its outcome in terms of
the outcomes of the readers it calls. Nothing behind this file unfolds a reader.
-/

namespace PocketCalc

/-- What a reader made of some tokens, and the tokens it left, without the bound on these. -/
def outcome {α : Type} {bound : Nat} (read : Except SyntaxFault (Taken α bound)) :
    Except SyntaxFault (α × List Token) :=
  read.map fun taken => (taken.value, taken.rest)

/-- Reading on after a reader goes by its outcome. -/
theorem outcome_bind {α β : Type} {bound bound' : Nat} (read : Except SyntaxFault (Taken α bound))
    (next : Taken α bound → Except SyntaxFault (Taken β bound'))
    (next' : α × List Token → Except SyntaxFault (β × List Token))
    (h : ∀ taken, outcome (next taken) = next' (taken.value, taken.rest)) :
    outcome (read >>= next) = outcome read >>= next' := by
  cases read with
  | error fault => rfl
  | ok taken => exact h taken

theorem outcome_enter_bind {β : Type} {bound : Nat} (below : Option Expr.Level)
    (next : Expr.Level → Except SyntaxFault (Taken β bound))
    (next' : Expr.Level → Except SyntaxFault (β × List Token))
    (h : ∀ level, outcome (next level) = next' level) :
    outcome (Expr.Level.enter below >>= next) = Expr.Level.enter below >>= next' := by
  cases below with
  | none => rfl
  | some level => exact h level

namespace Expr

/-! ## Chains -/

theorem outcome_readLinks_nil (operator? : TokenKind → Option ChainOperator)
    (operand : Reader Expr) : outcome (readLinks operator? operand []) = .ok ([], []) := by
  rw [readLinks]; rfl

theorem outcome_readLinks_none {operator? : TokenKind → Option ChainOperator}
    {operand : Reader Expr} {t : Token} {ts : List Token} (h : operator? t.kind = none) :
    outcome (readLinks operator? operand (t :: ts)) = .ok ([], t :: ts) := by
  rw [readLinks]
  split
  · rfl
  · rename_i hs; rw [h] at hs; cases hs

theorem outcome_readLinks_some {operator? : TokenKind → Option ChainOperator}
    {operand : Reader Expr} {t : Token} {ts : List Token} {op : ChainOperator}
    (h : operator? t.kind = some op) :
    outcome (readLinks operator? operand (t :: ts)) =
      outcome (operand ts) >>= fun x =>
        outcome (readLinks operator? operand x.2) >>= fun more =>
          .ok ((op, x.1) :: more.1, more.2) := by
  rw [readLinks]
  split
  · rename_i hn; rw [h] at hn; cases hn
  · rename_i op' hs
    obtain rfl : op = op' := Option.some.inj (h.symm.trans hs)
    exact outcome_bind _ _ _ fun x => outcome_bind _ _ _ fun more => rfl

theorem outcome_readChain (operator? : TokenKind → Option ChainOperator)
    (operand : Reader Expr) (ts : List Token) :
    outcome (readChain operator? operand ts) =
      outcome (operand ts) >>= fun first =>
        outcome (readLinks operator? operand first.2) >>= fun links =>
          .ok (ofChain first.1 links.1, links.2) := by
  rw [readChain]
  exact outcome_bind _ _ _ fun first => outcome_bind _ _ _ fun links => rfl

/-! ## Arguments -/

theorem outcome_readArguments_close (expression : Reader Expr) {t : Token} {ts : List Token}
    (h : t.kind = .closeParen) :
    outcome (readArguments expression (t :: ts)) = .ok ([], ts) := by
  obtain ⟨kind, start, stop⟩ := t
  subst h
  rw [readArguments]; rfl

/-- What a list of arguments does with the tokens behind its first one. -/
def afterArgument (expression : Reader Expr) (x : Expr) :
    List Token → Except SyntaxFault (List Expr × List Token)
  | ⟨.closeParen, _, _⟩ :: rest => .ok ([x], rest)
  | ⟨.comma, _, _⟩ :: rest =>
    outcome (readArguments expression rest) >>= fun more => .ok (x :: more.1, more.2)
  | rest => .error (unexpected rest)

theorem outcome_readArguments {expression : Reader Expr} {ts : List Token}
    (h : ∀ t ∈ ts.head?, t.kind ≠ .closeParen) :
    outcome (readArguments expression ts) =
      outcome (expression ts) >>= fun x => afterArgument expression x.1 x.2 := by
  rw [readArguments]
  · refine outcome_bind _ _ _ ?_
    rintro ⟨x, rest, hlt⟩
    dsimp only
    split
    · rfl
    · exact outcome_bind _ _ _ fun more => rfl
    · rename_i hc hm
      rw [afterArgument]
      · rfl
      · exact hc
      · exact hm
  · rintro start stop rest rfl
    exact h _ rfl rfl

/-! ## Calls, primaries, powers and signs -/

namespace Level

theorem outcome_readTrailers_open (below : Option Level) (callee : Expr) {t : Token}
    {ts : List Token} (h : t.kind = .openParen) :
    outcome (readTrailers below callee (t :: ts)) =
      enter below >>= fun level =>
        outcome (readArguments level.expression ts) >>= fun args =>
          outcome (level.trailers (.call callee args.1) args.2) := by
  obtain ⟨kind, start, stop⟩ := t
  subst h
  rw [readTrailers]
  refine outcome_enter_bind _ _ _ fun level => outcome_bind _ _ _ fun args => ?_
  -- the call is handed on under a weaker bound, which its outcome does not show
  refine (outcome_bind _ _ (fun called => .ok called) fun called => rfl).trans ?_
  cases outcome (level.trailers (.call callee args.value) args.rest) <;> rfl

theorem outcome_readTrailers_none (below : Option Level) (callee : Expr) {ts : List Token}
    (h : ∀ t ∈ ts.head?, t.kind ≠ .openParen) :
    outcome (readTrailers below callee ts) = .ok (callee, ts) := by
  rw [readTrailers]
  · rfl
  · rintro start stop rest rfl
    exact h _ rfl rfl

/-- What a parenthesis does with the tokens behind its inside. -/
def afterInner (x : Expr) : List Token → Except SyntaxFault (Expr × List Token)
  | ⟨.closeParen, _, _⟩ :: rest => .ok (x, rest)
  | rest => .error (unexpected rest)

theorem outcome_readPrimary_number (below : Option Level) {t : Token} {ts : List Token}
    {x : Float} (h : t.kind = .number x) :
    outcome (readPrimary below (t :: ts)) = .ok (.number x, ts) := by
  obtain ⟨kind, start, stop⟩ := t
  subst h; rfl

theorem outcome_readPrimary_name (below : Option Level) {t : Token} {ts : List Token}
    {id : String} (h : t.kind = .identifier id) :
    outcome (readPrimary below (t :: ts)) = .ok (.name id, ts) := by
  obtain ⟨kind, start, stop⟩ := t
  subst h; rfl

theorem outcome_readPrimary_open (below : Option Level) {t : Token} {ts : List Token}
    (h : t.kind = .openParen) :
    outcome (readPrimary below (t :: ts)) =
      enter below >>= fun level =>
        outcome (level.expression ts) >>= fun inner => afterInner inner.1 inner.2 := by
  obtain ⟨kind, start, stop⟩ := t
  subst h
  rw [readPrimary]
  refine outcome_enter_bind _ _ _ fun level => outcome_bind _ _ _ ?_
  rintro ⟨x, rest, hlt⟩
  dsimp only
  split
  · rfl
  · rename_i hc
    rw [afterInner]
    · rfl
    · exact hc

/-- Nothing else is a primary. -/
theorem outcome_readPrimary_other (below : Option Level) {ts : List Token}
    (h : ∀ t ∈ ts.head?, Grammar.Nonterminal.primary.starts t.kind = false) :
    outcome (readPrimary below ts) = .error (unexpected ts) := by
  cases ts with
  | nil => rfl
  | cons t ts =>
      obtain ⟨kind, start, stop⟩ := t
      have hk := h _ rfl
      cases kind with
      | number x => exact absurd hk (by simp [Grammar.Nonterminal.starts])
      | identifier id => exact absurd hk (by simp [Grammar.Nonterminal.starts])
      | openParen => exact absurd hk (by simp [Grammar.Nonterminal.starts])
      | _ => rfl

/-- What a power does with the tokens behind its base. -/
def afterBase (below : Option Level) (base : Expr) :
    List Token → Except SyntaxFault (Expr × List Token)
  | ⟨.power, _, _⟩ :: rest =>
    enter below >>= fun level =>
      outcome (level.signed rest) >>= fun exponent => .ok (.power base exponent.1, exponent.2)
  | rest => .ok (base, rest)

theorem outcome_readPower (below : Option Level) (ts : List Token) :
    outcome (readPower below ts) =
      outcome (readPrimary below ts) >>= fun base =>
        outcome (readTrailers below base.1 base.2) >>= fun called =>
          afterBase below called.1 called.2 := by
  rw [readPower]
  refine outcome_bind _ _ _ fun base => outcome_bind _ _ _ ?_
  rintro ⟨called, rest, hlt⟩
  dsimp only
  split
  · exact outcome_enter_bind _ _ _ fun level => outcome_bind _ _ _ fun exponent => rfl
  · rename_i hp
    rw [afterBase]
    · rfl
    · exact hp

theorem outcome_readSigned_minus (below : Option Level) {t : Token} {ts : List Token}
    (h : t.kind = .minus) :
    outcome (readSigned below (t :: ts)) =
      enter below >>= fun level =>
        outcome (level.signed ts) >>= fun operand => .ok (.negate operand.1, operand.2) := by
  obtain ⟨kind, start, stop⟩ := t
  subst h
  exact outcome_enter_bind _ _ _ fun level => outcome_bind _ _ _ fun operand => rfl

theorem outcome_readSigned_plus (below : Option Level) {t : Token} {ts : List Token}
    (h : t.kind = .plus) :
    outcome (readSigned below (t :: ts)) =
      enter below >>= fun level =>
        outcome (level.signed ts) >>= fun operand => .ok (.plus operand.1, operand.2) := by
  obtain ⟨kind, start, stop⟩ := t
  subst h
  exact outcome_enter_bind _ _ _ fun level => outcome_bind _ _ _ fun operand => rfl

theorem outcome_readSigned_power (below : Option Level) {ts : List Token}
    (h : ∀ t ∈ ts.head?, t.kind ≠ .minus ∧ t.kind ≠ .plus) :
    outcome (readSigned below ts) = outcome (readPower below ts) := by
  rw [readSigned]
  · rintro start stop rest rfl
    exact (h _ rfl).1 rfl
  · rintro start stop rest rfl
    exact (h _ rfl).2 rfl

end Level

end Expr

end PocketCalc

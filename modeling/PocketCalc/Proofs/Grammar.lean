import PocketCalc.Expr.Parse

/-!
# The grammar of expressions, apart from the readers

The grammar that `PocketCalc.Expr.Parse` quotes, as a type: a `Derivation c` is one way to derive a
phrase of the nonterminal `c`. It fixes the tokens of the phrase, the tree that is left of it once
parentheses are dropped, and how many levels it nests.

The repetitions of the grammar are nonterminals of their own (`links`, `trailers`,
`moreArguments`), and sums and products, which differ in their operators and in what stands between
them, are one nonterminal with a `Strength`.

The main result is that the grammar is **unambiguous**. What carries it is that each token takes
hold of what stands on its left with a `grip`, and that a phrase in front of a token whose grip is
too weak for it is the same in every derivation.
-/

namespace PocketCalc

/-- The two strengths of the operators that form chains. -/
inductive Strength where
  | sum
  | product
  deriving DecidableEq, Repr

/-- The strength of an operator. -/
def ChainOperator.strength : ChainOperator → Strength
  | add | subtract => .sum
  | multiply | divide => .product

/-- The token that an operator is written with. -/
def ChainOperator.token : ChainOperator → TokenKind
  | add => .plus
  | subtract => .minus
  | multiply => .star
  | divide => .slash

namespace Grammar

/-- The nonterminals of the grammar. -/
inductive Nonterminal where
  /-- A run of operands with operators of one strength between them: an expression or a term. -/
  | chain (s : Strength)
  /-- What follows the first operand of a chain. -/
  | links (s : Strength)
  /-- The operands of a sum are products, and those of a product are under signs. -/
  | operand (s : Strength)
  | signed
  | power
  | call
  /-- The argument lists that follow what is called, each in its parentheses. -/
  | trailers
  | arguments
  /-- What follows the first argument of a list. -/
  | moreArguments
  | primary
  deriving DecidableEq, Repr

/-- A whole expression is a sum. -/
abbrev Nonterminal.expression : Nonterminal := .chain .sum

/-- A derivation of a phrase. -/
inductive Derivation : Nonterminal → Type where
  | chain {s : Strength} (first : Derivation (.operand s)) (links : Derivation (.links s)) :
      Derivation (.chain s)
  | noLinks {s : Strength} : Derivation (.links s)
  | link {s : Strength} (op : ChainOperator) (strength : op.strength = s)
      (operand : Derivation (.operand s)) (links : Derivation (.links s)) : Derivation (.links s)
  | term (product : Derivation (.chain .product)) : Derivation (.operand .sum)
  | factor (signed : Derivation .signed) : Derivation (.operand .product)
  | minus (operand : Derivation .signed) : Derivation .signed
  | plus (operand : Derivation .signed) : Derivation .signed
  | unsigned (power : Derivation .power) : Derivation .signed
  | bare (call : Derivation .call) : Derivation .power
  | raised (base : Derivation .call) (exponent : Derivation .signed) : Derivation .power
  | called (callee : Derivation .primary) (trailers : Derivation .trailers) : Derivation .call
  | noTrailers : Derivation .trailers
  | trailer (args : Derivation .arguments) (trailers : Derivation .trailers) : Derivation .trailers
  | noArguments : Derivation .arguments
  | arguments (first : Derivation .expression) (more : Derivation .moreArguments) :
      Derivation .arguments
  | lastArgument : Derivation .moreArguments
  | trailingComma : Derivation .moreArguments
  | argument (next : Derivation .expression) (more : Derivation .moreArguments) :
      Derivation .moreArguments
  | number (x : Float) : Derivation .primary
  | name (id : String) : Derivation .primary
  | parenthesized (inner : Derivation .expression) : Derivation .primary

namespace Derivation

/-- The tokens of the phrase. -/
@[simp] def tokens : {c : Nonterminal} → Derivation c → List TokenKind
  | _, chain first links => first.tokens ++ links.tokens
  | _, noLinks => []
  | _, link op _ operand links => op.token :: (operand.tokens ++ links.tokens)
  | _, term product => product.tokens
  | _, factor signed => signed.tokens
  | _, minus operand => .minus :: operand.tokens
  | _, plus operand => .plus :: operand.tokens
  | _, unsigned power => power.tokens
  | _, bare call => call.tokens
  | _, raised base exponent => base.tokens ++ .power :: exponent.tokens
  | _, called callee trailers => callee.tokens ++ trailers.tokens
  | _, noTrailers => []
  | _, trailer args trailers => .openParen :: (args.tokens ++ .closeParen :: trailers.tokens)
  | _, noArguments => []
  | _, arguments first more => first.tokens ++ more.tokens
  | _, lastArgument => []
  | _, trailingComma => [.comma]
  | _, argument next more => .comma :: (next.tokens ++ more.tokens)
  | _, number x => [.number x]
  | _, name id => [.identifier id]
  | _, parenthesized inner => .openParen :: (inner.tokens ++ [.closeParen])

/-- How many levels the deepest position of the phrase lies below the phrase itself. The inside of
parentheses, what a sign stands in front of and the exponent behind two stars lie one level down.
Each trailer of a call lies one level below the one before it, and its arguments lie where it does,
even where there are none. -/
def depth : {c : Nonterminal} → Derivation c → Nat
  | _, chain first links => max first.depth links.depth
  | _, noLinks => 0
  | _, link _ _ operand links => max operand.depth links.depth
  | _, term product => product.depth
  | _, factor signed => signed.depth
  | _, minus operand => operand.depth + 1
  | _, plus operand => operand.depth + 1
  | _, unsigned power => power.depth
  | _, bare call => call.depth
  | _, raised base exponent => max base.depth (exponent.depth + 1)
  | _, called callee trailers => max callee.depth trailers.depth
  | _, noTrailers => 0
  | _, trailer args trailers => max args.depth trailers.depth + 1
  | _, noArguments => 0
  | _, arguments first more => max first.depth more.depth
  | _, lastArgument => 0
  | _, trailingComma => 0
  | _, argument next more => max next.depth more.depth
  | _, number _ => 0
  | _, name _ => 0
  | _, parenthesized inner => inner.depth + 1

end Derivation

/-- What a phrase contributes to the tree of an expression. -/
abbrev Nonterminal.Meaning : Nonterminal → Type
  | links _ => List (ChainOperator × Expr)
  | trailers => List (List Expr)
  | arguments | moreArguments => List Expr
  | _ => Expr

/-- The tree of a phrase. Parentheses leave no trace, and a chain without operators is its
operand. -/
def Derivation.tree : {c : Nonterminal} → Derivation c → c.Meaning
  | _, chain first links => Expr.ofChain first.tree links.tree
  | _, noLinks => ([] : List (ChainOperator × Expr))
  | _, link op _ operand links => ((op, operand.tree) :: links.tree : List (ChainOperator × Expr))
  | _, term product => product.tree
  | _, factor signed => signed.tree
  | _, minus operand => Expr.negate operand.tree
  | _, plus operand => Expr.plus operand.tree
  | _, unsigned power => power.tree
  | _, bare call => call.tree
  | _, raised base exponent => Expr.power base.tree exponent.tree
  | _, called callee trailers => List.foldl Expr.call callee.tree trailers.tree
  | _, noTrailers => ([] : List (List Expr))
  | _, trailer args trailers => (args.tree :: trailers.tree : List (List Expr))
  | _, noArguments => ([] : List Expr)
  | _, arguments first more => (first.tree :: more.tree : List Expr)
  | _, lastArgument => ([] : List Expr)
  | _, trailingComma => ([] : List Expr)
  | _, argument next more => (next.tree :: more.tree : List Expr)
  | _, number x => Expr.number x
  | _, name id => Expr.name id
  | _, parenthesized inner => inner.tree

/-! ## Where a phrase stops -/

end Grammar

/-- How firmly a token takes hold of what stands on its left. -/
@[simp] def TokenKind.grip : TokenKind → Nat
  | .closeParen => 0
  | .number _ | .identifier _ | .comma => 1
  | .plus | .minus => 2
  | .star | .slash => 3
  | .power => 4
  | .openParen => 5

namespace Grammar

/-- The weakest grip that a phrase gives way to. -/
@[simp] def Nonterminal.grip : Nonterminal → Nat
  | arguments | moreArguments => 1
  | chain .sum | links .sum => 2
  | chain .product | links .product | operand .sum => 3
  | operand .product | signed | power => 4
  | call | trailers => 5
  | primary => 6

/-- A phrase of `c` stops in front of these tokens: the first of them cannot carry it on. -/
def Stops (c : Nonterminal) (rest : List TokenKind) : Prop :=
  ∀ k ∈ rest.head?, k.grip < c.grip

theorem stops_nil (c : Nonterminal) : Stops c [] := by
  intro k hk; cases hk

@[simp] theorem stops_cons {c : Nonterminal} {k : TokenKind} {rest : List TokenKind} :
    Stops c (k :: rest) ↔ k.grip < c.grip := by
  simp [Stops]

theorem Stops.mono {c c' : Nonterminal} {rest : List TokenKind} (h : Stops c rest)
    (hc : c.grip ≤ c'.grip) : Stops c' rest :=
  fun k hk => Nat.lt_of_lt_of_le (h k hk) hc

/-- A primary never gives way. -/
theorem stops_primary (rest : List TokenKind) : Stops .primary rest := by
  intro k _; cases k <;> simp [TokenKind.grip, Nonterminal.grip]

theorem grip_chain_le_operand (s : Strength) :
    (Nonterminal.chain s).grip ≤ (Nonterminal.operand s).grip := by
  cases s <;> simp [Nonterminal.grip]

@[simp] theorem stops_links {s : Strength} {rest : List TokenKind} :
    Stops (.links s) rest ↔ Stops (.chain s) rest := by
  cases s <;> rfl

/-- An operator takes hold of a chain of its strength, and of no operand of it. -/
theorem grip_token (op : ChainOperator) :
    (Nonterminal.chain op.strength).grip ≤ op.token.grip ∧
      op.token.grip < (Nonterminal.operand op.strength).grip := by
  cases op <;> decide

theorem token_injective {op op' : ChainOperator} (h : op.token = op'.token) : op = op' := by
  cases op <;> cases op' <;> first | rfl | exact absurd h (by decide)

/-- What follows an operand of a chain carries no operand on. -/
theorem stops_operand {s : Strength} (links : Derivation (.links s)) {rest : List TokenKind}
    (h : Stops (.chain s) rest) : Stops (.operand s) (links.tokens ++ rest) := by
  cases links with
  | noLinks => exact h.mono (grip_chain_le_operand s)
  | link op hs operand links => subst hs; exact stops_cons.mpr (grip_token op).2

/-- What follows an argument carries no expression on. -/
theorem stops_argument (more : Derivation .moreArguments) {rest : List TokenKind}
    (h : Stops .moreArguments rest) : Stops .expression (more.tokens ++ rest) := by
  cases more with
  | lastArgument => exact h.mono (by decide)
  | trailingComma => exact stops_cons.mpr (by decide)
  | argument next more => exact stops_cons.mpr (by decide)

/-! ## Where a phrase starts -/

/-- The nonterminals that derive nothing empty. -/
def Nonterminal.isSolid : Nonterminal → Bool
  | chain _ | operand _ | signed | power | call | primary => true
  | links _ | trailers | arguments | moreArguments => false

/-- The tokens that phrases which are never empty can start with. -/
def Nonterminal.starts : Nonterminal → TokenKind → Bool
  | _, .number _ | _, .identifier _ | _, .openParen => true
  | chain _, .plus | operand _, .plus | signed, .plus => true
  | chain _, .minus | operand _, .minus | signed, .minus => true
  | _, _ => false

theorem exists_start {c : Nonterminal} (d : Derivation c) :
    c.isSolid = true → ∃ k ks, d.tokens = k :: ks ∧ c.starts k = true := by
  -- a phrase starts with its first part, which may start with nothing that the phrase may not
  induction d with
  | chain first links ih _ =>
      intro _
      obtain ⟨k, ks, hd, hk⟩ := ih rfl
      exact ⟨k, ks ++ links.tokens, by rw [Derivation.tokens, hd]; rfl, by cases k <;> exact hk⟩
  | term product ih =>
      intro _
      obtain ⟨k, ks, hd, hk⟩ := ih rfl
      exact ⟨k, ks, hd, by cases k <;> exact hk⟩
  | factor signed ih =>
      intro _
      obtain ⟨k, ks, hd, hk⟩ := ih rfl
      exact ⟨k, ks, hd, by cases k <;> exact hk⟩
  | minus operand _ => intro _; exact ⟨.minus, operand.tokens, rfl, rfl⟩
  | plus operand _ => intro _; exact ⟨.plus, operand.tokens, rfl, rfl⟩
  | unsigned power ih =>
      intro _
      obtain ⟨k, ks, hd, hk⟩ := ih rfl
      exact ⟨k, ks, hd, by cases k <;> first | rfl | exact hk⟩
  | bare call ih =>
      intro _
      obtain ⟨k, ks, hd, hk⟩ := ih rfl
      exact ⟨k, ks, hd, by cases k <;> exact hk⟩
  | raised base exponent ih _ =>
      intro _
      obtain ⟨k, ks, hd, hk⟩ := ih rfl
      exact ⟨k, ks ++ .power :: exponent.tokens, by rw [Derivation.tokens, hd]; rfl,
        by cases k <;> exact hk⟩
  | called callee trailers ih _ =>
      intro _
      obtain ⟨k, ks, hd, hk⟩ := ih rfl
      exact ⟨k, ks ++ trailers.tokens, by rw [Derivation.tokens, hd]; rfl, by cases k <;> exact hk⟩
  | number x => intro _; exact ⟨.number x, [], rfl, rfl⟩
  | name id => intro _; exact ⟨.identifier id, [], rfl, rfl⟩
  | parenthesized inner _ =>
      intro _; exact ⟨.openParen, inner.tokens ++ [.closeParen], rfl, rfl⟩
  | _ => intro h; cases h

/-- No list of arguments stops in front of an expression. -/
theorem not_stops_of_expression (d : Derivation .expression) (rest : List TokenKind) :
    ¬ Stops .arguments (d.tokens ++ rest) := by
  obtain ⟨k, ks, hd, hk⟩ := exists_start d rfl
  rw [hd, List.cons_append, stops_cons]
  cases k with
  | closeParen => exact absurd hk (by decide)
  | _ => simp [TokenKind.grip, Nonterminal.grip]

/-- No power starts with a sign. -/
theorem power_ne_sign {k : TokenKind} {ks rest : List TokenKind} (d : Derivation .power)
    (h : k :: ks = d.tokens ++ rest) : k ≠ .minus ∧ k ≠ .plus := by
  obtain ⟨k', ks', hd, hk⟩ := exists_start d rfl
  rw [hd] at h
  obtain ⟨rfl, -⟩ := List.cons.inj h
  constructor <;> (rintro rfl; exact absurd hk (by decide))

/-! ## The grammar is unambiguous

Each constructor is treated on its own: what its parts determine, it determines. -/

/-- Any phrase that starts the same tokens as `d`, where both stop in time, is `d`. -/
def Determined {c : Nonterminal} (d : Derivation c) : Prop :=
  ∀ {d' : Derivation c} {rest rest' : List TokenKind}, Stops c rest → Stops c rest' →
    d.tokens ++ rest = d'.tokens ++ rest' → d = d' ∧ rest = rest'

open Grammar.Derivation in
theorem determined_chain {s : Strength} {first : Derivation (.operand s)}
    {links : Derivation (.links s)} (hFirst : Determined first) (hLinks : Determined links) :
    Determined (chain first links) := by
  intro d' rest rest' hr hr' h
  cases d' with
  | chain first' links' =>
      simp only [tokens, List.append_assoc] at h
      obtain ⟨rfl, ht⟩ := hFirst (stops_operand links hr) (stops_operand links' hr') h
      obtain ⟨rfl, rfl⟩ := hLinks (stops_links.mpr hr) (stops_links.mpr hr') ht
      exact ⟨rfl, rfl⟩

/-- An operator in front of the rest would be one more link. -/
theorem not_stops_token {op : ChainOperator} {rest ks : List TokenKind}
    (h : rest = op.token :: ks) : ¬ Stops (.links op.strength) rest := by
  rw [h, stops_links, stops_cons]
  exact Nat.not_lt.mpr (grip_token op).1

theorem determined_noLinks {s : Strength} : Determined (Derivation.noLinks (s := s)) := by
  intro d' rest rest' hr hr' h
  cases d' with
  | noLinks => exact ⟨rfl, h⟩
  | link op hs operand links =>
      subst hs
      exact absurd hr (not_stops_token h)

theorem determined_link {s : Strength} {op : ChainOperator} {hs : op.strength = s}
    {operand : Derivation (.operand s)} {links : Derivation (.links s)}
    (hOperand : Determined operand) (hLinks : Determined links) :
    Determined (Derivation.link op hs operand links) := by
  subst hs
  intro d' rest rest' hr hr' h
  cases d' with
  | noLinks => exact absurd hr' (not_stops_token h.symm)
  | link op' hs' operand' links' =>
      simp only [Derivation.tokens, List.cons_append, List.append_assoc, List.cons.injEq] at h
      -- one token spells one operator, and past it both have an operand
      obtain rfl := token_injective h.1
      obtain ⟨rfl, ht⟩ := hOperand (stops_operand links (stops_links.mp hr))
        (stops_operand links' (stops_links.mp hr')) h.2
      obtain ⟨rfl, rfl⟩ := hLinks hr hr' ht
      exact ⟨rfl, rfl⟩

theorem determined_minus {operand : Derivation .signed} (hOperand : Determined operand) :
    Determined (Derivation.minus operand) := by
  intro d' rest rest' hr hr' h
  cases d' with
  | minus operand' =>
      obtain ⟨rfl, rfl⟩ := hOperand hr hr' (List.cons.inj h).2
      exact ⟨rfl, rfl⟩
  | plus operand' => exact absurd (List.cons.inj h).1 (by decide)
  | unsigned power => exact absurd rfl (power_ne_sign power h).1

theorem determined_plus {operand : Derivation .signed} (hOperand : Determined operand) :
    Determined (Derivation.plus operand) := by
  intro d' rest rest' hr hr' h
  cases d' with
  | minus operand' => exact absurd (List.cons.inj h).1 (by decide)
  | plus operand' =>
      obtain ⟨rfl, rfl⟩ := hOperand hr hr' (List.cons.inj h).2
      exact ⟨rfl, rfl⟩
  | unsigned power => exact absurd rfl (power_ne_sign power h).2

theorem determined_unsigned {power : Derivation .power} (hPower : Determined power) :
    Determined (Derivation.unsigned power) := by
  intro d' rest rest' hr hr' h
  cases d' with
  | minus operand' => exact absurd rfl (power_ne_sign power h.symm).1
  | plus operand' => exact absurd rfl (power_ne_sign power h.symm).2
  | unsigned power' =>
      obtain ⟨rfl, rfl⟩ := hPower hr hr' h
      exact ⟨rfl, rfl⟩

/-- Two stars behind the base are part of the power. -/
theorem determined_bare {call : Derivation .call} (hCall : Determined call) :
    Determined (Derivation.bare call) := by
  intro d' rest rest' hr hr' h
  cases d' with
  | bare call' =>
      obtain ⟨rfl, rfl⟩ := hCall (hr.mono (by decide)) (hr'.mono (by decide)) h
      exact ⟨rfl, rfl⟩
  | raised base' exponent' =>
      -- both start with the same call, so two stars would follow the phrase that is bare
      simp only [Derivation.tokens, List.append_assoc, List.cons_append] at h
      obtain ⟨-, rfl⟩ := hCall (hr.mono (by decide)) (stops_cons.mpr (by decide)) h
      exact absurd (stops_cons.mp hr) (by decide)

theorem determined_raised {base : Derivation .call} {exponent : Derivation .signed}
    (hBase : Determined base) (hExponent : Determined exponent) :
    Determined (Derivation.raised base exponent) := by
  intro d' rest rest' hr hr' h
  cases d' with
  | bare call' =>
      simp only [Derivation.tokens, List.append_assoc, List.cons_append] at h
      obtain ⟨-, rfl⟩ := hBase (stops_cons.mpr (by decide)) (hr'.mono (by decide)) h
      exact absurd (stops_cons.mp hr') (by decide)
  | raised base' exponent' =>
      simp only [Derivation.tokens, List.append_assoc, List.cons_append] at h
      obtain ⟨rfl, ht⟩ := hBase (stops_cons.mpr (by decide)) (stops_cons.mpr (by decide)) h
      obtain ⟨rfl, rfl⟩ := hExponent (hr.mono (by decide)) (hr'.mono (by decide))
        (List.cons.inj ht).2
      exact ⟨rfl, rfl⟩

theorem determined_called {callee : Derivation .primary} {trailers : Derivation .trailers}
    (hCallee : Determined callee) (hTrailers : Determined trailers) :
    Determined (Derivation.called callee trailers) := by
  intro d' rest rest' hr hr' h
  cases d' with
  | called callee' trailers' =>
      simp only [Derivation.tokens, List.append_assoc] at h
      obtain ⟨rfl, ht⟩ := hCallee (stops_primary _) (stops_primary _) h
      obtain ⟨rfl, rfl⟩ := hTrailers (hr.mono (by decide)) (hr'.mono (by decide)) ht
      exact ⟨rfl, rfl⟩

/-- An opening parenthesis in front of the rest would start one more trailer. -/
theorem not_stops_openParen {rest ks : List TokenKind} (h : rest = .openParen :: ks) :
    ¬ Stops .trailers rest := by
  rw [h, stops_cons]; decide

theorem determined_noTrailers : Determined Derivation.noTrailers := by
  intro d' rest rest' hr hr' h
  cases d' with
  | noTrailers => exact ⟨rfl, h⟩
  | trailer args trailers => exact absurd hr (not_stops_openParen h)

theorem determined_trailer {args : Derivation .arguments} {trailers : Derivation .trailers}
    (hArgs : Determined args) (hTrailers : Determined trailers) :
    Determined (Derivation.trailer args trailers) := by
  intro d' rest rest' hr hr' h
  cases d' with
  | noTrailers => exact absurd hr' (not_stops_openParen h.symm)
  | trailer args' trailers' =>
      simp only [Derivation.tokens, List.append_assoc, List.cons_append, List.cons.injEq,
        true_and] at h
      obtain ⟨rfl, ht⟩ := hArgs (stops_cons.mpr (by decide)) (stops_cons.mpr (by decide)) h
      obtain ⟨rfl, rfl⟩ := hTrailers hr hr' (List.cons.inj ht).2
      exact ⟨rfl, rfl⟩

theorem determined_noArguments : Determined Derivation.noArguments := by
  intro d' rest rest' hr hr' h
  cases d' with
  | noArguments => exact ⟨rfl, h⟩
  | arguments first more =>
      -- what follows the empty list would start an expression
      simp only [Derivation.tokens, List.nil_append, List.append_assoc] at h
      exact absurd (h ▸ hr) (not_stops_of_expression first _)

theorem determined_arguments {first : Derivation .expression} {more : Derivation .moreArguments}
    (hFirst : Determined first) (hMore : Determined more) :
    Determined (Derivation.arguments first more) := by
  intro d' rest rest' hr hr' h
  cases d' with
  | noArguments =>
      simp only [Derivation.tokens, List.nil_append, List.append_assoc] at h
      exact absurd (h ▸ hr') (not_stops_of_expression first _)
  | arguments first' more' =>
      simp only [Derivation.tokens, List.append_assoc] at h
      have hm : Stops .moreArguments rest := hr.mono (by decide)
      have hm' : Stops .moreArguments rest' := hr'.mono (by decide)
      obtain ⟨rfl, ht⟩ := hFirst (stops_argument more hm) (stops_argument more' hm') h
      obtain ⟨rfl, rfl⟩ := hMore hm hm' ht
      exact ⟨rfl, rfl⟩

/-- A comma in front of the rest would be part of the list. -/
theorem not_stops_comma {rest ks : List TokenKind} (h : rest = .comma :: ks) :
    ¬ Stops .moreArguments rest := by
  rw [h, stops_cons]; decide

theorem determined_lastArgument : Determined Derivation.lastArgument := by
  intro d' rest rest' hr hr' h
  cases d' with
  | lastArgument => exact ⟨rfl, h⟩
  | trailingComma => exact absurd hr (not_stops_comma h)
  | argument next more => exact absurd hr (not_stops_comma h)

theorem determined_trailingComma : Determined Derivation.trailingComma := by
  intro d' rest rest' hr hr' h
  cases d' with
  | lastArgument => exact absurd hr' (not_stops_comma h.symm)
  | trailingComma => exact ⟨rfl, (List.cons.inj h).2⟩
  | argument next more =>
      -- what follows the comma would be one more argument
      simp only [Derivation.tokens, List.cons_append, List.nil_append, List.append_assoc,
        List.cons.injEq, true_and] at h
      exact absurd (h ▸ hr.mono (by decide)) (not_stops_of_expression next _)

theorem determined_argument {next : Derivation .expression} {more : Derivation .moreArguments}
    (hNext : Determined next) (hMore : Determined more) :
    Determined (Derivation.argument next more) := by
  intro d' rest rest' hr hr' h
  cases d' with
  | lastArgument => exact absurd hr' (not_stops_comma h.symm)
  | trailingComma =>
      simp only [Derivation.tokens, List.cons_append, List.nil_append, List.append_assoc,
        List.cons.injEq, true_and] at h
      exact absurd (h ▸ hr'.mono (by decide)) (not_stops_of_expression next _)
  | argument next' more' =>
      simp only [Derivation.tokens, List.cons_append, List.append_assoc, List.cons.injEq,
        true_and] at h
      obtain ⟨rfl, ht⟩ := hNext (stops_argument more hr) (stops_argument more' hr') h
      obtain ⟨rfl, rfl⟩ := hMore hr hr' ht
      exact ⟨rfl, rfl⟩

theorem determined_number (x : Float) : Determined (Derivation.number x) := by
  intro d' rest rest' _ _ h
  cases d' with
  | number x' =>
      obtain ⟨hx, rfl⟩ := List.cons.inj h
      exact ⟨by rw [TokenKind.number.inj hx], rfl⟩
  | name id' => exact absurd (List.cons.inj h).1 (by simp)
  | parenthesized inner' => exact absurd (List.cons.inj h).1 (by simp)

theorem determined_name (id : String) : Determined (Derivation.name id) := by
  intro d' rest rest' _ _ h
  cases d' with
  | number x' => exact absurd (List.cons.inj h).1 (by simp)
  | name id' =>
      obtain ⟨hx, rfl⟩ := List.cons.inj h
      exact ⟨by rw [TokenKind.identifier.inj hx], rfl⟩
  | parenthesized inner' => exact absurd (List.cons.inj h).1 (by simp)

theorem determined_parenthesized {inner : Derivation .expression} (hInner : Determined inner) :
    Determined (Derivation.parenthesized inner) := by
  intro d' rest rest' _ _ h
  cases d' with
  | number x' => exact absurd (List.cons.inj h).1 (by simp)
  | name id' => exact absurd (List.cons.inj h).1 (by simp)
  | parenthesized inner' =>
      simp only [Derivation.tokens, List.cons_append, List.append_assoc, List.cons.injEq,
        true_and] at h
      obtain ⟨rfl, ht⟩ := hInner (stops_cons.mpr (by decide)) (stops_cons.mpr (by decide)) h
      exact ⟨rfl, by simpa using ht⟩

/-- **Every phrase is determined by its tokens**, whatever follows it. -/
theorem determined {c : Nonterminal} (d : Derivation c) : Determined d := by
  induction d with
  | chain _ _ hFirst hLinks => exact determined_chain hFirst hLinks
  | noLinks => exact determined_noLinks
  | link op hs _ _ hOperand hLinks => exact determined_link hOperand hLinks
  | term product ih =>
      intro d' rest rest' hr hr' h
      cases d' with
      | term product' =>
          obtain ⟨rfl, rfl⟩ := ih (hr.mono (by decide)) (hr'.mono (by decide)) h
          exact ⟨rfl, rfl⟩
  | factor signed ih =>
      intro d' rest rest' hr hr' h
      cases d' with
      | factor signed' =>
          obtain ⟨rfl, rfl⟩ := ih (hr.mono (by decide)) (hr'.mono (by decide)) h
          exact ⟨rfl, rfl⟩
  | minus _ ih => exact determined_minus ih
  | plus _ ih => exact determined_plus ih
  | unsigned _ ih => exact determined_unsigned ih
  | bare _ ih => exact determined_bare ih
  | raised _ _ hBase hExponent => exact determined_raised hBase hExponent
  | called _ _ hCallee hTrailers => exact determined_called hCallee hTrailers
  | noTrailers => exact determined_noTrailers
  | trailer _ _ hArgs hTrailers => exact determined_trailer hArgs hTrailers
  | noArguments => exact determined_noArguments
  | arguments _ _ hFirst hMore => exact determined_arguments hFirst hMore
  | lastArgument => exact determined_lastArgument
  | trailingComma => exact determined_trailingComma
  | argument _ _ hNext hMore => exact determined_argument hNext hMore
  | number x => exact determined_number x
  | name id => exact determined_name id
  | parenthesized _ ih => exact determined_parenthesized ih

/-- **The grammar is unambiguous**: no two derivations have the same tokens. -/
theorem tokens_injective {c : Nonterminal} {d d' : Derivation c} (h : d.tokens = d'.tokens) :
    d = d' :=
  (determined d (stops_nil c) (stops_nil c) (by rw [h])).1

end Grammar

end PocketCalc

import PocketCalc.Expr
import PocketCalc.Token.Scan

/-!
# Reading expressions

The grammar, loosest binding first:

    expression := term (('+' | '-') term)*
    term       := signed (('*' | '/') signed)*
    signed     := ('+' | '-') signed | power
    power      := call ['**' signed]
    call       := primary ('(' arguments ')')*
    primary    := number | identifier | '(' expression ')'
    arguments  := nothing, or expressions between commas with an optional comma at the end

Inside a parenthesis, behind a sign and behind `**` an expression is one level deeper than around
it, and the arguments of the second, third, … trailer of one call are two, three, … levels deeper.
A `Level` holds the readers for one depth. It is built from the level below it, if there is room
for one, so the recursion ends with the levels, and each reader leaves a shorter token list, so
the loops end with the tokens.
-/

namespace PocketCalc

/-- What a reader made of the front of a token list, and the tokens it left, fewer than `bound`. -/
structure Taken (α : Type) (bound : Nat) where
  value : α
  rest : List Token
  shorter : rest.length < bound

/-- A reader takes at least one token. -/
abbrev Reader (α : Type) := (ts : List Token) → Except SyntaxFault (Taken α ts.length)

namespace Expr

/-- The complaint about the first of some tokens, or about their absence. -/
def unexpected : List Token → SyntaxFault
  | [] => .unexpectedEnd
  | t :: _ => .unexpectedToken t.kind t.start

/-- The operators between terms. -/
def sumOperator? : TokenKind → Option ChainOperator
  | .plus => some .add
  | .minus => some .subtract
  | _ => none

/-- The operators between factors. -/
def productOperator? : TokenKind → Option ChainOperator
  | .star => some .multiply
  | .slash => some .divide
  | _ => none

/-- The links of a chain, as many as there are. -/
def readLinks (operator? : TokenKind → Option ChainOperator) (operand : Reader Expr)
    (ts : List Token) :
    Except SyntaxFault (Taken (List (ChainOperator × Expr)) (ts.length + 1)) :=
  match ts with
  | [] => .ok ⟨[], [], by simp⟩
  | t :: ts =>
    match operator? t.kind with
    | none => .ok ⟨[], t :: ts, by simp⟩
    | some op => do
      let x ← operand ts
      have := x.shorter
      let more ← readLinks operator? operand x.rest
      return ⟨(op, x.value) :: more.value, more.rest,
        Nat.lt_trans more.shorter (Nat.succ_lt_succ (Nat.lt_succ_of_lt x.shorter))⟩
termination_by ts.length

/-- A chain: an operand and its links. -/
def readChain (operator? : TokenKind → Option ChainOperator) (operand : Reader Expr) :
    Reader Expr := fun ts => do
  let first ← operand ts
  let links ← readLinks operator? operand first.rest
  return ⟨.ofChain first.value links.value, links.rest, by
    have := first.shorter
    have := links.shorter
    omega⟩

/-- The arguments of a call behind the opening parenthesis, with the closing one. -/
def readArguments (expression : Reader Expr) (ts : List Token) :
    Except SyntaxFault (Taken (List Expr) ts.length) :=
  match ts with
  | ⟨.closeParen, _, _⟩ :: rest => .ok ⟨[], rest, by simp⟩
  | ts => do
    let x ← expression ts
    have := x.shorter
    match h : x.rest with
    | ⟨.closeParen, _, _⟩ :: rest =>
      return ⟨[x.value], rest, by
        simp only [h, List.length_cons] at this
        exact Nat.lt_of_succ_lt this⟩
    | ⟨.comma, _, _⟩ :: rest =>
      have : rest.length < ts.length := by
        simp only [h, List.length_cons] at this
        exact Nat.lt_of_succ_lt this
      let more ← readArguments expression rest
      return ⟨x.value :: more.value, more.rest, Nat.lt_trans more.shorter this⟩
    | rest => .error (unexpected rest)
termination_by ts.length

/-- The readers for one depth of nesting. -/
structure Level where
  /-- A number under any signs, with its exponent. -/
  signed : Reader Expr
  /-- The calls of what was just read, as many as there are; none may follow. -/
  trailers : Expr → (ts : List Token) → Except SyntaxFault (Taken Expr (ts.length + 1))

namespace Level

/-- A whole expression at this depth. -/
def expression (level : Level) : Reader Expr :=
  readChain sumOperator? (readChain productOperator? level.signed)

/-- The level below, which is missing at the deepest one. -/
def enter (below : Option Level) : Except SyntaxFault Level :=
  match below with
  | some level => .ok level
  | none => .error .nestedTooDeep

/-- The trailers of a call. The arguments of the first are read at the level below, and so are the
trailers that follow it. -/
def readTrailers (below : Option Level) (callee : Expr) (ts : List Token) :
    Except SyntaxFault (Taken Expr (ts.length + 1)) :=
  match ts with
  | ⟨.openParen, _, _⟩ :: ts => do
    let level ← enter below
    let args ← readArguments level.expression ts
    let called ← level.trailers (.call callee args.value) args.rest
    return ⟨called.value, called.rest, by
      have := args.shorter
      have := called.shorter
      simp only [List.length_cons]
      omega⟩
  | ts => .ok ⟨callee, ts, by simp⟩

/-- A number, a name, or an expression in parentheses. -/
def readPrimary (below : Option Level) : Reader Expr := fun ts =>
  match ts with
  | ⟨.number x, _, _⟩ :: ts => .ok ⟨.number x, ts, by simp⟩
  | ⟨.identifier id, _, _⟩ :: ts => .ok ⟨.name id, ts, by simp⟩
  | ⟨.openParen, _, _⟩ :: ts => do
    let level ← enter below
    let inner ← level.expression ts
    have := inner.shorter
    match h : inner.rest with
    | ⟨.closeParen, _, _⟩ :: rest =>
      return ⟨inner.value, rest, by
        simp only [h, List.length_cons] at this ⊢
        omega⟩
    | rest => .error (unexpected rest)
  | ts => .error (unexpected ts)

/-- A call and, where two stars follow, its exponent. -/
def readPower (below : Option Level) : Reader Expr := fun ts => do
  let base ← readPrimary below ts
  have := base.shorter
  let called ← readTrailers below base.value base.rest
  have := called.shorter
  match h : called.rest with
  | ⟨.power, _, _⟩ :: rest => do
    let level ← enter below
    let exponent ← level.signed rest
    return ⟨.power called.value exponent.value, exponent.rest, by
      have := exponent.shorter
      simp only [h, List.length_cons] at *
      omega⟩
  | rest => return ⟨called.value, rest, by rw [← h]; omega⟩

/-- A power, or a sign in front of what it applies to. -/
def readSigned (below : Option Level) : Reader Expr := fun ts =>
  match ts with
  | ⟨.minus, _, _⟩ :: ts => do
    let level ← enter below
    let operand ← level.signed ts
    return ⟨.negate operand.value, operand.rest, by
      have := operand.shorter
      simp only [List.length_cons]
      omega⟩
  | ⟨.plus, _, _⟩ :: ts => do
    let level ← enter below
    let operand ← level.signed ts
    return ⟨.plus operand.value, operand.rest, by
      have := operand.shorter
      simp only [List.length_cons]
      omega⟩
  | ts => readPower below ts

/-- The level above another one. -/
def above (below : Option Level) : Level := ⟨readSigned below, readTrailers below⟩

/-- The level with room for `room` more levels below it. -/
def withRoom : Nat → Level
  | 0 => above none
  | room + 1 => above (some (withRoom room))

end Level

/-- Reads a whole token list as one expression. -/
def ofTokens (ts : List Token) : Except SyntaxFault Expr := do
  let read ← (Level.withRoom maxNesting).expression ts
  if read.rest.isEmpty then return read.value else .error (unexpected read.rest)

/-- Reads a text as one expression. -/
def parse (cs : List Char) : Except SyntaxFault Expr := do
  ofTokens (← Token.scan cs)

end Expr

end PocketCalc

import PocketCalc.Expr.Eval
import PocketCalc.Proofs.Grammar

/-!
# Bracketing a flat sequence of operators

Keys come in a row: an operand, an operator, an operand, and so on. `group` brackets such a row
under the usual precedence: powers bind tightest and are bracketed from the right, then come
products and quotients, then sums and differences, both bracketed from the left. A sign in front
of the whole applies to the first power.

The types leave no room for another bracketing, since each layer takes only operators of its own
strength, and `flat_group` says that nothing is lost or moved. So all there is to show is that a
grouped row has a derivation with the same tokens, and that its tree evaluates to the value that
the brackets say.
-/

namespace PocketCalc

/-- The token that an operator is written with. -/
def BinaryOperation.token : BinaryOperation → TokenKind
  | add => .plus
  | subtract => .minus
  | multiply => .star
  | divide => .slash
  | power => .power

theorem ChainOperator.token_operation (op : ChainOperator) : op.operation.token = op.token := by
  cases op <;> rfl

namespace Precedence

open Grammar

/-- The operators of one strength. -/
abbrev Operator (s : Strength) : Type := { op : ChainOperator // op.strength = s }

/-- A base and the exponents over it, each of them the base of the next. -/
structure Tower (α : Type) where
  base : α
  exponents : List α

/-- Operands with operators of one strength between them. -/
structure Chain (s : Strength) (α : Type) where
  first : α
  links : List (Operator s × α)

/-- A row of operands under the usual precedence. -/
abbrev Sum (α : Type) : Type := Chain .sum (Chain .product (Tower α))

variable {α β : Type} {s : Strength}

/-- A tower of one operand. -/
def Tower.single (x : α) : Tower α := ⟨x, []⟩

/-- The tower as the exponent of `x`. -/
def Tower.under (x : α) (t : Tower α) : Tower α := ⟨x, t.base :: t.exponents⟩

/-- A chain of one operand. -/
def Chain.single (x : α) : Chain s α := ⟨x, []⟩

/-- The chain with an operand more in front. -/
def Chain.behind (x : α) (op : Operator s) (c : Chain s α) : Chain s α :=
  ⟨x, (op, c.first) :: c.links⟩

/-- The chain with something done to its first operand. -/
def Chain.mapFirst (f : α → α) (c : Chain s α) : Chain s α := ⟨f c.first, c.links⟩

/-- A grouped row with an operand more in front: the operator takes hold of as much of the front
of the row as is bracketed more tightly. -/
def join (x : α) (op : BinaryOperation) (row : Sum α) : Sum α :=
  let tower := Tower.single x
  match op with
  | .power => row.mapFirst (·.mapFirst (·.under x))
  | .multiply => row.mapFirst (·.behind tower ⟨.multiply, rfl⟩)
  | .divide => row.mapFirst (·.behind tower ⟨.divide, rfl⟩)
  | .add => row.behind (.single tower) ⟨.add, rfl⟩
  | .subtract => row.behind (.single tower) ⟨.subtract, rfl⟩

/-- A row bracketed under the usual precedence. -/
def group (x : α) : List (BinaryOperation × α) → Sum α
  | [] => .single (.single (.single x))
  | (op, y) :: links => join x op (group y links)

/-! ## Nothing is lost or moved -/

/-- What follows the base of a tower. -/
def Tower.tail (t : Tower α) : List (BinaryOperation × α) := t.exponents.map (.power, ·)

/-- What follows the first operand of a product. -/
def productTail (c : Chain .product (Tower α)) : List (BinaryOperation × α) :=
  c.first.tail ++ c.links.flatMap fun link => (link.1.1.operation, link.2.base) :: link.2.tail

/-- What follows the first operand of a row. -/
def rowTail (row : Sum α) : List (BinaryOperation × α) :=
  productTail row.first ++ row.links.flatMap fun link =>
    (link.1.1.operation, link.2.first.base) :: productTail link.2

theorem rowTail_join (x : α) (op : BinaryOperation) (row : Sum α) :
    (join x op row).first.first.base = x ∧
      rowTail (join x op row) = (op, row.first.first.base) :: rowTail row := by
  cases op <;> exact ⟨rfl, by simp [join, rowTail, productTail, Chain.mapFirst, Chain.behind,
    Chain.single, Tower.single, Tower.under, Tower.tail, ChainOperator.operation]⟩

/-- **Bracketing keeps every operand and every operator in its place.** -/
theorem flat_group (x : α) (links : List (BinaryOperation × α)) :
    (group x links).first.first.base = x ∧ rowTail (group x links) = links := by
  induction links generalizing x with
  | nil => exact ⟨rfl, rfl⟩
  | cons link links ih =>
      obtain ⟨op, y⟩ := link
      obtain ⟨hbase, htail⟩ := ih y
      obtain ⟨hx, hrow⟩ := rowTail_join x op (group y links)
      exact ⟨hx, by rw [group, hrow, hbase, htail]⟩

/-! ## Doing something to each operand -/

/-- The tower with something done to each operand. -/
def Tower.map (f : α → β) (t : Tower α) : Tower β := ⟨f t.base, t.exponents.map f⟩

/-- The chain with something done to each operand. -/
def Chain.map (f : α → β) (c : Chain s α) : Chain s β :=
  ⟨f c.first, c.links.map fun link => (link.1, f link.2)⟩

theorem Chain.map_map {γ : Type} (f : α → β) (g : β → γ) (c : Chain s α) :
    (c.map f).map g = c.map fun x => g (f x) := by
  simp [Chain.map]

theorem Chain.map_mapFirst {f : α → α} {f' : β → β} {g : α → β} (h : ∀ x, g (f x) = f' (g x))
    (c : Chain s α) : (c.mapFirst f).map g = (c.map g).mapFirst f' := by
  simp [Chain.map, Chain.mapFirst, h]

/-- A row with something done to each operand. -/
def mapRow (f : α → β) (row : Sum α) : Sum β := row.map (·.map (·.map f))

/-- Bracketing does not look at the operands. -/
theorem mapRow_group (f : α → β) (x : α) (links : List (BinaryOperation × α)) :
    mapRow f (group x links) = group (f x) (links.map fun link => (link.1, f link.2)) := by
  induction links generalizing x with
  | nil => rfl
  | cons link links ih =>
      obtain ⟨op, y⟩ := link
      have hjoin : ∀ row : Sum α, mapRow f (join x op row) = join (f x) op (mapRow f row) := by
        intro row
        cases op <;> rfl
      rw [group, hjoin, ih y]
      rfl

/-! ## The value of a row

An operand counts as the number that it evaluates to, or as the error that it ends with. The first
error from the left is the error of the whole. -/

/-- What an operand amounts to. -/
abbrev Amount : Type := Except Error Float

/-- A base under some exponents, bracketed from the right. -/
def raised (base : Amount) : List Amount → Amount
  | [] => base
  | exponent :: exponents => do
    let x ← base
    let y ← raised exponent exponents
    Expr.raise x y

/-- A number and the links behind it, bracketed from the left. -/
def linked (x : Float) : List (Operator s × Amount) → Amount
  | [] => .ok x
  | (op, operand) :: links => do
    let y ← operand
    let z ← op.1.operation.apply x y
    linked z links

def Tower.value (t : Tower Amount) : Amount := raised t.base t.exponents

def Chain.value (c : Chain s Amount) : Amount := do
  let x ← c.first
  linked x c.links

/-- The amount under a sign. -/
def negate (negated : Bool) (x : Amount) : Amount := if negated then (-·) <$> x else x

/-- The value of a row of amounts; the sign in front belongs to the first tower. -/
def value (negated : Bool) (row : Sum Amount) : Amount :=
  let factors := row.map (·.map Tower.value)
  ((factors.mapFirst (·.mapFirst (negate negated))).map Chain.value).value

/-- A sign in front of two numbers belongs to the first of them, unless the two make a power. -/
theorem value_pair (negated : Bool) (x : Float) (op : BinaryOperation) (y : Float) :
    value negated (group (.ok x) [(op, .ok y)]) =
      if op = .power then negate negated (Expr.raise x y)
      else op.apply (if negated then -x else x) y := by
  let first : Amount := negate negated (.ok x)
  have hfirst : first = pure (if negated then -x else x) := by
    cases negated <;> rfl
  -- in a sum the sign is in the first term, in a product it is in the first factor
  have hsum : ((first >>= pure) >>= fun z => op.apply z y >>= pure) =
      op.apply (if negated then -x else x) y := by
    rw [hfirst, pure_bind, pure_bind, bind_pure]
  have hproduct : ((first >>= fun z => op.apply z y >>= pure) >>= pure) =
      op.apply (if negated then -x else x) y := by
    rw [hfirst, pure_bind, bind_pure, bind_pure]
  cases op with
  | power =>
      show (negate negated (Expr.raise x y) >>= pure) >>= pure = negate negated (Expr.raise x y)
      rw [bind_pure, bind_pure]
  | add => exact hsum
  | subtract => exact hsum
  | multiply => exact hproduct
  | divide => exact hproduct

/-! ## The derivation of a row -/

/-- A power as the grammar derives it: the exponent is a power again. -/
def power (base : Derivation .call) : List (Derivation .call) → Derivation .power
  | [] => .bare base
  | exponent :: exponents => .raised base (.unsigned (power exponent exponents))

def chained : List (Operator s × Derivation (.operand s)) → Derivation (.links s)
  | [] => .noLinks
  | (op, operand) :: links => .link op.1 op.2 operand (chained links)

def Tower.derivation (t : Tower (Derivation .call)) : Derivation .signed :=
  .unsigned (power t.base t.exponents)

def Chain.derivation (c : Chain s (Derivation (.operand s))) : Derivation (.chain s) :=
  .chain c.first (chained c.links)

/-- The product of some factors, as an operand of a sum. -/
def term (c : Chain .product (Derivation .signed)) : Derivation (.operand .sum) :=
  .term (c.map Derivation.factor).derivation

/-- The factor under a sign. -/
def sign (negated : Bool) (factor : Derivation .signed) : Derivation .signed :=
  if negated then .minus factor else factor

/-- The derivation of a row of calls; the sign in front belongs to the first tower. -/
def derivation (negated : Bool) (row : Sum (Derivation .call)) : Derivation .expression :=
  let factors := row.map (·.map Tower.derivation)
  ((factors.mapFirst (·.mapFirst (sign negated))).map term).derivation

/-! ## The tokens of a row -/

/-- The tokens of what follows the first operand of a row. -/
def tailTokens (tail : List (BinaryOperation × Derivation .call)) : List TokenKind :=
  tail.flatMap fun link => link.1.token :: link.2.tokens

theorem tailTokens_append (tail tail' : List (BinaryOperation × Derivation .call)) :
    tailTokens (tail ++ tail') = tailTokens tail ++ tailTokens tail' :=
  List.flatMap_append

theorem tokens_power (base : Derivation .call) (exponents : List (Derivation .call)) :
    (power base exponents).tokens = base.tokens ++ tailTokens (Tower.tail ⟨base, exponents⟩) := by
  induction exponents generalizing base with
  | nil => exact (List.append_nil _).symm
  | cons exponent exponents ih =>
      rw [power, Derivation.tokens, Derivation.tokens, ih exponent]
      rfl

theorem tokens_chained (links : List (Operator s × Derivation (.operand s))) :
    (chained links).tokens = links.flatMap fun link => link.1.1.token :: link.2.tokens := by
  induction links with
  | nil => rfl
  | cons link links ih => rw [chained, Derivation.tokens, ih]; rfl

/-- The token of the sign in front. -/
def signTokens (negated : Bool) : List TokenKind := if negated then [.minus] else []

theorem tokens_sign (negated : Bool) (factor : Derivation .signed) :
    (sign negated factor).tokens = signTokens negated ++ factor.tokens := by
  cases negated <;> rfl

theorem tokens_tower (t : Tower (Derivation .call)) :
    t.derivation.tokens = t.base.tokens ++ tailTokens t.tail :=
  tokens_power t.base t.exponents

theorem tokens_term (negated : Bool) (c : Chain .product (Tower (Derivation .call))) :
    (term ((c.map Tower.derivation).mapFirst (sign negated))).tokens =
      signTokens negated ++ (c.first.base.tokens ++ tailTokens (productTail c)) := by
  have hlinks : (chained ((c.links.map fun link => (link.1, link.2.derivation)).map
      fun link => (link.1, Derivation.factor link.2))).tokens =
      tailTokens (c.links.flatMap fun link =>
        (link.1.1.operation, link.2.base) :: link.2.tail) := by
    rw [tokens_chained]
    induction c.links with
    | nil => rfl
    | cons link links ih =>
        simp only [List.map_cons, List.flatMap_cons, tailTokens_append, ih]
        simp [Derivation.tokens, tokens_tower, tailTokens, ChainOperator.token_operation]
  have hfirst : (Derivation.factor (sign negated c.first.derivation)).tokens =
      signTokens negated ++ (c.first.base.tokens ++ tailTokens c.first.tail) := by
    rw [Derivation.tokens, tokens_sign, tokens_tower]
  rw [term, Derivation.tokens, Chain.derivation, Derivation.tokens]
  simp only [Chain.map, Chain.mapFirst, productTail, tailTokens_append]
  rw [hfirst, hlinks]
  simp

/-- **The derivation of a row has the tokens of the row.** -/
theorem tokens_derivation (negated : Bool) (row : Sum (Derivation .call)) :
    (derivation negated row).tokens =
      signTokens negated ++ (row.first.first.base.tokens ++ tailTokens (rowTail row)) := by
  have hterm : ∀ c : Chain .product (Tower (Derivation .call)),
      (term (c.map Tower.derivation)).tokens =
        c.first.base.tokens ++ tailTokens (productTail c) := fun c => tokens_term false c
  have hlinks : (chained ((row.links.map fun link => (link.1, link.2.map Tower.derivation)).map
      fun link => (link.1, term link.2))).tokens =
      tailTokens (row.links.flatMap fun link =>
        (link.1.1.operation, link.2.first.base) :: productTail link.2) := by
    rw [tokens_chained]
    induction row.links with
    | nil => rfl
    | cons link links ih =>
        simp only [List.map_cons, List.flatMap_cons, tailTokens_append, ih]
        simp [hterm, tailTokens, ChainOperator.token_operation]
  rw [derivation, Chain.derivation, Derivation.tokens]
  simp only [Chain.map, Chain.mapFirst, rowTail, tailTokens_append] at hlinks ⊢
  rw [hlinks]
  -- only the first term carries the sign
  have hfirst := tokens_term negated row.first
  simp only [Chain.map, Chain.mapFirst] at hfirst
  rw [hfirst]
  simp

/-- The tokens of a grouped row are those of its operands and operators, one after another. -/
theorem tokens_group (negated : Bool) (x : Derivation .call)
    (links : List (BinaryOperation × Derivation .call)) :
    (derivation negated (group x links)).tokens =
      signTokens negated ++ (x.tokens ++ tailTokens links) := by
  obtain ⟨hbase, htail⟩ := flat_group x links
  rw [tokens_derivation, hbase, htail]

/-! ## The tree of a row -/

/-- The number that a tree evaluates to. -/
def numeric (env : Environment) (e : Expr) : Amount := do
  let v ← e.eval env
  v.asNumber

variable {env : Environment}

theorem asNumber_number (x : Float) : (Value.number x).asNumber = pure x := rfl

theorem numeric_number (x : Float) : numeric env (.number x) = .ok x := by
  simp only [numeric, Expr.eval]
  rfl

theorem numeric_negate (e : Expr) : numeric env (.negate e) = (-·) <$> numeric env e := by
  simp only [numeric, Expr.eval, bind_assoc, pure_bind, asNumber_number, map_eq_pure_bind]

theorem numeric_power (base exponent : Expr) :
    numeric env (.power base exponent) =
      numeric env base >>= fun x => numeric env exponent >>= fun y => Expr.raise x y := by
  simp only [numeric, Expr.eval, bind_assoc, pure_bind, asNumber_number, bind_pure]

theorem numeric_ofChain (first : Expr) (links : List (ChainOperator × Expr)) :
    numeric env (Expr.ofChain first links) =
      numeric env first >>= fun x => Expr.evalLinks env x links := by
  cases links with
  | nil =>
      simp only [Expr.ofChain, List.isEmpty_nil, if_true, Expr.evalLinks]
      exact (bind_pure _).symm
  | cons link links =>
      simp only [Expr.ofChain, List.isEmpty_cons, Bool.false_eq_true, if_false, numeric, Expr.eval,
        bind_assoc, pure_bind, asNumber_number, bind_pure]

theorem numeric_tower (t : Tower (Derivation .call)) :
    numeric env t.derivation.tree = (t.map fun d => numeric env d.tree).value := by
  have hpower : ∀ (base : Derivation .call) (exponents : List (Derivation .call)),
      numeric env (power base exponents).tree =
        raised (numeric env base.tree) (exponents.map fun d => numeric env d.tree) := by
    intro base exponents
    induction exponents generalizing base with
    | nil => rfl
    | cons exponent exponents ih =>
        have h : numeric env _ = _ := numeric_power base.tree (power exponent exponents).tree
        rw [ih exponent] at h
        exact h
  exact hpower t.base t.exponents

theorem evalLinks_chained (x : Float) (links : List (Operator s × Derivation (.operand s))) :
    Expr.evalLinks env x (chained links).tree =
      linked x (links.map fun link => (link.1, numeric env link.2.tree)) := by
  induction links generalizing x with
  | nil => simp only [chained, Derivation.tree, Expr.evalLinks, List.map_nil, linked]
  | cons link links ih =>
      obtain ⟨op, operand⟩ := link
      simp only [chained, Derivation.tree, Expr.evalLinks, List.map_cons, linked, ih, numeric,
        bind_assoc]

theorem numeric_chain (c : Chain s (Derivation (.operand s))) :
    numeric env c.derivation.tree = (c.map fun d => numeric env d.tree).value := by
  have h : numeric env _ = _ := numeric_ofChain c.first.tree (chained c.links).tree
  simp only [evalLinks_chained] at h
  exact h

theorem numeric_term (c : Chain .product (Derivation .signed)) :
    numeric env (term c).tree = (c.map fun d => numeric env d.tree).value := by
  have h : numeric env _ = _ := numeric_chain (c.map Derivation.factor)
  rw [Chain.map_map] at h
  exact h

theorem numeric_sign (negated : Bool) (factor : Derivation .signed) :
    numeric env (sign negated factor).tree = negate negated (numeric env factor.tree) := by
  cases negated with
  | false => rfl
  | true => exact numeric_negate factor.tree

/-- **The tree of a row evaluates to the value of the row.** -/
theorem numeric_derivation (negated : Bool) (row : Sum (Derivation .call)) :
    numeric env (derivation negated row).tree =
      value negated (mapRow (fun d => numeric env d.tree) row) := by
  let factors := row.map (·.map Tower.derivation)
  let amounts := (mapRow (fun d => numeric env d.tree) row).map (·.map Tower.value)
  let read (c : Chain .product (Derivation .signed)) : Chain .product Amount :=
    c.map fun d => numeric env d.tree
  have hamounts : factors.map read = amounts := by
    simp only [factors, amounts, read, mapRow, Chain.map_map, numeric_tower]
  -- a sign in the tree is a sign in front of the amount, whatever it stands in front of
  have hsign : ∀ c, read (c.mapFirst (sign negated)) = (read c).mapFirst (negate negated) :=
    Chain.map_mapFirst (numeric_sign negated)
  calc numeric env (derivation negated row).tree
      = (((factors.mapFirst (·.mapFirst (sign negated))).map read).map Chain.value).value := by
        rw [derivation, numeric_chain, Chain.map_map, Chain.map_map]
        simp only [numeric_term]
        rfl
    _ = (((factors.map read).mapFirst (·.mapFirst (negate negated))).map Chain.value).value := by
        rw [Chain.map_mapFirst hsign]
    _ = value negated (mapRow (fun d => numeric env d.tree) row) := by
        rw [hamounts]
        rfl

/-- The tree of a grouped row evaluates to the value of the amounts of its operands, grouped. -/
theorem numeric_group (negated : Bool) (x : Derivation .call)
    (links : List (BinaryOperation × Derivation .call)) :
    numeric env (derivation negated (group x links)).tree =
      value negated (group (numeric env x.tree)
        (links.map fun link => (link.1, numeric env link.2.tree))) := by
  rw [numeric_derivation, mapRow_group]

end Precedence

end PocketCalc

import Mathlib.Data.List.Basic
import PocketCalc.Proofs.Precedence
import PocketCalc.Proofs.Reading

/-!
# Chains are nested to the left

The evaluator goes along a chain in a loop. It holds one number, and each link evaluates an operand
and applies an operator to the two. What a chain stands for on paper is binary operations nested to
the left, `((a - b) - c) + d`, and these are evaluated from the inside out.

Both come to the same number, or to the same error where several are there to choose from. What
carries it is that nesting one more link around a tree does with the number of that tree just what
the loop does with the number that it holds.
-/

namespace PocketCalc

/-! ## Trees without chains -/

/-- The tree of an expression in which each operator has a node of its own. -/
inductive BinaryExpr where
  | number (value : Float)
  | name (id : String)
  | negate (operand : BinaryExpr)
  | plus (operand : BinaryExpr)
  | binary (op : ChainOperator) (lhs rhs : BinaryExpr)
  | power (base exponent : BinaryExpr)
  | call (callee : BinaryExpr) (args : List BinaryExpr)

namespace BinaryExpr

mutual

/-- The value of a tree. An operation evaluates its left side to a number, then its right side, and
then it is applied; a call evaluates what is called, then its arguments from left to right. -/
def eval (env : Environment) : BinaryExpr → Except Error Value
  | .number x => .ok (.number x)
  | .name id =>
    match env.lookup id with
    | some (.constant x) => .ok (.number x)
    | some (.function op) => .ok (.function op)
    | none => .error (.unboundName id)
  | .negate operand => do
    let x ← (← eval env operand).asNumber
    return .number (-x)
  | .plus operand => do
    let x ← (← eval env operand).asNumber
    return .number x
  | .binary op lhs rhs => do
    let x ← (← eval env lhs).asNumber
    let y ← (← eval env rhs).asNumber
    return .number (← op.operation.apply x y)
  | .power base exponent => do
    let x ← (← eval env base).asNumber
    let y ← (← eval env exponent).asNumber
    return .number (← Expr.raise x y)
  | .call callee args => do
    let op ← (← eval env callee).asFunction
    let xs ← evalArgs env args
    return .number (← env.call (.unary op) (xs.map .float))

/-- The numbers that arguments evaluate to. -/
def evalArgs (env : Environment) : List BinaryExpr → Except Error (List Float)
  | [] => .ok []
  | arg :: args => do
    let x ← (← eval env arg).asNumber
    return x :: (← evalArgs env args)

end

/-- Operators applied one after the other, each to all that stands in front of it. -/
def chained (first : BinaryExpr) (links : List (ChainOperator × BinaryExpr)) : BinaryExpr :=
  links.foldl (fun tree link => .binary link.1 tree link.2) first

end BinaryExpr

namespace Expr

mutual

/-- The tree with each chain nested to the left. A chain without links, which no text is read as,
has no operator to make a node of; it asks for a number all the same, as a plus sign does. -/
def leftNested : Expr → BinaryExpr
  | .number x => .number x
  | .name id => .name id
  | .negate operand => .negate (leftNested operand)
  | .plus operand => .plus (leftNested operand)
  | .chain first [] => .plus (leftNested first)
  | .chain first (link :: links) =>
    (leftNested first).chained (leftNestedLinks (link :: links))
  | .power base exponent => .power (leftNested base) (leftNested exponent)
  | .call callee args => .call (leftNested callee) (leftNestedArgs args)

def leftNestedLinks : List (ChainOperator × Expr) → List (ChainOperator × BinaryExpr)
  | [] => []
  | (op, operand) :: links => (op, leftNested operand) :: leftNestedLinks links

def leftNestedArgs : List Expr → List BinaryExpr
  | [] => []
  | arg :: args => leftNested arg :: leftNestedArgs args

end

end Expr

/-! ## The loop and the nesting -/

namespace BinaryExpr

open Precedence (asNumber_number)

variable {env : Environment}

/-- The number that a tree evaluates to. -/
def numeric (env : Environment) (t : BinaryExpr) : Except Error Float := do
  (← t.eval env).asNumber

/-- The tree comes to a number if it comes to anything. -/
def IsNumeric (env : Environment) (t : BinaryExpr) : Prop :=
  t.eval env = Value.number <$> t.numeric env

theorem numeric_binary (op : ChainOperator) (lhs rhs : BinaryExpr) :
    (binary op lhs rhs).numeric env =
      lhs.numeric env >>= fun x => rhs.numeric env >>= fun y => op.operation.apply x y := by
  simp only [numeric, eval, bind_assoc, pure_bind, asNumber_number, bind_pure]

theorem isNumeric_binary (op : ChainOperator) (lhs rhs : BinaryExpr) :
    (binary op lhs rhs).IsNumeric env := by
  rw [IsNumeric, numeric_binary]
  simp only [numeric, eval, bind_assoc, map_eq_pure_bind]

/-- Behind an operator there is nothing but numbers. -/
theorem isNumeric_chained (links : List (ChainOperator × BinaryExpr)) {t : BinaryExpr}
    (h : t.IsNumeric env) : (t.chained links).IsNumeric env := by
  induction links generalizing t with
  | nil => exact h
  | cons link links ih => exact ih (isNumeric_binary link.1 t link.2)

end BinaryExpr

namespace Expr

open BinaryExpr

variable {env : Environment}

mutual

theorem eval_leftNested (e : Expr) : e.leftNested.eval env = e.eval env := by
  match e with
  | .number x => rfl
  | .name id => rfl
  | .negate operand => simp only [leftNested, BinaryExpr.eval, eval, eval_leftNested operand]
  | .plus operand => simp only [leftNested, BinaryExpr.eval, eval, eval_leftNested operand]
  | .chain first [] =>
      simp only [leftNested, BinaryExpr.eval, eval, evalLinks, eval_leftNested first]
      rfl
  | .chain first ((op, operand) :: links) =>
      -- what is nested is an operation, so it comes to the number that the loop ends with
      have hloop := numeric_chained_leftNested first.leftNested ((op, operand) :: links)
      have hnested : (first.leftNested.chained (leftNestedLinks ((op, operand) :: links))).IsNumeric
          env := isNumeric_chained (leftNestedLinks links) (isNumeric_binary op _ _)
      rw [leftNested, hnested, hloop]
      simp only [BinaryExpr.numeric, eval_leftNested first, eval, bind_assoc, map_eq_pure_bind]
  | .power base exponent =>
      simp only [leftNested, BinaryExpr.eval, eval, eval_leftNested base, eval_leftNested exponent]
  | .call callee args =>
      simp only [leftNested, BinaryExpr.eval, eval, eval_leftNested callee,
        evalArgs_leftNested args]

/-- **One more link around a tree is one more step of the loop.** -/
theorem numeric_chained_leftNested (t : BinaryExpr) (links : List (ChainOperator × Expr)) :
    (t.chained (leftNestedLinks links)).numeric env =
      t.numeric env >>= fun x => evalLinks env x links := by
  match links with
  | [] =>
    simp only [leftNestedLinks, chained, List.foldl_nil, evalLinks]
    exact (bind_pure _).symm
  | (op, operand) :: links =>
    have hoperand : operand.leftNested.numeric env = (do (← operand.eval env).asNumber) := by
      rw [BinaryExpr.numeric, eval_leftNested operand]
    calc (t.chained (leftNestedLinks ((op, operand) :: links))).numeric env
        = (chained (.binary op t operand.leftNested) (leftNestedLinks links)).numeric env := rfl
      _ = (BinaryExpr.binary op t operand.leftNested).numeric env >>=
            fun x => evalLinks env x links := numeric_chained_leftNested _ links
      _ = t.numeric env >>= fun x => evalLinks env x ((op, operand) :: links) := by
          simp only [numeric_binary, hoperand, evalLinks, bind_assoc]

theorem evalArgs_leftNested (args : List Expr) :
    BinaryExpr.evalArgs env (leftNestedArgs args) = evalArgs env args := by
  match args with
  | [] => rfl
  | arg :: args =>
    simp only [leftNestedArgs, BinaryExpr.evalArgs, evalArgs, eval_leftNested arg,
      evalArgs_leftNested args]

end

theorem leftNestedLinks_eq_map (links : List (ChainOperator × Expr)) :
    leftNestedLinks links = links.map fun link => (link.1, link.2.leftNested) := by
  induction links with
  | nil => rfl
  | cons link links ih => rw [List.map_cons, ← ih]; rfl

/-- A chain with links is a fold of its operators from the left. -/
theorem leftNested_chain (first : Expr) {links : List (ChainOperator × Expr)} (h : links ≠ []) :
    (chain first links).leftNested =
      links.foldl (fun tree link => .binary link.1 tree link.2.leftNested) first.leftNested := by
  cases links with
  | nil => exact absurd rfl h
  | cons link links => rw [leftNested, chained, leftNestedLinks_eq_map, List.foldl_map]

/-! ## What is read has no chain without links -/

/-- Each chain in the tree has a link. -/
inductive Linked : Expr → Prop where
  | number (x : Float) : Linked (.number x)
  | name (id : String) : Linked (.name id)
  | negate {e : Expr} (h : e.Linked) : Linked (.negate e)
  | plus {e : Expr} (h : e.Linked) : Linked (.plus e)
  | chain {first : Expr} {links : List (ChainOperator × Expr)} (nonempty : links ≠ [])
      (hfirst : first.Linked) (hlinks : ∀ l ∈ links, l.2.Linked) : Linked (.chain first links)
  | power {base exponent : Expr} (hbase : base.Linked) (hexponent : exponent.Linked) :
      Linked (.power base exponent)
  | call {callee : Expr} {args : List Expr} (hcallee : callee.Linked)
      (hargs : ∀ a ∈ args, a.Linked) : Linked (.call callee args)

theorem linked_ofChain {first : Expr} {links : List (ChainOperator × Expr)} (hf : first.Linked)
    (hl : ∀ l ∈ links, l.2.Linked) : (ofChain first links).Linked := by
  cases links with
  | nil => exact hf
  | cons l links => exact .chain (List.cons_ne_nil l links) hf hl

theorem linked_calls {argLists : List (List Expr)} {callee : Expr} (hc : callee.Linked)
    (ha : ∀ args ∈ argLists, ∀ a ∈ args, a.Linked) : (argLists.foldl call callee).Linked := by
  induction argLists generalizing callee with
  | nil => exact hc
  | cons args argLists ih =>
      obtain ⟨hargs, hmore⟩ := List.forall_mem_cons.mp ha
      exact ih (.call hc hargs) hmore

end Expr

namespace Grammar

/-- The trees that a phrase contributes are linked. -/
def IsLinked : (c : Nonterminal) → c.Meaning → Prop
  | .links _, links => ∀ l ∈ links, l.2.Linked
  | .trailers, argLists => ∀ args ∈ argLists, ∀ a ∈ args, a.Linked
  | .arguments, args => ∀ a ∈ args, a.Linked
  | .moreArguments, args => ∀ a ∈ args, a.Linked
  | .chain _, e => e.Linked
  | .operand _, e => e.Linked
  | .signed, e => e.Linked
  | .power, e => e.Linked
  | .call, e => e.Linked
  | .primary, e => e.Linked

theorem isLinked_tree {c : Nonterminal} (d : Derivation c) : IsLinked c d.tree := by
  induction d with
  | chain _ _ hFirst hLinks => exact Expr.linked_ofChain hFirst hLinks
  | noLinks => exact List.forall_mem_nil _
  | link _ _ _ _ hOperand hLinks => exact List.forall_mem_cons.mpr ⟨hOperand, hLinks⟩
  | term _ ih => exact ih
  | factor _ ih => exact ih
  | minus _ ih => exact .negate ih
  | plus _ ih => exact .plus ih
  | unsigned _ ih => exact ih
  | bare _ ih => exact ih
  | raised _ _ hBase hExponent => exact .power hBase hExponent
  | called _ _ hCallee hTrailers => exact Expr.linked_calls hCallee hTrailers
  | noTrailers => exact List.forall_mem_nil _
  | trailer _ _ hArgs hTrailers => exact List.forall_mem_cons.mpr ⟨hArgs, hTrailers⟩
  | noArguments => exact List.forall_mem_nil _
  | arguments _ _ hFirst hMore => exact List.forall_mem_cons.mpr ⟨hFirst, hMore⟩
  | lastArgument => exact List.forall_mem_nil _
  | trailingComma => exact List.forall_mem_nil _
  | argument _ _ hNext hMore => exact List.forall_mem_cons.mpr ⟨hNext, hMore⟩
  | number x => exact .number x
  | name id => exact .name id
  | parenthesized _ ih => exact ih

theorem linked_of_parse {cs : List Char} {e : Expr} (h : Expr.parse cs = .ok e) : e.Linked := by
  obtain ⟨ts, -, hread⟩ := bind_eq_ok h
  obtain ⟨d, -, -, rfl⟩ := derivation_of_ofTokens hread
  exact isLinked_tree d

end Grammar

/-- **A chain means what operations nested to the left mean.** Every tree evaluates to the value, or
to the error, of the tree without chains, in which a chain is the fold of its operators from the
left. The one chain that this fold leaves without an operator is a chain without links, and no
text is read as a tree that has one. -/
theorem eval_eq_eval_leftNested :
    (∀ env (e : Expr), e.eval env = e.leftNested.eval env) ∧
    (∀ first links, links ≠ [] → (Expr.chain first links).leftNested =
      links.foldl (fun tree link => .binary link.1 tree link.2.leftNested) first.leftNested) ∧
    (∀ cs e, Expr.parse cs = .ok e → e.Linked) := by
  refine ⟨fun env e => ?_, fun first links h => ?_, fun cs e h => ?_⟩
  · exact e.eval_leftNested.symm
  · exact Expr.leftNested_chain first h
  · exact Grammar.linked_of_parse h

/-- A division by zero in front comes before a function where a number is needed. -/
theorem eval_eq_eval_leftNested_quotient :
    ∃ e, Expr.parse "1 / 0 - sin".toList = .ok e ∧ e.Linked ∧
      e.leftNested = .binary .subtract (.binary .divide (.number 1) (.number 0)) (.name "sin") ∧
      e.eval {} = .error .divisionByZero ∧ e.leftNested.eval {} = .error .divisionByZero := by
  obtain ⟨heval, hnested, hlinked⟩ := eval_eq_eval_leftNested
  have hscan : Token.scan "1 / 0 - sin".toList = .ok
      [⟨.number 1, 0, 1⟩, ⟨.slash, 2, 3⟩, ⟨.number 0, 4, 5⟩, ⟨.minus, 6, 7⟩,
        ⟨.identifier "sin", 8, 11⟩] := by
    decide +kernel
  have hparse : Expr.parse "1 / 0 - sin".toList =
      .ok (.chain (.chain (.number 1) [(.divide, .number 0)]) [(.subtract, .name "sin")]) := by
    rw [Expr.parse, hscan]
    exact Grammar.ofTokens_of_derivation
      (.chain
        (.term (.chain (.factor (.unsigned (.bare (.called (.number 1) .noTrailers))))
          (.link .divide rfl (.factor (.unsigned (.bare (.called (.number 0) .noTrailers))))
            .noLinks)))
        (.link .subtract rfl
          (.term (.chain (.factor (.unsigned (.bare (.called (.name "sin") .noTrailers))))
            .noLinks)) .noLinks))
      rfl (by decide)
  have hquotient : (Expr.chain (.number 1) [(.divide, .number 0)]).leftNested =
      .binary .divide (.number 1) (.number 0) := hnested _ _ (List.cons_ne_nil _ _)
  have hlessFunction := hnested (.chain (.number 1) [(.divide, .number 0)])
    [(.subtract, .name "sin")] (List.cons_ne_nil _ _)
  rw [hquotient] at hlessFunction
  have herror : Expr.eval {} (.chain (.chain (.number 1) [(.divide, .number 0)])
      [(.subtract, .name "sin")]) = .error .divisionByZero := by
    decide +kernel
  exact ⟨_, hparse, hlinked _ _ hparse, hlessFunction, herror, (heval {} _).symm.trans herror⟩

end PocketCalc

import PocketCalc.Proofs.FirstFault
import PocketCalc.Proofs.LongestMatch

/-!
# What can go wrong, and where

A text that is malformed is reported as that, whatever else is wrong with it, because the whole of
it is parsed before anything is evaluated. And nothing else is reported as malformed: what an
evaluation fails with is one of four errors, and none of them is a syntax error.

Which names an evaluation can fail over, the tree tells on its own. The induction is over the tree
for all of its errors at once.
-/

namespace PocketCalc

/-! ## The names in a tree -/

namespace Expr

mutual

/-- The names that occur in a tree, in the order in which they are written. -/
def names : Expr → List String
  | .number _ => []
  | .name id => [id]
  | .negate operand | .plus operand => names operand
  | .chain first links => names first ++ namesOfLinks links
  | .power base exponent => names base ++ names exponent
  | .call callee args => names callee ++ namesOfArgs args

def namesOfLinks : List (ChainOperator × Expr) → List String
  | [] => []
  | (_, operand) :: links => names operand ++ namesOfLinks links

def namesOfArgs : List Expr → List String
  | [] => []
  | arg :: args => names arg ++ namesOfArgs args

end

end Expr

/-! ## The errors of an evaluation -/

/-- The errors of an evaluation that meets these names. -/
inductive Error.OfEvaluation (env : Environment) (names : List String) : Error → Prop where
  | invalidOperand (fault : OperandFault) : OfEvaluation env names (.invalidOperand fault)
  | divisionByZero : OfEvaluation env names .divisionByZero
  | domain (fault : DomainFault) : OfEvaluation env names (.domain fault)
  | unboundName (name : String) (mem : name ∈ names) (unbound : env.lookup name = none) :
      OfEvaluation env names (.unboundName name)

/-- If it fails, it fails as an evaluation does that meets these names. -/
def FailsOver {α : Type} (env : Environment) (names : List String) (r : Except Error α) : Prop :=
  ∀ error, r = .error error → error.OfEvaluation env names

namespace FailsOver

variable {α β : Type} {env : Environment} {names : List String} {r : Except Error α}

theorem ok (x : α) : FailsOver env names (.ok x) := nofun

theorem fails {error : Error} (h : error.OfEvaluation env names) :
    FailsOver (α := α) env names (.error error) := by
  rintro _ ⟨⟩
  exact h

/-- An evaluation in two steps fails as one of the steps does. -/
theorem bind {f : α → Except Error β} (h : FailsOver env names r)
    (hf : ∀ x, FailsOver env names (f x)) : FailsOver env names (r >>= f) := by
  cases r with
  | error error => exact fails (h error rfl)
  | ok x => exact hf x

end FailsOver

section

variable (env : Environment) (names : List String)

/-! ### Single steps -/

theorem failsOver_asNumber (v : Value) : FailsOver env names v.asNumber := by
  cases v with
  | number x => exact .ok x
  | function op => exact .fails (.invalidOperand _)

theorem failsOver_asFunction (v : Value) : FailsOver env names v.asFunction := by
  cases v with
  | number x => exact .fails (.invalidOperand _)
  | function op => exact .ok op

theorem failsOver_apply (op : BinaryOperation) (x y : Float) :
    FailsOver env names (op.apply x y) := by
  unfold BinaryOperation.apply
  split
  · exact .ok _
  · exact .fails .divisionByZero

theorem failsOver_raise (x y : Float) : FailsOver env names (Expr.raise x y) := by
  unfold Expr.raise
  split
  · exact .fails .divisionByZero
  · exact failsOver_apply env names .power x y

theorem failsOver_call (op : UnaryOperation) (xs : List Float) :
    FailsOver env names (env.call (.unary op) (xs.map .float)) := by
  match xs with
  | [x] =>
      show FailsOver env names (op.apply env.tangentTolerance x)
      unfold UnaryOperation.apply
      split
      · exact .ok _
      · exact .fails (.domain _)
  | [] => exact .fails (.invalidOperand _)
  | _ :: _ :: _ => exact .fails (.invalidOperand _)

end

namespace Expr

variable {env : Environment} {ids : List String}

mutual

/-- **A tree fails with an error of an evaluation only**, over a name that occurs in it. -/
theorem failsOver_eval (e : Expr) (h : e.names ⊆ ids) : FailsOver env ids (e.eval env) := by
  cases e with
  | number x => simp only [eval]; exact .ok _
  | name id =>
      simp only [eval]
      cases hid : env.lookup id with
      | none => exact .fails (.unboundName id (h List.mem_cons_self) hid)
      | some binding =>
          cases binding with
          | constant x => exact .ok _
          | function op => exact .ok _
  | negate operand =>
      simp only [eval]
      simp only [names] at h
      exact (failsOver_eval operand h).bind fun v =>
        (failsOver_asNumber env ids v).bind fun x => .ok _
  | plus operand =>
      simp only [eval]
      simp only [names] at h
      exact (failsOver_eval operand h).bind fun v =>
        (failsOver_asNumber env ids v).bind fun x => .ok _
  | chain first links =>
      simp only [eval]
      rw [names, List.append_subset] at h
      exact (failsOver_eval first h.1).bind fun v => (failsOver_asNumber env ids v).bind fun x =>
        (failsOver_evalLinks x links h.2).bind fun y => .ok _
  | power base exponent =>
      simp only [eval]
      rw [names, List.append_subset] at h
      exact (failsOver_eval base h.1).bind fun v => (failsOver_asNumber env ids v).bind fun x =>
        (failsOver_eval exponent h.2).bind fun w => (failsOver_asNumber env ids w).bind fun y =>
          (failsOver_raise env ids x y).bind fun z => .ok _
  | call callee args =>
      simp only [eval]
      rw [names, List.append_subset] at h
      exact (failsOver_eval callee h.1).bind fun v =>
        (failsOver_asFunction env ids v).bind fun op =>
          (failsOver_evalArgs args h.2).bind fun xs =>
            (failsOver_call env ids op xs).bind fun y => .ok _

theorem failsOver_evalLinks (x : Float) (links : List (ChainOperator × Expr))
    (h : namesOfLinks links ⊆ ids) : FailsOver env ids (evalLinks env x links) := by
  match links with
  | [] => simp only [evalLinks]; exact .ok x
  | (op, operand) :: links =>
      simp only [evalLinks]
      rw [namesOfLinks, List.append_subset] at h
      exact (failsOver_eval operand h.1).bind fun v => (failsOver_asNumber env ids v).bind fun y =>
        (failsOver_apply env ids op.operation x y).bind fun z => failsOver_evalLinks z links h.2

theorem failsOver_evalArgs (args : List Expr) (h : namesOfArgs args ⊆ ids) :
    FailsOver env ids (evalArgs env args) := by
  match args with
  | [] => simp only [evalArgs]; exact .ok []
  | arg :: args =>
      simp only [evalArgs]
      rw [namesOfArgs, List.append_subset] at h
      exact (failsOver_eval arg h.1).bind fun v => (failsOver_asNumber env ids v).bind fun x =>
        (failsOver_evalArgs args h.2).bind fun xs => .ok _

end

end Expr

/-! ## Malformed texts -/

/-- What can be malformed in an expression. The other faults are those of command lines. -/
inductive SyntaxFault.OfExpression : SyntaxFault → Prop where
  | scan {fault : SyntaxFault} (h : fault.OfScan) : OfExpression fault
  | unexpectedToken (kind : TokenKind) (position : Nat) :
      OfExpression (.unexpectedToken kind position)
  | unexpectedEnd : OfExpression .unexpectedEnd
  | nestedTooDeep : OfExpression .nestedTooDeep

theorem Expr.Explains.ofExpression {ts : List Token} {fault : SyntaxFault}
    (h : Expr.Explains ts fault) : fault.OfExpression := by
  cases h with
  | ended => exact .unexpectedEnd
  | token => exact .unexpectedToken _ _
  | tooDeep => exact .nestedTooDeep

theorem ofExpression_of_parse {cs : List Char} {fault : SyntaxFault}
    (h : Expr.parse cs = .error fault) : fault.OfExpression := by
  unfold Expr.parse at h
  cases hscan : Token.scan cs with
  | error fault' =>
      rw [hscan] at h
      cases h
      exact .scan ((scansAs_scanFrom 0 cs).ofScan fault hscan)
  | ok ts =>
      rw [hscan] at h
      exact (Expr.explains_of_ofTokens h).ofExpression

/-- What an evaluation of a text does once the text is parsed. -/
theorem evaluate_of_parse (env : Environment) {cs : List Char} {e : Expr}
    (h : Expr.parse (expandPow cs) = .ok e) : evaluate env cs = e.eval env >>= Value.asNumber := by
  rw [evaluate, h]
  rfl

theorem evaluate_of_malformed (env : Environment) {cs : List Char} {fault : SyntaxFault}
    (h : Expr.parse (expandPow cs) = .error fault) :
    evaluate env cs = .error (.malformed fault) := by
  rw [evaluate, h]
  rfl

theorem failsOver_of_parse (env : Environment) {cs : List Char} {e : Expr}
    (h : Expr.parse (expandPow cs) = .ok e) : FailsOver env e.names (evaluate env cs) := by
  rw [evaluate_of_parse env h]
  exact (e.failsOver_eval fun _ hid => hid).bind fun v => failsOver_asNumber env e.names v

/-- **Syntax errors win, and nothing else is reported as one.** A text is reported as malformed if
and only if it cannot be parsed, under every environment the same way, and what is wrong with it is
a matter of expressions. A tree, in turn, fails only over an operand, a divisor of zero, a domain,
or a name of its own that is not bound. -/
theorem evaluation_errors :
    (∀ env cs fault, evaluate env cs = .error (.malformed fault) ↔
      Expr.parse (expandPow cs) = .error fault) ∧
    (∀ env env' cs fault, evaluate env cs = .error (.malformed fault) ↔
      evaluate env' cs = .error (.malformed fault)) ∧
    (∀ cs fault, Expr.parse cs = .error fault → fault.OfExpression) ∧
    (∀ env e error, Expr.eval env e = .error error → error.OfEvaluation env e.names) := by
  have hmalformed (env : Environment) (cs : List Char) (fault : SyntaxFault) :
      evaluate env cs = .error (.malformed fault) ↔ Expr.parse (expandPow cs) = .error fault := by
    refine ⟨fun h => ?_, evaluate_of_malformed env⟩
    cases hparse : Expr.parse (expandPow cs) with
    | error fault' =>
        rw [evaluate_of_malformed env hparse] at h
        cases h
        rfl
    | ok e => cases failsOver_of_parse env hparse _ h
  refine ⟨hmalformed, fun env env' cs fault => ?_, fun cs fault => ofExpression_of_parse,
    fun env e => e.failsOver_eval fun _ hid => hid⟩
  rw [hmalformed env, hmalformed env']

/-- A name that is not bound does not matter in front of redundant zeros, and without them it is
the first thing that does. -/
theorem evaluation_errors_nope :
    Expr.parse (expandPow "nope pow 007".toList) = .error (.leadingZeros "007") ∧
    (SyntaxFault.leadingZeros "007").OfExpression ∧
    evaluate {} "nope pow 007".toList = .error (.malformed (.leadingZeros "007")) ∧
    Expr.eval {} (.power (.name "nope") (.number 7)) = .error (.unboundName "nope") ∧
    (Error.unboundName "nope").OfEvaluation {} ["nope"] := by
  obtain ⟨hmalformed, -, hparse, heval⟩ := evaluation_errors
  have hscan : Token.scan (expandPow "nope pow 007".toList) = .error (.leadingZeros "007") := by
    decide +kernel
  have hfault : Expr.parse (expandPow "nope pow 007".toList) = .error (.leadingZeros "007") := by
    rw [Expr.parse, hscan]
    rfl
  have hname : Expr.eval {} (.power (.name "nope") (.number 7)) = .error (.unboundName "nope") := by
    decide +kernel
  exact ⟨hfault, hparse _ _ hfault, (hmalformed _ _ _).mpr hfault, hname, heval _ _ _ hname⟩

end PocketCalc

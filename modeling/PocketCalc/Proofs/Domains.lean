import Mathlib.Data.List.Basic
import PocketCalc.Environment

/-!
# Domains and refusals

An operation says twice where it has a value: `isDefined` says it of numbers, `apply` shows it by
what it does with operands. The two agree. A list of operands has a value exactly if it has the
right count, holds no text and stands for numbers in the domain; otherwise the error names the first
of these three that fails. `Admits` and `Refuses` are the two sides of this, and together they leave
no list out.
-/

namespace PocketCalc

namespace Operation

/-- The numbers that a list of operands stands for. A text stands for none. -/
def numbers (args : List Operand) : List Float :=
  args.filterMap fun a => a.value.toOption

/-- The operands that have a value: as many as the operation takes, all of them numbers, and these
in the domain. -/
structure Admits (op : Operation) (tolerance : Float) (args : List Operand) : Prop where
  count : args.length = op.arity
  numeric : ∀ word, .text word ∉ args
  defined : op.isDefined tolerance (numbers args) = true

/-- The operands that are refused, and the error that says why: a wrong count before all, then the
first text, and a number outside the domain last. Only five operations have such numbers. -/
inductive Refuses (op : Operation) (tolerance : Float) (args : List Operand) : Error → Prop where
  | count (count : args.length ≠ op.arity) :
      Refuses op tolerance args (.invalidOperand (.argumentCount op args.length))
  | text (front : List Operand) (word : String) (back : List Operand)
      (count : args.length = op.arity) (split : args = front ++ .text word :: back)
      (first : ∀ other, .text other ∉ front) :
      Refuses op tolerance args (.invalidOperand (.text word))
  | divisionByZero (divides : op = .binary .divide) (count : args.length = op.arity)
      (numeric : ∀ word, .text word ∉ args) (outside : op.isDefined tolerance (numbers args) = false) :
      Refuses op tolerance args .divisionByZero
  | domain (f : UnaryOperation) (call : op = .unary f)
      (partly : f ∈ [.squareRoot, .naturalLog, .commonLog, .tangent])
      (count : args.length = op.arity) (numeric : ∀ word, .text word ∉ args)
      (outside : op.isDefined tolerance (numbers args) = false) :
      Refuses op tolerance args (.domain f.domainFault)

/-- An outcome that agrees with the domain: a number where the operands are admitted, and the error
of the refusal where they are not. -/
structure Agrees (op : Operation) (tolerance : Float) (args : List Operand)
    (outcome : Except Error Float) : Prop where
  succeeds : (∃ x, outcome = .ok x) ↔ op.Admits tolerance args
  fails : ∀ e, outcome = .error e ↔ op.Refuses tolerance args e

variable {op : Operation} {tolerance : Float} {args front back : List Operand} {word : String}

/-! ## Operands -/

theorem value_of_ne_text {a : Operand} (h : ∀ word, a ≠ .text word) : ∃ x, a.value = .ok x := by
  cases a with
  | int n => exact ⟨_, rfl⟩
  | float x => exact ⟨x, rfl⟩
  | text word => exact absurd rfl (h word)

theorem numbers_nil : numbers [] = [] := rfl

theorem numbers_cons {a : Operand} {x : Float} (h : a.value = .ok x) :
    numbers (a :: args) = x :: numbers args :=
  List.filterMap_cons_some (by rw [h]; rfl)

/-- The operands of an operation on one number. -/
theorem eq_singleton (hcount : args.length = 1) (hnumeric : ∀ word, .text word ∉ args) :
    ∃ a x, args = [a] ∧ a.value = .ok x ∧ numbers args = [x] := by
  obtain ⟨a, rfl⟩ := List.length_eq_one_iff.mp hcount
  obtain ⟨x, hx⟩ := value_of_ne_text (a := a) fun word h => hnumeric word (by simp [h])
  exact ⟨a, x, rfl, hx, by rw [numbers_cons hx, numbers_nil]⟩

/-- The operands of an operation on two numbers. -/
theorem eq_pair (hcount : args.length = 2) (hnumeric : ∀ word, .text word ∉ args) :
    ∃ a b x y, args = [a, b] ∧ a.value = .ok x ∧ b.value = .ok y ∧ numbers args = [x, y] := by
  obtain ⟨a, b, rfl⟩ := List.length_eq_two.mp hcount
  obtain ⟨x, hx⟩ := value_of_ne_text (a := a) fun word h => hnumeric word (by simp [h])
  obtain ⟨y, hy⟩ := value_of_ne_text (a := b) fun word h => hnumeric word (by simp [h])
  exact ⟨a, b, x, y, rfl, hx, hy, by rw [numbers_cons hx, numbers_cons hy, numbers_nil]⟩

/-- A list with a text in it has a first one. -/
theorem exists_first_text (h : .text word ∈ args) :
    ∃ front word back, args = front ++ .text word :: back ∧ ∀ other, .text other ∉ front := by
  induction args with
  | nil => cases h
  | cons a args ih =>
    by_cases ha : ∃ word, a = .text word
    · obtain ⟨word, rfl⟩ := ha
      exact ⟨[], word, args, rfl, fun _ => List.not_mem_nil⟩
    · have hrest : .text word ∈ args := by
        rcases List.mem_cons.mp h with heq | hmem
        · exact absurd ⟨word, heq.symm⟩ ha
        · exact hmem
      obtain ⟨front, first, back, rfl, hfirst⟩ := ih hrest
      refine ⟨a :: front, first, back, rfl, fun other hother => ?_⟩
      rcases List.mem_cons.mp hother with heq | hmem
      · exact ha ⟨other, heq.symm⟩
      · exact hfirst other hmem

/-! ## What applying does -/

/-- The error of an operation outside its domain. -/
def fault : Operation → Error
  | .unary f => .domain f.domainFault
  | .binary _ => .divisionByZero

theorem apply_of_count (h : args.length ≠ op.arity) :
    op.apply tolerance args = .error (.invalidOperand (.argumentCount op args.length)) := by
  unfold apply
  split
  · exact absurd rfl h
  · exact absurd rfl h
  · rfl

/-- Operands are looked at from the left, so the first text is the one that is refused. -/
theorem apply_of_text (hcount : args.length = op.arity)
    (hsplit : args = front ++ .text word :: back) (hfirst : ∀ other, .text other ∉ front) :
    op.apply tolerance args = .error (.invalidOperand (.text word)) := by
  subst hsplit
  cases front with
  | nil =>
    cases op with
    | unary f =>
      obtain rfl : back = [] := by simpa [arity] using hcount
      rfl
    | binary f =>
      obtain ⟨b, rfl⟩ : ∃ b, back = [b] := List.length_eq_one_iff.mp (by simpa [arity] using hcount)
      rfl
  | cons a front =>
    obtain ⟨x, hx⟩ := value_of_ne_text (a := a) fun other h => hfirst other (by simp [h])
    cases op with
    | unary f => simp [arity] at hcount
    | binary f =>
      have hlength : front.length + (back.length + 1) = 1 := by simpa [arity] using hcount
      obtain rfl : front = [] := List.length_eq_zero_iff.mp (by omega)
      obtain rfl : back = [] := List.length_eq_zero_iff.mp (by omega)
      show (a.value >>= fun _ => _) = _
      rw [hx]
      rfl

/-- Numbers in the domain have a value, and others have the operation's own error. -/
theorem apply_of_numeric (hcount : args.length = op.arity) (hnumeric : ∀ word, .text word ∉ args) :
    (op.isDefined tolerance (numbers args) = true → ∃ x, op.apply tolerance args = .ok x) ∧
      (op.isDefined tolerance (numbers args) = false →
        op.apply tolerance args = .error op.fault) := by
  cases op with
  | unary f =>
    obtain ⟨a, x, rfl, hx, hnumbers⟩ := eq_singleton hcount hnumeric
    have happly : apply (.unary f) tolerance [a] = f.apply tolerance x := by
      show (a.value >>= fun x => f.apply tolerance x) = _
      rw [hx]
      rfl
    rw [happly, hnumbers, UnaryOperation.apply]
    show (f.isDefined tolerance x = true → _) ∧ (f.isDefined tolerance x = false → _)
    exact ⟨fun h => ⟨_, if_pos h⟩, fun h => if_neg (by simp [h])⟩
  | binary f =>
    obtain ⟨a, b, x, y, rfl, hx, hy, hnumbers⟩ := eq_pair hcount hnumeric
    have happly : apply (.binary f) tolerance [a, b] = f.apply x y := by
      show (a.value >>= fun x => b.value >>= fun y => f.apply x y) = _
      rw [hx, hy]
      rfl
    rw [happly, hnumbers, BinaryOperation.apply]
    show (f.isDefined x y = true → _) ∧ (f.isDefined x y = false → _)
    exact ⟨fun h => ⟨_, if_pos h⟩, fun h => if_neg (by simp [h])⟩

/-! ## The two sides -/

theorem Admits.apply_eq_ok (h : op.Admits tolerance args) :
    ∃ x, op.apply tolerance args = .ok x :=
  (apply_of_numeric h.count h.numeric).1 h.defined

theorem Refuses.apply_eq_error {e : Error} (h : op.Refuses tolerance args e) :
    op.apply tolerance args = .error e := by
  cases h with
  | count hcount => exact apply_of_count hcount
  | text front word back hcount hsplit hfirst => exact apply_of_text hcount hsplit hfirst
  | divisionByZero hop hcount hnumeric houtside =>
    subst hop
    exact (apply_of_numeric hcount hnumeric).2 houtside
  | domain f hop _ hcount hnumeric houtside =>
    subst hop
    exact (apply_of_numeric hcount hnumeric).2 houtside

/-- Five operations have numbers outside their domain. -/
theorem refuses_of_isDefined_eq_false (hcount : args.length = op.arity)
    (hnumeric : ∀ word, .text word ∉ args)
    (houtside : op.isDefined tolerance (numbers args) = false) :
    op.Refuses tolerance args op.fault := by
  cases op with
  | unary f =>
    obtain ⟨a, x, rfl, -, hnumbers⟩ := eq_singleton hcount hnumeric
    have hpartly : f ∈ [.squareRoot, .naturalLog, .commonLog, .tangent] := by
      rw [hnumbers] at houtside
      cases f with
      | sine => cases houtside
      | cosine => cases houtside
      | squareRoot | naturalLog | commonLog | tangent => simp
    exact .domain f rfl hpartly hcount hnumeric houtside
  | binary f =>
    obtain ⟨a, b, x, y, rfl, -, -, hnumbers⟩ := eq_pair hcount hnumeric
    have hdivide : f = .divide := by
      rw [hnumbers] at houtside
      cases f with
      | divide => rfl
      | add | subtract | multiply | power => cases houtside
    exact .divisionByZero (by rw [hdivide]) hcount hnumeric houtside

/-- No list of operands is left out. -/
theorem admits_or_refuses (op : Operation) (tolerance : Float) (args : List Operand) :
    op.Admits tolerance args ∨ ∃ e, op.Refuses tolerance args e := by
  by_cases hcount : args.length = op.arity
  · by_cases htext : ∃ word, .text word ∈ args
    · obtain ⟨word, hword⟩ := htext
      obtain ⟨front, first, back, hsplit, hfirst⟩ := exists_first_text hword
      exact .inr ⟨_, .text front first back hcount hsplit hfirst⟩
    · have hnumeric : ∀ word, .text word ∉ args := fun word h => htext ⟨word, h⟩
      cases hdefined : op.isDefined tolerance (numbers args) with
      | true => exact .inl ⟨hcount, hnumeric, hdefined⟩
      | false => exact .inr ⟨_, refuses_of_isDefined_eq_false hcount hnumeric hdefined⟩
  · exact .inr ⟨_, .count hcount⟩

theorem agrees_apply (op : Operation) (tolerance : Float) (args : List Operand) :
    op.Agrees tolerance args (op.apply tolerance args) where
  succeeds := by
    refine ⟨fun ⟨x, hx⟩ => ?_, Admits.apply_eq_ok⟩
    rcases admits_or_refuses op tolerance args with hadmits | ⟨e, hrefuses⟩
    · exact hadmits
    · rw [hrefuses.apply_eq_error] at hx
      cases hx
  fails e := by
    refine ⟨fun he => ?_, Refuses.apply_eq_error⟩
    rcases admits_or_refuses op tolerance args with hadmits | ⟨e', hrefuses⟩
    · obtain ⟨x, hx⟩ := hadmits.apply_eq_ok
      rw [hx] at he
      cases he
    · rw [hrefuses.apply_eq_error] at he
      cases he
      exact hrefuses

/-- **Applying agrees with the domain.** Under every tolerance, an operation has a value for exactly
the operands that its domain admits, and what is refused is a wrong count, else the first text, else
a zero divisor or a number outside the domain of a root, a logarithm or the tangent. An environment
applies it under its own tolerance, and the operation by itself under the default one. -/
theorem domain_agrees (op : Operation) (args : List Operand) :
    (∀ tolerance, op.Agrees tolerance args (op.apply tolerance args)) ∧
      (∀ env : Environment, op.Agrees env.tangentTolerance args (env.call op args)) ∧
      op.Agrees defaultTangentTolerance args (op.apply defaultTangentTolerance args) :=
  ⟨fun tolerance => agrees_apply op tolerance args,
    fun env => agrees_apply op env.tangentTolerance args,
    agrees_apply op defaultTangentTolerance args⟩

end Operation

end PocketCalc

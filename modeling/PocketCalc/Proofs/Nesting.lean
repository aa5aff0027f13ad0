import PocketCalc.Proofs.Reading
import PocketCalc.Proofs.Scanning

/-!
# How deep a tree can nest

The evaluator goes down a tree by recursion, so what bounds it is how many nestings a path from the
root to a leaf crosses. The levels that the reader counts are not these: behind a closing
parenthesis it is back at the level of the opening one, and the trailers that follow are counted
from there, while in the tree each of them is one more call around all that stood in front.

So the limit holds up to the calls of something that is neither a name nor a number. A call at one
level can stack as many trailers as there is room for, on top of what the levels below have stacked
already. The bound is the sum of all these rooms, and it is attained.
-/

namespace PocketCalc

namespace Expr

/-- One for a callee that is neither a name nor a number. -/
def compound : Expr → Nat
  | number _ | name _ => 0
  | _ => 1

/-- `e.Crosses n m`: a path from the root of `e` to a leaf crosses `n` nestings. A sign, a call and
the step from a power into its exponent are nestings; `m` of them are calls of something that is
neither a name nor a number. -/
inductive Crosses : Expr → Nat → Nat → Prop
  | number (x : Float) : Crosses (.number x) 0 0
  | name (id : String) : Crosses (.name id) 0 0
  | negate {e : Expr} {n m : Nat} (h : e.Crosses n m) : Crosses (.negate e) (n + 1) m
  | plus {e : Expr} {n m : Nat} (h : e.Crosses n m) : Crosses (.plus e) (n + 1) m
  | first {e : Expr} {links : List (ChainOperator × Expr)} {n m : Nat} (h : e.Crosses n m) :
      Crosses (.chain e links) n m
  | link {e : Expr} {links : List (ChainOperator × Expr)} {l : ChainOperator × Expr} {n m : Nat}
      (hl : l ∈ links) (h : l.2.Crosses n m) : Crosses (.chain e links) n m
  | base {b e : Expr} {n m : Nat} (h : b.Crosses n m) : Crosses (.power b e) n m
  | exponent {b e : Expr} {n m : Nat} (h : e.Crosses n m) : Crosses (.power b e) (n + 1) m
  | callee {c : Expr} {args : List Expr} {n m : Nat} (h : c.Crosses n m) :
      Crosses (.call c args) (n + 1) (m + c.compound)
  | argument {c a : Expr} {args : List Expr} {n m : Nat} (ha : a ∈ args) (h : a.Crosses n m) :
      Crosses (.call c args) (n + 1) (m + c.compound)

end Expr

/-- What can be stacked with room for `room` levels: as many nestings as there is room for, on top
of what the level below has. -/
def stackedNesting : Nat → Nat
  | 0 => 0
  | room + 1 => stackedNesting room + (room + 1)

theorem stackedNesting_eq (room : Nat) : stackedNesting room = room * (room + 1) / 2 := by
  have double : stackedNesting room * 2 = room * (room + 1) := by
    induction room with
    | zero => rfl
    | succ room ih => rw [stackedNesting, Nat.add_mul, ih]; grind
  rw [← double, Nat.mul_div_cancel _ (by decide)]

theorem stackedNesting_mono {m n : Nat} (h : m ≤ n) : stackedNesting m ≤ stackedNesting n := by
  induction h with
  | refl => exact Nat.le_refl _
  | step _ ih => exact Nat.le_trans ih (Nat.le_add_right _ _)

/-! ## Each kind of node -/

namespace Expr

/-- Each path of `e` crosses at most what can be stacked in `room` levels, and at most `room`
nestings other than calls of something compound. -/
def NestsWithin (e : Expr) (room : Nat) : Prop :=
  ∀ n m, e.Crosses n m → n ≤ stackedNesting room ∧ n ≤ room + m

variable {b c e : Expr} {args : List Expr} {room : Nat}

theorem NestsWithin.mono {room' : Nat} (h : e.NestsWithin room) (hr : room ≤ room') :
    e.NestsWithin room' := by
  intro n m hn
  obtain ⟨hstack, hroom⟩ := h n m hn
  have := stackedNesting_mono hr
  omega

theorem nestsWithin_number (x : Float) : (Expr.number x).NestsWithin room := by
  intro n m hn
  cases hn
  exact ⟨Nat.zero_le _, Nat.zero_le _⟩

theorem nestsWithin_name (id : String) : (Expr.name id).NestsWithin room := by
  intro n m hn
  cases hn
  exact ⟨Nat.zero_le _, Nat.zero_le _⟩

/-- A nesting more takes a level more. -/
theorem NestsWithin.succ (h : e.NestsWithin room) {n m : Nat} (hn : e.Crosses n m) :
    n + 1 ≤ stackedNesting (room + 1) ∧ n + 1 ≤ room + 1 + m := by
  obtain ⟨hstack, hroom⟩ := h n m hn
  rw [stackedNesting]
  omega

theorem nestsWithin_negate (h : e.NestsWithin room) : (Expr.negate e).NestsWithin (room + 1) := by
  intro n m hn
  cases hn with
  | negate hn => exact h.succ hn

theorem nestsWithin_plus (h : e.NestsWithin room) : (Expr.plus e).NestsWithin (room + 1) := by
  intro n m hn
  cases hn with
  | plus hn => exact h.succ hn

theorem nestsWithin_ofChain {links : List (ChainOperator × Expr)} (h : e.NestsWithin room)
    (hl : ∀ l ∈ links, l.2.NestsWithin room) : (ofChain e links).NestsWithin room := by
  cases links with
  | nil => exact h
  | cons l links =>
      intro n m hn
      cases hn with
      | first hn => exact h n m hn
      | link hm hn => exact hl _ hm n m hn

theorem nestsWithin_power (hb : b.NestsWithin (room + 1)) (he : e.NestsWithin room) :
    (Expr.power b e).NestsWithin (room + 1) := by
  intro n m hn
  cases hn with
  | base hn => exact hb n m hn
  | exponent hn => exact he.succ hn

/-! ## Calls -/

/-- Each path of `e` crosses at most `count` nestings on top of what can be stacked in `room`
levels, of which at most one is no call of something compound. -/
def StacksOn (e : Expr) (room count : Nat) : Prop :=
  ∀ n m, e.Crosses n m → n ≤ stackedNesting room + count ∧ n ≤ room + 1 + m

/-- The call that is closest to the callee. -/
theorem stacksOn_call (hc : c.NestsWithin room) (ha : ∀ a ∈ args, a.NestsWithin room) :
    (Expr.call c args).StacksOn room 1 := by
  intro n m hn
  cases hn with
  | callee hn =>
      obtain ⟨hstack, hroom⟩ := hc _ _ hn
      omega
  | argument hm hn =>
      obtain ⟨hstack, hroom⟩ := ha _ hm _ _ hn
      omega

/-- The calls around it are calls of something compound. -/
theorem StacksOn.foldl {argLists : List (List Expr)} {count : Nat}
    (hc : (Expr.call c args).StacksOn room count)
    (ha : ∀ args ∈ argLists, ∀ a ∈ args, a.NestsWithin room) :
    (argLists.foldl Expr.call (.call c args)).StacksOn room (count + argLists.length) := by
  induction argLists generalizing c args count with
  | nil => exact hc
  | cons more argLists ih =>
      have hcompound : (Expr.call c args).compound = 1 := rfl
      have hcall : (Expr.call (.call c args) more).StacksOn room (count + 1) := by
        intro n m hn
        cases hn with
        | callee hn =>
            obtain ⟨hstack, hroom⟩ := hc _ _ hn
            rw [hcompound]
            omega
        | argument hm hn =>
            obtain ⟨hstack, hroom⟩ := ha more List.mem_cons_self _ hm _ _ hn
            omega
      have hrest := ih hcall fun args hargs => ha args (List.mem_cons_of_mem _ hargs)
      rwa [Nat.add_assoc, Nat.add_comm 1] at hrest

/-- Calls nest within a level more than the callee and the arguments do, if the level has room for
all of them. -/
theorem nestsWithin_calls {argLists : List (List Expr)} (hc : c.NestsWithin room)
    (ha : ∀ args ∈ argLists, ∀ a ∈ args, a.NestsWithin room) (hl : argLists.length ≤ room + 1) :
    (argLists.foldl Expr.call c).NestsWithin (room + 1) := by
  cases argLists with
  | nil => exact hc.mono (Nat.le_succ room)
  | cons args argLists =>
      have hcall := stacksOn_call hc (ha args List.mem_cons_self)
      have hcalls := hcall.foldl fun args hargs => ha args (List.mem_cons_of_mem _ hargs)
      intro n m hn
      obtain ⟨hstack, hroom⟩ := hcalls n m hn
      rw [List.length_cons] at hl
      rw [stackedNesting]
      omega

end Expr

/-! ## Each kind of phrase -/

namespace Grammar

/-- What a phrase of a given depth adds to a tree nests within that depth. The trailers of a call
lie one below the other, and their arguments lie where they do; a primary is a level above what
its parentheses enclose. -/
def Nests : (c : Nonterminal) → c.Meaning → Nat → Prop
  | .links _, links, depth => ∀ l ∈ links, l.2.NestsWithin depth
  | .arguments, args, depth => ∀ a ∈ args, a.NestsWithin depth
  | .moreArguments, args, depth => ∀ a ∈ args, a.NestsWithin depth
  | .trailers, argLists, depth =>
      argLists.length ≤ depth ∧ ∀ args ∈ argLists, ∀ a ∈ args, a.NestsWithin (depth - 1)
  | .chain _, e, depth => e.NestsWithin depth
  | .operand _, e, depth => e.NestsWithin depth
  | .signed, e, depth => e.NestsWithin depth
  | .power, e, depth => e.NestsWithin depth
  | .call, e, depth => e.NestsWithin depth
  | .primary, e, depth => e.NestsWithin (depth - 1)

open Grammar.Derivation

theorem nests_raised {base : Derivation .call} {exponent : Derivation .signed}
    (hBase : Nests .call base.tree base.depth)
    (hExponent : Nests .signed exponent.tree exponent.depth) :
    Nests .power (raised base exponent).tree (raised base exponent).depth := by
  -- the exponent lies one level down, so there is room for at least one
  obtain ⟨room, hroom⟩ : ∃ room, max base.depth (exponent.depth + 1) = room + 1 :=
    ⟨max base.depth (exponent.depth + 1) - 1, by omega⟩
  have hb : base.depth ≤ room + 1 := by omega
  have he : exponent.depth ≤ room := by omega
  show (Expr.power base.tree exponent.tree).NestsWithin (max base.depth (exponent.depth + 1))
  rw [hroom]
  exact Expr.nestsWithin_power (hBase.mono hb) (hExponent.mono he)

theorem nests_trailer {args : Derivation .arguments} {trailers : Derivation .trailers}
    (hArgs : Nests .arguments args.tree args.depth)
    (hTrailers : Nests .trailers trailers.tree trailers.depth) :
    Nests .trailers (trailer args trailers).tree (trailer args trailers).depth := by
  have ha : args.depth ≤ max args.depth trailers.depth := Nat.le_max_left _ _
  have ht : trailers.depth ≤ max args.depth trailers.depth := Nat.le_max_right _ _
  obtain ⟨hlength, hrest⟩ := hTrailers
  refine ⟨Nat.succ_le_succ (Nat.le_trans hlength ht), List.forall_mem_cons.mpr ⟨?_, ?_⟩⟩
  · intro a hm
    exact (hArgs a hm).mono ha
  · intro args hargs a hm
    exact (hrest args hargs a hm).mono (Nat.le_trans (Nat.sub_le _ 1) ht)

theorem nests_called {callee : Derivation .primary} {trailers : Derivation .trailers}
    (hCallee : Nests .primary callee.tree callee.depth)
    (hTrailers : Nests .trailers trailers.tree trailers.depth) :
    Nests .call (called callee trailers).tree (called callee trailers).depth := by
  obtain ⟨hlength, hargs⟩ := hTrailers
  show (List.foldl Expr.call callee.tree trailers.tree).NestsWithin
    (max callee.depth trailers.depth)
  cases hroom : max callee.depth trailers.depth with
  | zero =>
      -- there is no room for a trailer
      have hnil : trailers.tree = ([] : List (List Expr)) := List.length_eq_zero_iff.mp (by omega)
      rw [hnil]
      exact hCallee.mono (by omega)
  | succ room =>
      refine Expr.nestsWithin_calls (hCallee.mono (by omega)) ?_ (by omega)
      intro args hm a ha
      exact (hargs args hm a ha).mono (by omega)

/-- **What a phrase adds to a tree nests within its depth.** -/
theorem nests_tree {c : Nonterminal} (d : Derivation c) : Nests c d.tree d.depth := by
  -- a list of trees nests within the larger of two depths if its head and its tail do
  have hcons {e : Expr} {es : List Expr} {i j : Nat} (he : e.NestsWithin i)
      (hes : ∀ a ∈ es, a.NestsWithin j) : ∀ a ∈ e :: es, a.NestsWithin (max i j) :=
    List.forall_mem_cons.mpr ⟨he.mono (Nat.le_max_left i j),
      fun a ha => (hes a ha).mono (Nat.le_max_right i j)⟩
  induction d with
  | chain first links hFirst hLinks =>
      exact Expr.nestsWithin_ofChain (hFirst.mono (Nat.le_max_left _ _))
        fun l hm => (hLinks l hm).mono (Nat.le_max_right _ _)
  | noLinks => exact List.forall_mem_nil _
  | link op hs operand links hOperand hLinks =>
      exact List.forall_mem_cons.mpr ⟨hOperand.mono (Nat.le_max_left _ _),
        fun l hm => (hLinks l hm).mono (Nat.le_max_right _ _)⟩
  | term _ ih => exact ih
  | factor _ ih => exact ih
  | minus _ ih => exact Expr.nestsWithin_negate ih
  | plus _ ih => exact Expr.nestsWithin_plus ih
  | unsigned _ ih => exact ih
  | bare _ ih => exact ih
  | raised _ _ hBase hExponent => exact nests_raised hBase hExponent
  | called _ _ hCallee hTrailers => exact nests_called hCallee hTrailers
  | noTrailers => exact ⟨Nat.zero_le _, List.forall_mem_nil _⟩
  | trailer _ _ hArgs hTrailers => exact nests_trailer hArgs hTrailers
  | noArguments => exact List.forall_mem_nil _
  | arguments first more hFirst hMore => exact hcons hFirst hMore
  | lastArgument => exact List.forall_mem_nil _
  | trailingComma => exact List.forall_mem_nil _
  | argument next more hNext hMore => exact hcons hNext hMore
  | number x => exact Expr.nestsWithin_number x
  | name id => exact Expr.nestsWithin_name id
  | parenthesized _ ih => exact ih

/-- What is parsed nests within the limit of levels. -/
theorem nestsWithin_of_parse {cs : List Char} {e : Expr} (h : Expr.parse cs = .ok e) :
    e.NestsWithin maxNesting := by
  obtain ⟨ts, -, hread⟩ := bind_eq_ok h
  obtain ⟨d, -, hd, rfl⟩ := derivation_of_ofTokens hread
  exact (nests_tree d).mono hd

/-! ## A tower of calls

One in parentheses, called once; that in parentheses, called twice; and so on. No level is left
without as many trailers as there is room for. -/

/-- Trailers without arguments. -/
def emptyTrailers : Nat → Derivation .trailers
  | 0 => .noTrailers
  | n + 1 => .trailer .noArguments (emptyTrailers n)

/-- As many empty argument lists as written. -/
def emptyTrailersText : Nat → List Char
  | 0 => []
  | n + 1 => '(' :: ')' :: emptyTrailersText n

/-- A call on its own is an expression. -/
def expressionOfCall (d : Derivation .call) : Derivation .expression :=
  .chain (.term (.chain (.factor (.unsigned (.bare d))) .noLinks)) .noLinks

/-- The numeral that a tower stands on. -/
def towerBase : Number.Numeral := ⟨['1'], none, none⟩

theorem written_towerBase : towerBase.Written :=
  Number.Numeral.written_of_digits ⟨List.all_eq_true.mp rfl, by decide⟩ rfl

/-- A tower of `n` parentheses. -/
def tower : Nat → Derivation .call
  | 0 => .called (.number (towerBase.decimal.toFloat false)) .noTrailers
  | n + 1 => .called (.parenthesized (expressionOfCall (tower n))) (emptyTrailers (n + 1))

/-- A tower as written. -/
def towerText : Nat → List Char
  | 0 => towerBase.text
  | n + 1 => '(' :: (towerText n ++ ')' :: emptyTrailersText (n + 1))

theorem depth_emptyTrailers (n : Nat) : (emptyTrailers n).depth = n := by
  induction n with
  | zero => rfl
  | succ n ih => rw [emptyTrailers, depth, depth, ih, Nat.zero_max]

theorem depth_tower (n : Nat) : (tower n).depth = n := by
  induction n with
  | zero => rfl
  | succ n ih =>
      have hinner : (expressionOfCall (tower n)).depth = n := by
        simp [expressionOfCall, depth, ih]
      rw [tower, depth, depth, depth_emptyTrailers, hinner, Nat.max_self]

/-- Each trailer adds a call to every path. -/
theorem crosses_emptyTrailers {callee : Expr} {k m : Nat} (h : callee.Crosses k m) (n : Nat) :
    ∃ m', ((emptyTrailers n).tree.foldl .call callee).Crosses (k + n) m' := by
  induction n generalizing callee k m with
  | zero => exact ⟨m, h⟩
  | succ n ih =>
      have hcall : (Expr.call callee []).Crosses (k + 1) (m + callee.compound) := .callee h
      have hrest := ih hcall
      rwa [Nat.add_right_comm, Nat.add_assoc] at hrest

theorem crosses_tower (n : Nat) : ∃ m, (tower n).tree.Crosses (stackedNesting n) m := by
  induction n with
  | zero => exact ⟨0, .number _⟩
  | succ n ih =>
      obtain ⟨m, hm⟩ := ih
      exact crosses_emptyTrailers hm (n + 1)

theorem scansTo_emptyTrailers (n : Nat) {rest : List Char} {ks : List TokenKind}
    (h : ScansTo rest ks) :
    ScansTo (emptyTrailersText n ++ rest) ((emptyTrailers n).tokens ++ ks) := by
  induction n with
  | zero => exact h
  | succ n ih =>
      have hclose : ScansTo (')' :: (emptyTrailersText n ++ rest))
          (.closeParen :: ((emptyTrailers n).tokens ++ ks)) :=
        scansTo_symbol (l := ⟨.closeParen, [')'], _⟩) (by decide) rfl ih
      exact scansTo_symbol (c := '(') (l := ⟨.openParen, ['('], _⟩) (by decide) rfl hclose

theorem scansTo_tower (n : Nat) {rest : List Char} {ks : List TokenKind}
    (hr : Number.EndsNumeral Char.isDigit rest) (h : ScansTo rest ks) :
    ScansTo (towerText n ++ rest) ((tower n).tokens ++ ks) := by
  induction n generalizing rest ks with
  | zero => exact scansTo_number written_towerBase rfl hr h
  | succ n ih =>
      have hclose : ScansTo (')' :: (emptyTrailersText (n + 1) ++ rest))
          (.closeParen :: ((emptyTrailers (n + 1)).tokens ++ ks)) :=
        scansTo_symbol (l := ⟨.closeParen, [')'], _⟩) (by decide) rfl
          (scansTo_emptyTrailers (n + 1) h)
      have hends : Number.EndsNumeral Char.isDigit
          (')' :: (emptyTrailersText (n + 1) ++ rest)) := by
        intro c hc
        obtain rfl : ')' = c := Option.some.inj hc
        decide
      have hinner := ih hends hclose
      have hopen := scansTo_symbol (c := '(') (l := ⟨.openParen, ['('], _⟩) (by decide) rfl hinner
      simpa [towerText, tower, tokens, expressionOfCall] using hopen

/-- A tower of as many parentheses as there are levels is parsed. -/
theorem parse_tower {n : Nat} (h : n ≤ maxNesting) :
    ∃ e m, Expr.parse (towerText n) = .ok e ∧ e.Crosses (stackedNesting n) m := by
  have hscan := scansTo_tower n Number.endsNumeral_nil scansTo_nil
  rw [List.append_nil, List.append_nil] at hscan
  obtain ⟨ts, hts, hkinds⟩ := hscan 0
  have htokens : (expressionOfCall (tower n)).tokens = ts.map (·.kind) := by
    rw [hkinds]
    simp [expressionOfCall, tokens]
  have hdepth : (expressionOfCall (tower n)).depth ≤ maxNesting := by
    simpa [expressionOfCall, depth, depth_tower] using h
  obtain ⟨m, hm⟩ := crosses_tower n
  refine ⟨(expressionOfCall (tower n)).tree, m, ?_, hm⟩
  rw [Expr.parse, Token.scan, hts]
  exact ofTokens_of_derivation _ htokens hdepth

/-- **The limit holds up to the calls of something compound**, of which a path crosses none if all
its callees are names and numbers. Whatever is called, the sum of all levels is a bound. -/
theorem crosses_le_of_parse {cs : List Char} {e : Expr} {n m : Nat} (h : Expr.parse cs = .ok e)
    (hn : e.Crosses n m) : n ≤ maxNesting + m ∧ n ≤ maxNesting * (maxNesting + 1) / 2 := by
  obtain ⟨hstack, hroom⟩ := nestsWithin_of_parse h n m hn
  rw [stackedNesting_eq] at hstack
  exact ⟨hroom, hstack⟩

/-- A path that crosses 210 nestings calls at least ten times what is neither a name nor a
number. -/
theorem crosses_le_of_tower :
    ∃ e m, Expr.parse (towerText 20) = .ok e ∧ e.Crosses 210 m ∧ 10 ≤ m := by
  obtain ⟨e, m, he, hm⟩ := parse_tower (n := 20) (by decide)
  have hcrosses : e.Crosses 210 m := hm
  obtain ⟨hle, -⟩ := crosses_le_of_parse he hcrosses
  rw [maxNesting] at hle
  exact ⟨e, m, he, hcrosses, by omega⟩

/-- The sum of all levels is attained. -/
theorem exists_crosses_of_parse :
    ∃ cs e m, Expr.parse cs = .ok e ∧ e.Crosses (maxNesting * (maxNesting + 1) / 2) m := by
  obtain ⟨e, m, he, hm⟩ := parse_tower (Nat.le_refl maxNesting)
  rw [stackedNesting_eq] at hm
  exact ⟨_, e, m, he, hm⟩

/-- Twenty parentheses are enough for a tree that nests more than two hundred levels. -/
theorem exceeds_maxNesting_of_tower :
    ∃ e m, Expr.parse (towerText 20) = .ok e ∧ e.Crosses 210 m ∧ maxNesting < 210 := by
  obtain ⟨e, m, he, hm⟩ := parse_tower (n := 20) (by decide)
  exact ⟨e, m, he, hm, by decide⟩

end Grammar

end PocketCalc

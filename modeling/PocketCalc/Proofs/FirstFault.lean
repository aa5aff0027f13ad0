import Mathlib.Data.List.Basic
import PocketCalc.Proofs.Reading

/-!
# Where a syntax error points

A complaint about a token says that the tokens in front of it are in order, and that it is the first
one that no expression can go on with. `ReadsAt` says this of one reader in front of some tokens,
together with what a reader that calls it has to know: that it reads the same in front of any rest
that starts with the same token. It is kept when readers are put together, so that each reader needs
no more than its own shape, and all levels follow by induction on the room.

No tree takes part in this. A phrase is only as long as it is spelled, and what matters of it is
that one can be finished within the room that is left.
-/

namespace PocketCalc

/-! ## What a failure says -/

/-- Reading fails on these tokens, whatever follows them. -/
def Doomed {α : Type} (read : List Token → Except SyntaxFault α) (seen : List Token) : Prop :=
  ∀ more, ∃ fault, read (seen ++ more) = .error fault

/-- Some phrase starts with these tokens. -/
def Viable (phrase : List TokenKind → Prop) (seen : List Token) : Prop :=
  ∃ ks, phrase (seen.map (·.kind) ++ ks)

/-- The failure is about the tokens from a place on up to which a phrase is under way. If there is a
token at that place then no list that goes on with it can be read. -/
def Blames {α : Type} (phrase : List TokenKind → Prop) (read : List Token → Except SyntaxFault α)
    (ts : List Token) (fault : SyntaxFault) : Prop :=
  ∃ seen rest, ts = seen ++ rest ∧ Viable phrase seen ∧
    (∀ t ∈ rest.head?, Doomed read (seen ++ [t])) ∧
    (fault = Expr.unexpected rest ∨ fault = .nestedTooDeep ∧ rest ≠ [])

/-- A reader in front of some tokens finds a phrase, and would find the same in front of any rest
with the same first token, or it fails with good reason. -/
structure ReadsAt {α : Type} (phrase : List TokenKind → Prop)
    (read : List Token → Except SyntaxFault (α × List Token)) (ts : List Token) : Prop where
  repeats : ∀ {x : α} {rest : List Token}, read ts = .ok (x, rest) →
    ∃ front, ts = front ++ rest ∧ phrase (front.map (·.kind)) ∧
      ∀ rest', rest'.head? = rest.head? → read (front ++ rest') = .ok (x, rest')
  blames : ∀ {fault : SyntaxFault}, read ts = .error fault → Blames phrase read ts fault

section

variable {α β : Type} {phrase phrase₁ : List TokenKind → Prop} {t : Token}
  {ts mid : List Token} {fault : SyntaxFault}
  {read : List Token → Except SyntaxFault (β × List Token)}
  {first : List Token → Except SyntaxFault (α × List Token)}

theorem head?_append_congr {ts ts' : List Token} (front : List Token) (h : ts'.head? = ts.head?) :
    (front ++ ts').head? = (front ++ ts).head? := by
  rw [List.head?_append, List.head?_append, h]

theorem eq_cons_of_head? {ts' : List Token} (h : ts'.head? = (t :: ts).head?) :
    ∃ rest, ts' = t :: rest := by
  cases ts' with
  | nil => cases h
  | cons t' rest => cases h; exact ⟨rest, rfl⟩

/-- A failure behind a front that was read is one of the whole. -/
theorem Blames.behind (h : Blames phrase₁ first mid fault) (front : List Token)
    (hfail : ∀ mid' fault, mid'.head? = mid.head? → first mid' = .error fault →
      ∃ fault', read (front ++ mid') = .error fault')
    (hphrase : ∀ ks, phrase₁ ks → ∃ ks', phrase (front.map (·.kind) ++ (ks ++ ks'))) :
    Blames phrase read (front ++ mid) fault := by
  obtain ⟨seen, rest, rfl, ⟨ks, hks⟩, hdoomed, hfault⟩ := h
  obtain ⟨ks', hks'⟩ := hphrase _ hks
  refine ⟨front ++ seen, rest, (List.append_assoc _ _ _).symm, ⟨ks ++ ks', ?_⟩, ?_, hfault⟩
  · simpa only [List.map_append, List.append_assoc] using hks'
  · intro t ht more
    obtain ⟨fault', hf⟩ := hdoomed t ht more
    have hhead : (seen ++ [t] ++ more).head? = (seen ++ rest).head? := by
      rw [List.append_assoc]
      exact head?_append_congr seen (Option.mem_def.mp ht).symm
    rw [List.append_assoc, List.append_assoc, ← List.append_assoc seen]
    exact hfail _ fault' hhead hf

namespace ReadsAt

/-! ## Readers put together -/

/-- Nothing is read. -/
theorem done (x : β) (hphrase : phrase [])
    (hread : ∀ ts', ts'.head? = ts.head? → read ts' = .ok (x, ts')) : ReadsAt phrase read ts where
  repeats h := by
    rw [hread ts rfl] at h
    cases h
    exact ⟨[], rfl, hphrase, hread⟩
  blames h := by
    rw [hread ts rfl] at h
    cases h

/-- Nothing that starts like this is read. -/
theorem refuse (hphrase : ∃ ks, phrase ks)
    (hread : ∀ ts', ts'.head? = ts.head? → read ts' = .error (Expr.unexpected ts')) :
    ReadsAt phrase read ts where
  repeats h := by
    rw [hread ts rfl] at h
    cases h
  blames h := by
    rw [hread ts rfl] at h
    cases h
    refine ⟨[], ts, rfl, hphrase, fun t ht more => ⟨_, hread _ ?_⟩, .inl rfl⟩
    exact (Option.mem_def.mp ht).symm

/-- There is no room for what the token starts. -/
theorem tooDeep (hphrase : ∃ ks, phrase ks)
    (hread : ∀ ts', read (t :: ts') = .error .nestedTooDeep) : ReadsAt phrase read (t :: ts) where
  repeats h := by
    rw [hread ts] at h
    cases h
  blames h := by
    rw [hread ts] at h
    cases h
    refine ⟨[], t :: ts, rfl, hphrase, fun t' ht more => ?_, .inr ⟨rfl, List.cons_ne_nil _ _⟩⟩
    cases ht
    exact ⟨_, hread more⟩

/-- A token is taken, and what follows it is read. -/
theorem cons {next : List Token → Except SyntaxFault (β × List Token)}
    (hnext : ReadsAt (fun ks => phrase (t.kind :: ks)) next ts)
    (hread : ∀ ts', read (t :: ts') = next ts') : ReadsAt phrase read (t :: ts) where
  repeats h := by
    rw [hread ts] at h
    obtain ⟨front, rfl, hphrase, hsame⟩ := hnext.repeats h
    refine ⟨t :: front, rfl, hphrase, fun rest' hhead => ?_⟩
    rw [List.cons_append, hread]
    exact hsame rest' hhead
  blames h := by
    rw [hread ts] at h
    refine (hnext.blames h).behind [t] (fun mid' fault _ hf => ⟨fault, ?_⟩) fun ks hks => ?_
    · rw [List.singleton_append, hread, hf]
    · exact ⟨[], by rwa [List.append_nil]⟩

/-- One reader after another. -/
theorem bind (hfirst : ReadsAt phrase₁ first ts) (phrase₂ : List TokenKind → Prop)
    (next : α → List Token → Except SyntaxFault (β × List Token))
    (hnext : ∀ x rest, first ts = .ok (x, rest) → ReadsAt phrase₂ (next x) rest)
    (hread : ∀ ts', ts'.head? = ts.head? → read ts' = first ts' >>= fun r => next r.1 r.2)
    (happend : ∀ ks ks', phrase₁ ks → phrase₂ ks' → phrase (ks ++ ks'))
    (hphrase : ∃ ks, phrase₂ ks) : ReadsAt phrase read ts := by
  cases hf : first ts with
  | error fault₁ =>
      have hts : read ts = .error fault₁ := by rw [hread ts rfl, hf]; rfl
      constructor
      · intro y rest h
        rw [hts] at h
        cases h
      · intro fault h
        obtain rfl : fault₁ = fault := Except.error.inj (hts.symm.trans h)
        obtain ⟨ks', hks'⟩ := hphrase
        refine (hfirst.blames hf).behind [] (fun mid' fault hhead hmid => ⟨fault, ?_⟩)
          fun ks hks => ⟨ks', happend ks ks' hks hks'⟩
        rw [List.nil_append, hread mid' hhead, hmid]
        rfl
  | ok taken =>
      obtain ⟨x, mid⟩ := taken
      have hmid := hnext x mid hf
      obtain ⟨front, rfl, hks, hsame⟩ := hfirst.repeats hf
      -- behind the front only the second reader counts, as long as the first stops there
      have hbehind : ∀ mid', mid'.head? = mid.head? → read (front ++ mid') = next x mid' := by
        intro mid' hhead
        rw [hread _ (head?_append_congr front hhead), hsame mid' hhead]
        rfl
      constructor
      · intro y rest h
        rw [hbehind mid rfl] at h
        obtain ⟨back, rfl, hks', hsame'⟩ := hmid.repeats h
        refine ⟨front ++ back, (List.append_assoc _ _ _).symm, ?_, fun rest' hhead => ?_⟩
        · rw [List.map_append]
          exact happend _ _ hks hks'
        · rw [List.append_assoc, hbehind _ (head?_append_congr back hhead)]
          exact hsame' rest' hhead
      · intro fault h
        rw [hbehind mid rfl] at h
        refine (hmid.blames h).behind front (fun mid' fault hhead hf' => ⟨fault, ?_⟩)
          fun ks hks' => ?_
        · rw [hbehind mid' hhead, hf']
        · exact ⟨[], by rw [List.append_nil]; exact happend _ _ hks hks'⟩

/-- What is made of the value makes no difference. -/
theorem map (f : α → β) (h : ReadsAt phrase₁ first ts)
    (hread : ∀ ts', ts'.head? = ts.head? → read ts' = first ts' >>= fun r => .ok (f r.1, r.2))
    (hphrase : ∀ ks, phrase₁ ks → phrase ks) : ReadsAt phrase read ts := by
  refine h.bind (· = []) (fun x rest => .ok (f x, rest)) ?_ hread ?_ ⟨[], rfl⟩
  · exact fun x rest _ => done (f x) rfl fun _ _ => rfl
  · rintro ks _ hks rfl
    rw [List.append_nil]
    exact hphrase ks hks

theorem mono {read first : List Token → Except SyntaxFault (β × List Token)}
    (h : ReadsAt phrase₁ first ts) (hread : ∀ ts', ts'.head? = ts.head? → read ts' = first ts')
    (hphrase : ∀ ks, phrase₁ ks → phrase ks) : ReadsAt phrase read ts := by
  refine h.map id (fun ts' hhead => ?_) hphrase
  rw [hread ts' hhead]
  cases first ts' <;> rfl

end ReadsAt

end

/-! ## Each reader -/

namespace Grammar

/-- The spellings of the phrases that nest at most `room` levels. -/
def Phrase (c : Nonterminal) (room : Nat) (ks : List TokenKind) : Prop :=
  ∃ d : Derivation c, d.depth ≤ room ∧ d.tokens = ks

/-- A reader finds phrases, and its failures point at the first token that cannot go on. -/
def Reads (c : Nonterminal) (room : Nat) (read : Reader Expr) : Prop :=
  ∀ ts, ReadsAt (Phrase c room) (fun ts => outcome (read ts)) ts

variable {room : Nat}

theorem phrase_primary (room : Nat) : ∃ ks, Phrase .primary room ks :=
  ⟨_, .number 0, Nat.zero_le _, rfl⟩

/-- A head of another kind stays one. -/
theorem forall_head?_congr {ts ts' : List Token} {p : Token → Prop} (h : ∀ t ∈ ts.head?, p t)
    (hhead : ts'.head? = ts.head?) : ∀ t ∈ ts'.head?, p t := by
  rwa [hhead]

/-! ### Chains -/

theorem reads_readLinks {s : Strength} {operand : Reader Expr}
    (hOperand : Reads (.operand s) room operand) (ts : List Token) :
    ReadsAt (Phrase (.links s) room)
      (fun ts => outcome (Expr.readLinks (operatorOf s) operand ts)) ts := by
  -- the operand of a link takes a token, so the links behind it are fewer
  induction h : ts.length using Nat.strongRecOn generalizing ts with
  | ind n ih =>
    subst h
    have hnone : Phrase (.links s) room [] := ⟨.noLinks, Nat.zero_le _, rfl⟩
    cases ts with
    | nil =>
        refine .done [] hnone fun ts' hhead => ?_
        rw [List.head?_eq_none_iff.mp hhead]
        exact Expr.outcome_readLinks_nil _ _
    | cons t ts =>
        cases ho : operatorOf s t.kind with
        | none =>
            refine .done [] hnone fun ts' hhead => ?_
            obtain ⟨rest, rfl⟩ := eq_cons_of_head? hhead
            exact Expr.outcome_readLinks_none ho
        | some op =>
            obtain ⟨hs, hk⟩ := operatorOf_eq_some.mp ho
            refine .cons ?_ fun ts' => Expr.outcome_readLinks_some ho
            refine (hOperand ts).bind (Phrase (.links s) room)
              (fun x rest => outcome (Expr.readLinks (operatorOf s) operand rest) >>= fun more =>
                .ok ((op, x) :: more.1, more.2))
              (fun x rest hx => ?_) (fun ts' _ => rfl) ?_ ⟨[], hnone⟩
            · have hlt := length_lt_of_outcome hx
              exact (ih _ (Nat.lt_succ_of_lt hlt) rest rfl).map ((op, x) :: ·) (fun _ _ => rfl)
                fun _ hks => hks
            · rintro _ _ ⟨d, hd, rfl⟩ ⟨ds, hds, rfl⟩
              exact ⟨.link op hs d ds, Nat.max_le.mpr ⟨hd, hds⟩, by rw [Derivation.tokens, hk]⟩

theorem reads_readChain {s : Strength} {operand : Reader Expr}
    (hOperand : Reads (.operand s) room operand) :
    Reads (.chain s) room (Expr.readChain (operatorOf s) operand) := by
  intro ts
  refine (hOperand ts).bind (Phrase (.links s) room)
    (fun x rest => outcome (Expr.readLinks (operatorOf s) operand rest) >>= fun links =>
      .ok (Expr.ofChain x links.1, links.2))
    (fun x rest _ => ?_) (fun ts' _ => Expr.outcome_readChain _ _ ts') ?_
    ⟨[], .noLinks, Nat.zero_le _, rfl⟩
  · exact (reads_readLinks hOperand rest).map (Expr.ofChain x) (fun _ _ => rfl) fun _ hks => hks
  · rintro _ _ ⟨d, hd, rfl⟩ ⟨ds, hds, rfl⟩
    exact ⟨.chain d ds, Nat.max_le.mpr ⟨hd, hds⟩, rfl⟩

theorem reads_expression {level : Expr.Level} (hSigned : Reads .signed room level.signed) :
    Reads .expression room level.expression := by
  refine reads_readChain (s := .sum) fun ts => ?_
  have hFactor : Reads (.operand .product) room level.signed := fun ts =>
    (hSigned ts).mono (fun _ _ => rfl) fun _ ⟨d, hd, hks⟩ => ⟨.factor d, hd, hks⟩
  exact (reads_readChain (s := .product) hFactor ts).mono (fun _ _ => rfl)
    fun _ ⟨d, hd, hks⟩ => ⟨.term d, hd, hks⟩

/-! ### Arguments -/

/-- The spellings of argument lists, with the parenthesis that closes them. -/
def ClosedArguments (room : Nat) (ks : List TokenKind) : Prop :=
  ∃ d : Derivation .arguments, d.depth ≤ room ∧ d.tokens ++ [.closeParen] = ks

/-- The spellings of what follows the first argument of a list, up to its end. -/
def ClosedMore (room : Nat) (ks : List TokenKind) : Prop :=
  ∃ d : Derivation .moreArguments, d.depth ≤ room ∧ d.tokens ++ [.closeParen] = ks

theorem afterArgument_other (expression : Reader Expr) (x : Expr) {ts : List Token}
    (h : ∀ t ∈ ts.head?, t.kind ≠ .closeParen ∧ t.kind ≠ .comma) :
    Expr.afterArgument expression x ts = .error (Expr.unexpected ts) := by
  rw [Expr.afterArgument]
  · rintro start stop rest rfl
    exact (h _ rfl).1 rfl
  · rintro start stop rest rfl
    exact (h _ rfl).2 rfl

/-- A comma is the end of a list, or a list without its first argument follows it. -/
theorem closedMore_comma {ks : List TokenKind} (h : ClosedArguments room ks) :
    ClosedMore room (.comma :: ks) := by
  obtain ⟨d, hd, rfl⟩ := h
  cases d with
  | noArguments => exact ⟨.trailingComma, Nat.zero_le _, rfl⟩
  | arguments next more => exact ⟨.argument next more, hd, rfl⟩

theorem reads_readArguments {expression : Reader Expr}
    (hExpression : Reads .expression room expression) (ts : List Token) :
    ReadsAt (ClosedArguments room) (fun ts => outcome (Expr.readArguments expression ts)) ts := by
  induction h : ts.length using Nat.strongRecOn generalizing ts with
  | ind n ih =>
    subst h
    rcases head_kind_cases .closeParen ts with hc | ⟨t, ts, rfl, hk⟩
    · have hlast : ClosedMore room [.closeParen] := ⟨.lastArgument, Nat.zero_le _, rfl⟩
      refine (hExpression ts).bind (ClosedMore room) (Expr.afterArgument expression)
        (fun x rest hx => ?_)
        (fun ts' hhead => Expr.outcome_readArguments (forall_head?_congr hc hhead)) ?_ ⟨_, hlast⟩
      · have hlt := length_lt_of_outcome hx
        rcases head_kind_cases .closeParen rest with hc | ⟨t, rest, rfl, hk⟩
        · rcases head_kind_cases .comma rest with hm | ⟨t, rest, rfl, hk⟩
          · refine .refuse ⟨_, hlast⟩ fun rest' hhead => afterArgument_other _ _ fun t ht => ?_
            exact ⟨forall_head?_congr hc hhead t ht, forall_head?_congr hm hhead t ht⟩
          · refine .cons ?_ fun rest' => afterArgument_comma _ _ hk
            refine (ih _ (Nat.lt_of_succ_lt hlt) rest rfl).map (x :: ·) (fun _ _ => rfl) ?_
            rw [hk]
            exact fun ks => closedMore_comma
        · refine .cons (.done [x] ?_ fun _ _ => rfl) fun rest' => afterArgument_close _ _ hk
          rwa [hk]
      · rintro _ _ ⟨d, hd, rfl⟩ ⟨ds, hds, rfl⟩
        exact ⟨.arguments d ds, Nat.max_le.mpr ⟨hd, hds⟩, List.append_assoc _ _ _⟩
    · refine .cons (.done [] ?_ fun _ _ => rfl) fun ts' => Expr.outcome_readArguments_close _ hk
      exact ⟨.noArguments, Nat.zero_le _, by rw [hk]; rfl⟩

/-! ### The readers of a level -/

/-- The readers of a level point at the first token that cannot go on. -/
structure LevelReads (room : Nat) (level : Expr.Level) : Prop where
  signed : Reads .signed room level.signed
  trailers : ∀ (callee : Expr) (ts : List Token),
    ReadsAt (Phrase .trailers room) (fun ts => outcome (level.trailers callee ts)) ts

/-- So do those of the level below, where there is one. -/
def BelowReads (room : Nat) (below : Option Expr.Level) : Prop :=
  ∀ level, below = some level → ∃ r, room = r + 1 ∧ LevelReads r level

variable {below : Option Expr.Level}

theorem reads_readTrailers (hBelow : BelowReads room below) (callee : Expr) (ts : List Token) :
    ReadsAt (Phrase .trailers room)
      (fun ts => outcome (Expr.Level.readTrailers below callee ts)) ts := by
  have hnone : Phrase .trailers room [] := ⟨.noTrailers, Nat.zero_le _, rfl⟩
  rcases head_kind_cases .openParen ts with ho | ⟨t, ts, rfl, hk⟩
  · exact .done callee hnone fun ts' hhead =>
      Expr.Level.outcome_readTrailers_none _ _ (forall_head?_congr ho hhead)
  cases below with
  | none => exact .tooDeep ⟨_, hnone⟩ fun ts' => Expr.Level.outcome_readTrailers_open _ _ hk
  | some level =>
      obtain ⟨r, rfl, hr⟩ := hBelow level rfl
      refine .cons ?_ fun ts' => Expr.Level.outcome_readTrailers_open _ _ hk
      refine (reads_readArguments (reads_expression hr.signed) ts).bind (Phrase .trailers r)
        (fun args => fun rest => outcome (level.trailers (.call callee args) rest))
        (fun args rest _ => hr.trailers (.call callee args) rest) (fun ts' _ => rfl) ?_
        ⟨[], .noTrailers, Nat.zero_le _, rfl⟩
      rintro _ _ ⟨d, hd, rfl⟩ ⟨ds, hds, rfl⟩
      refine ⟨.trailer d ds, Nat.succ_le_succ (Nat.max_le.mpr ⟨hd, hds⟩), ?_⟩
      rw [Derivation.tokens, hk, List.append_assoc]
      rfl

theorem afterInner_close (x : Expr) {t : Token} {rest : List Token} (h : t.kind = .closeParen) :
    Expr.Level.afterInner x (t :: rest) = .ok (x, rest) := by
  obtain ⟨kind, start, stop⟩ := t
  subst h
  rfl

theorem afterInner_other (x : Expr) {ts : List Token} (h : ∀ t ∈ ts.head?, t.kind ≠ .closeParen) :
    Expr.Level.afterInner x ts = .error (Expr.unexpected ts) := by
  rw [Expr.Level.afterInner]
  rintro start stop rest rfl
  exact h _ rfl rfl

theorem reads_readPrimary (hBelow : BelowReads room below) :
    Reads .primary room (Expr.Level.readPrimary below) := by
  intro ts
  rcases Classical.em (∀ t ∈ ts.head?, Nonterminal.primary.starts t.kind = false) with hs | hs
  · exact .refuse (phrase_primary room) fun ts' hhead =>
      Expr.Level.outcome_readPrimary_other _ (forall_head?_congr hs hhead)
  cases ts with
  | nil => exact absurd (by nofun) hs
  | cons t ts =>
      cases hk : t.kind with
      | number x =>
          refine .cons (.done _ ?_ fun _ _ => rfl)
            fun ts' => Expr.Level.outcome_readPrimary_number _ hk
          exact ⟨.number x, Nat.zero_le _, by rw [hk]; rfl⟩
      | identifier id =>
          refine .cons (.done _ ?_ fun _ _ => rfl)
            fun ts' => Expr.Level.outcome_readPrimary_name _ hk
          exact ⟨.name id, Nat.zero_le _, by rw [hk]; rfl⟩
      | openParen =>
          cases below with
          | none =>
              exact .tooDeep (phrase_primary room)
                fun ts' => Expr.Level.outcome_readPrimary_open _ hk
          | some level =>
              obtain ⟨r, rfl, hr⟩ := hBelow level rfl
              refine .cons ?_ fun ts' => Expr.Level.outcome_readPrimary_open _ hk
              refine (reads_expression hr.signed ts).bind (· = [.closeParen])
                Expr.Level.afterInner (fun x rest _ => ?_) (fun ts' _ => rfl) ?_ ⟨_, rfl⟩
              · rcases head_kind_cases .closeParen rest with hc | ⟨t, rest, rfl, hk⟩
                · exact .refuse ⟨_, rfl⟩ fun rest' hhead =>
                    afterInner_other _ (forall_head?_congr hc hhead)
                · exact .cons (.done x (by rw [hk]) fun _ _ => rfl)
                    fun rest' => afterInner_close _ hk
              · rintro _ _ ⟨d, hd, rfl⟩ rfl
                exact ⟨.parenthesized d, Nat.succ_le_succ hd, by rw [hk]; rfl⟩
      | _ =>
          refine absurd (fun t' ht => ?_) hs
          cases ht
          rw [hk]
          rfl

/-- The spellings of what may follow the base of a power. -/
def Exponent (room : Nat) (ks : List TokenKind) : Prop :=
  ks = [] ∨ ∃ d : Derivation .signed, d.depth + 1 ≤ room ∧ .power :: d.tokens = ks

theorem afterBase_other (base : Expr) {ts : List Token} (h : ∀ t ∈ ts.head?, t.kind ≠ .power) :
    Expr.Level.afterBase below base ts = .ok (base, ts) := by
  rw [Expr.Level.afterBase]
  rintro start stop rest rfl
  exact h _ rfl rfl

theorem afterBase_power (base : Expr) {t : Token} {rest : List Token} (h : t.kind = .power) :
    Expr.Level.afterBase below base (t :: rest) =
      Expr.Level.enter below >>= fun level =>
        outcome (level.signed rest) >>= fun exponent =>
          .ok (.power base exponent.1, exponent.2) := by
  obtain ⟨kind, start, stop⟩ := t
  subst h
  rfl

theorem reads_afterBase (hBelow : BelowReads room below) (base : Expr) (ts : List Token) :
    ReadsAt (Exponent room) (Expr.Level.afterBase below base) ts := by
  rcases head_kind_cases .power ts with hp | ⟨t, ts, rfl, hk⟩
  · exact .done base (.inl rfl) fun ts' hhead => afterBase_other _ (forall_head?_congr hp hhead)
  cases below with
  | none => exact .tooDeep ⟨[], .inl rfl⟩ fun ts' => afterBase_power _ hk
  | some level =>
      obtain ⟨r, rfl, hr⟩ := hBelow level rfl
      refine .cons ?_ fun ts' => afterBase_power _ hk
      refine (hr.signed ts).map (.power base) (fun _ _ => rfl) ?_
      rintro _ ⟨d, hd, rfl⟩
      exact .inr ⟨d, Nat.succ_le_succ hd, by rw [hk]⟩

theorem reads_readPower (hBelow : BelowReads room below) :
    Reads .power room (Expr.Level.readPower below) := by
  intro ts
  -- the trailers and the exponent are read for a primary that is there
  refine (reads_readPrimary hBelow ts).bind
    (fun ks => ∃ ks₁ ks₂, Phrase .trailers room ks₁ ∧ Exponent room ks₂ ∧ ks₁ ++ ks₂ = ks)
    (fun base rest => outcome (Expr.Level.readTrailers below base rest) >>= fun called =>
      Expr.Level.afterBase below called.1 called.2)
    (fun base rest _ => ?_) (fun ts' _ => Expr.Level.outcome_readPower below ts') ?_ ?_
  · exact (reads_readTrailers hBelow base rest).bind (Exponent room) (Expr.Level.afterBase below)
      (fun called rest _ => reads_afterBase hBelow called rest) (fun ts' _ => rfl)
      (fun ks₁ ks₂ h₁ h₂ => ⟨ks₁, ks₂, h₁, h₂, rfl⟩) ⟨[], .inl rfl⟩
  · rintro _ _ ⟨callee, hd, rfl⟩ ⟨_, _, ⟨trailers, hds, rfl⟩, hexponent, rfl⟩
    have hdepth : (Derivation.called callee trailers).depth ≤ room := Nat.max_le.mpr ⟨hd, hds⟩
    rcases hexponent with rfl | ⟨e, he, rfl⟩
    · exact ⟨.bare (.called callee trailers), hdepth, by rw [List.append_nil]; rfl⟩
    · exact ⟨.raised (.called callee trailers) e, Nat.max_le.mpr ⟨hdepth, he⟩,
        List.append_assoc _ _ _⟩
  · exact ⟨[], [], [], ⟨.noTrailers, Nat.zero_le _, rfl⟩, .inl rfl, rfl⟩

theorem phrase_signed (room : Nat) : ∃ ks, Phrase .signed room ks :=
  ⟨_, .unsigned (.bare (.called (.number 0) .noTrailers)), Nat.zero_le _, rfl⟩

theorem reads_readSigned (hBelow : BelowReads room below) :
    Reads .signed room (Expr.Level.readSigned below) := by
  intro ts
  rcases head_kind_cases .minus ts with hm | ⟨t, ts, rfl, hk⟩
  · rcases head_kind_cases .plus ts with hp | ⟨t, ts, rfl, hk⟩
    · refine (reads_readPower hBelow ts).mono (fun ts' hhead => ?_)
        fun _ ⟨d, hd, hks⟩ => ⟨.unsigned d, hd, hks⟩
      exact Expr.Level.outcome_readSigned_power _ fun t ht =>
        ⟨forall_head?_congr hm hhead t ht, forall_head?_congr hp hhead t ht⟩
    · cases below with
      | none =>
          exact .tooDeep (phrase_signed room) fun ts' => Expr.Level.outcome_readSigned_plus _ hk
      | some level =>
          obtain ⟨r, rfl, hr⟩ := hBelow level rfl
          refine .cons ?_ fun ts' => Expr.Level.outcome_readSigned_plus _ hk
          refine (hr.signed ts).map .plus (fun _ _ => rfl) ?_
          rintro _ ⟨d, hd, rfl⟩
          exact ⟨.plus d, Nat.succ_le_succ hd, by rw [hk]; rfl⟩
  · cases below with
    | none =>
        exact .tooDeep (phrase_signed room) fun ts' => Expr.Level.outcome_readSigned_minus _ hk
    | some level =>
        obtain ⟨r, rfl, hr⟩ := hBelow level rfl
        refine .cons ?_ fun ts' => Expr.Level.outcome_readSigned_minus _ hk
        refine (hr.signed ts).map .negate (fun _ _ => rfl) ?_
        rintro _ ⟨d, hd, rfl⟩
        exact ⟨.minus d, Nat.succ_le_succ hd, by rw [hk]; rfl⟩

/-- **The readers of every level point at the first token that cannot go on.** -/
theorem levelReads (room : Nat) : LevelReads room (Expr.Level.withRoom room) := by
  induction room with
  | zero =>
      have hBelow : BelowReads 0 none := by nofun
      exact ⟨reads_readSigned hBelow, reads_readTrailers hBelow⟩
  | succ room ih =>
      have hBelow : BelowReads (room + 1) (some (Expr.Level.withRoom room)) := by
        rintro _ ⟨⟩
        exact ⟨room, rfl, ih⟩
      exact ⟨reads_readSigned hBelow, reads_readTrailers hBelow⟩

end Grammar

/-! ## Whole token lists -/

namespace Expr

open Grammar

/-- Some list that starts with these tokens is an expression. -/
def Continues (ts : List Token) : Prop := ∃ more e, ofTokens (ts ++ more) = .ok e

/-- What a complaint about a list of tokens says of it. -/
inductive Explains (ts : List Token) : SyntaxFault → Prop where
  /-- The tokens in front of this one can go on, but not with it. -/
  | token (front : List Token) (t : Token) (back : List Token) (split : ts = front ++ t :: back)
      (viable : Continues front) (dead : ¬ Continues (front ++ [t])) :
      Explains ts (.unexpectedToken t.kind t.start)
  /-- The tokens can go on, but not end. -/
  | ended (viable : Continues ts) (incomplete : ∀ e, ofTokens ts ≠ .ok e) :
      Explains ts .unexpectedEnd
  /-- From some place on nothing helps. -/
  | tooDeep (front back : List Token) (split : ts = front ++ back) (dead : ¬ Continues front) :
      Explains ts .nestedTooDeep

variable {ts seen : List Token}

/-- A phrase that is under way can be finished with tokens from anywhere. -/
theorem continues_of_viable (h : Viable (Phrase .expression maxNesting) seen) : Continues seen := by
  obtain ⟨ks, d, hd, htokens⟩ := h
  let more : List Token := ks.map fun k => ⟨k, 0, 0⟩
  have hkinds : d.tokens = (seen ++ more).map (·.kind) := by
    rw [htokens, List.map_append, List.map_map]
    exact congrArg _ (List.map_id ks).symm
  exact ⟨more, d.tree, ofTokens_of_derivation d hkinds hd⟩

theorem not_continues_of_doomed
    (h : Doomed (fun ts => outcome ((Level.withRoom maxNesting).expression ts)) seen) :
    ¬ Continues seen := by
  rintro ⟨more, e, he⟩
  obtain ⟨fault, hf⟩ := h more
  dsimp only at hf
  rw [ofTokens_eq, hf] at he
  cases he

/-- Tokens that are left over cannot be made up for behind them. -/
theorem not_continues_of_repeats {x : Expr} {front : List Token} {t : Token}
    (h : ∀ rest, rest.head? = some t →
      outcome ((Level.withRoom maxNesting).expression (front ++ rest)) = .ok (x, rest)) :
    ¬ Continues (front ++ [t]) := by
  rintro ⟨more, e, he⟩
  rw [ofTokens_eq, List.append_assoc, h _ rfl] at he
  cases he

theorem explains_of_ofTokens {fault : SyntaxFault} (h : ofTokens ts = .error fault) :
    Explains ts fault := by
  have hincomplete : ∀ e, ofTokens ts ≠ .ok e := by
    intro e he
    rw [h] at he
    cases he
  have hreads := reads_expression (levelReads maxNesting).signed ts
  rw [ofTokens_eq] at h
  cases hexpr : outcome ((Level.withRoom maxNesting).expression ts) with
  | error fault' =>
      rw [hexpr] at h
      obtain rfl : fault' = fault := Except.error.inj h
      obtain ⟨seen, rest, rfl, hviable, hdoomed, hfault⟩ := hreads.blames hexpr
      have hcontinues := continues_of_viable hviable
      cases rest with
      | nil =>
          rcases hfault with rfl | ⟨-, hne⟩
          · rw [List.append_nil] at hincomplete ⊢
            exact .ended hcontinues hincomplete
          · exact absurd rfl hne
      | cons t back =>
          have hdead := not_continues_of_doomed (hdoomed t rfl)
          rcases hfault with rfl | ⟨rfl, -⟩
          · exact .token seen t back rfl hcontinues hdead
          · exact .tooDeep (seen ++ [t]) back (by rw [List.append_assoc]; rfl) hdead
  | ok read =>
      obtain ⟨x, rest⟩ := read
      obtain ⟨front, rfl, hphrase, hsame⟩ := hreads.repeats hexpr
      rw [hexpr] at h
      cases rest with
      | nil => cases h
      | cons t back =>
          cases h
          refine .token front t back rfl (continues_of_viable ⟨[], ?_⟩) ?_
          · rwa [List.append_nil]
          · exact not_continues_of_repeats fun rest hhead => hsame rest hhead

/-- **A syntax error of the parser points at the first token that cannot go on.** A complaint about
a token is about one of the list: what stands in front of it can be made an expression, and what
stands up to it cannot. A complaint about the end is about a list that can be made an expression by
more tokens only. And where the nesting is complained about, there is a place from which on nothing
could be done. -/
theorem explains_of_parse {cs : List Char} {fault : SyntaxFault} (hscan : Token.scan cs = .ok ts)
    (hparse : parse cs = .error fault) : Explains ts fault := by
  rw [parse, hscan] at hparse
  exact explains_of_ofTokens hparse

/-- The list of arguments may end in a comma, so the complaint is about the second parenthesis. -/
theorem explains_of_parse_closeParen :
    ∃ ts, Token.scan "f(1,))".toList = .ok ts ∧ ts.length = 6 ∧
      parse "f(1,))".toList = .error (.unexpectedToken .closeParen 5) ∧
      Explains ts (.unexpectedToken .closeParen 5) := by
  have hscan : Token.scan "f(1,))".toList = .ok
      [⟨.identifier "f", 0, 1⟩, ⟨.openParen, 1, 2⟩, ⟨.number 1, 2, 3⟩, ⟨.comma, 3, 4⟩,
        ⟨.closeParen, 4, 5⟩, ⟨.closeParen, 5, 6⟩] := by
    decide +kernel
  have hmap : (parse "f(1,))".toList).map (fun _ => ()) =
      .error (.unexpectedToken .closeParen 5) := by
    decide +kernel
  have hparse : parse "f(1,))".toList = .error (.unexpectedToken .closeParen 5) := by
    cases h : parse "f(1,))".toList with
    | error fault =>
        rw [h] at hmap
        exact congrArg Except.error (Except.error.inj hmap)
    | ok e =>
        rw [h] at hmap
        cases hmap
  exact ⟨_, hscan, rfl, hparse, explains_of_parse hscan hparse⟩

end Expr

end PocketCalc

import Mathlib.Data.List.Forall2
import PocketCalc.Line.Session

/-!
# What a session writes

A session is described without its loop: the input is cut at each newline byte, and the lines are
answered in order, each as it would be on its own, up to the one at which the session stops. Each
answer stands behind a prompt, and one more prompt stands at the end. `runSession_spec` says that
the transcript of a session is the only one of this description.

What carries it is one step: a line either has an answer, and then the session goes on behind it, or
it stops the session, and then nothing behind it is looked at.
-/

namespace PocketCalc

/-! ## Lines -/

namespace Line

/-- A line without a carriage return at its end. -/
def withoutReturn (piece : List UInt8) : List UInt8 :=
  if piece.getLast? = some 13 then piece.dropLast else piece

/-- The lines of some bytes cut at each newline: what a newline ends is a line without the carriage
return in front of it, and what follows the last newline is a line if there is any. -/
def ofPieces : List (List UInt8) → List (List UInt8)
  | [] => []
  | [rest] => if rest = [] then [] else [rest]
  | piece :: next :: pieces => withoutReturn piece :: ofPieces (next :: pieces)

theorem ofPieces_cons {pieces : List (List UInt8)} (h : pieces ≠ []) (piece : List UInt8) :
    ofPieces (piece :: pieces) = withoutReturn piece :: ofPieces pieces := by
  cases pieces with
  | nil => exact absurd rfl h
  | cons next pieces => rfl

/-- A line is held reversed, with its carriage return in front. -/
theorem splitFrom_newline (line bytes : List UInt8) :
    splitFrom line (10 :: bytes) = withoutReturn line.reverse :: splitFrom [] bytes := by
  have hlast : line.reverse.getLast? = line.head? := List.getLast?_reverse
  cases line with
  | nil => rfl
  | cons b line =>
      by_cases hb : b = 13
      · subst hb
        rw [splitFrom, withoutReturn, hlast, if_pos List.head?_cons, List.reverse_cons,
          List.dropLast_concat]
      · rw [splitFrom, withoutReturn, hlast, if_neg (by simpa using hb)]
        intro more hmore
        exact hb (List.cons.inj hmore).1

theorem splitFrom_other {b : UInt8} (hb : b ≠ 10) (line bytes : List UInt8) :
    splitFrom line (b :: bytes) = splitFrom (b :: line) bytes := by
  rw [splitFrom]
  exact hb

theorem modifyHead_nil_append (pieces : List (List UInt8)) :
    pieces.modifyHead (([] : List UInt8).reverse ++ ·) = pieces := by
  cases pieces <;> rfl

theorem splitFrom_eq (line bytes : List UInt8) :
    splitFrom line bytes = ofPieces ((bytes.splitOn 10).modifyHead (line.reverse ++ ·)) := by
  induction bytes generalizing line with
  | nil => cases line <;> simp [splitFrom, ofPieces]
  | cons b bytes ih =>
      rw [List.splitOn_cons_eq_if_modifyHead]
      by_cases hb : b = 10
      · subst hb
        rw [splitFrom_newline, ih [], modifyHead_nil_append, if_pos (beq_self_eq_true 10),
          List.modifyHead_cons, List.append_nil, ofPieces_cons (List.splitOn_ne_nil _ _)]
      · rw [splitFrom_other hb, ih, if_neg (by simpa using hb), List.modifyHead_modifyHead]
        congr 2
        funext piece
        simp

/-- **The lines of some bytes are what the newlines leave between them.** -/
theorem split_eq (bytes : List UInt8) : split bytes = ofPieces (bytes.splitOn 10) := by
  rw [split, splitFrom_eq, modifyHead_nil_append]

theorem ofPieces_append {next : List (List UInt8)} (h : next ≠ []) (pieces : List (List UInt8)) :
    ofPieces (pieces ++ next) = pieces.map withoutReturn ++ ofPieces next := by
  induction pieces with
  | nil => rfl
  | cons piece pieces ih =>
      have hmore : pieces ++ next ≠ [] := List.append_ne_nil_of_right_ne_nil pieces h
      rw [List.cons_append, ofPieces_cons hmore, ih, List.map_cons, List.cons_append]

/-- A newline cuts the bytes in two, and what stands behind it does not reach in front of it. -/
theorem split_append (front back : List UInt8) :
    split (front ++ 10 :: back) = split (front ++ [10]) ++ split back := by
  rw [split_eq, split_eq, split_eq, List.splitOn_append_cons_self, List.splitOn_append_cons_self,
    ofPieces_append (List.splitOn_ne_nil 10 back), ofPieces_append (List.splitOn_ne_nil 10 []),
    List.splitOn_nil, ofPieces, if_pos rfl, List.append_nil]

/-! ## Where a session stops -/

/-- What a line does that stops the session: it asks for the end, or it is not UTF-8. -/
inductive Stops (line : List UInt8) : Bool → Prop where
  | quit (text : List Char) (decoded : decode? line = some text)
      (word : (Text.trim text).map Char.toLower = "quit".toList ∨
        (Text.trim text).map Char.toLower = "exit".toList) : Stops line false
  | unreadable (undecoded : decode? line = none) : Stops line true

/-- Where a session ends, given the lines that it did not answer: at a line that stops it, or behind
the last line. -/
inductive Ends : List (List UInt8) → Bool → Prop where
  | stopped {line : List UInt8} {unreadable : Bool} (lines : List (List UInt8))
      (stops : Stops line unreadable) : Ends (line :: lines) unreadable
  | finished : Ends [] false

end Line

theorem Command.ofLine_eq_quit_iff (text : List Char) :
    Command.ofLine text = .ok .quit ↔ Line.isQuit (Text.trim text) = true := by
  have hfunction (name arg : List Char) : Command.ofFunction name arg ≠ .ok .quit := by
    unfold Command.ofFunction
    split <;> nofun
  have hcut (cut : Line.Cut) : Command.ofCut cut ≠ .ok .quit := by
    unfold Command.ofCut
    split <;> nofun
  unfold Command.ofLine
  dsimp only
  split
  · rename_i hempty
    rw [List.isEmpty_iff.mp hempty]
    exact iff_of_false nofun (by decide)
  split
  · rename_i hquit
    exact iff_of_true rfl hquit
  · rename_i hquit
    refine iff_of_false (fun h => ?_) hquit
    split at h
    · exact hfunction _ _ h
    split at h
    · exact hcut _ h
    · cases h

namespace Calculator

variable {calculator : Calculator} {prompt : String}

/-- What is written for a line: what it comes to on its own, or its error. -/
inductive Replies (calculator : Calculator) (line : List UInt8) : String → Prop where
  | answer (text : List Char) (result : String) (decoded : Line.decode? line = some text)
      (answered : calculator.answer text = .ok (some result)) :
      Replies calculator line ("= " ++ result ++ "\n")
  | error (text : List Char) (error : Error) (decoded : Line.decode? line = some text)
      (failed : calculator.answer text = .error error) :
      Replies calculator line ("Error: " ++ error.message ++ "\n")

/-- A line that comes to nothing asks for the end of the session. -/
theorem answer_eq_none_iff (text : List Char) :
    calculator.answer text = .ok none ↔ Line.isQuit (Text.trim text) = true := by
  rw [← Command.ofLine_eq_quit_iff]
  unfold answer
  cases Command.ofLine text with
  | error error => exact iff_of_false nofun nofun
  | ok command =>
      cases command with
      | quit => exact iff_of_true rfl rfl
      | unary op arg =>
          refine iff_of_false ?_ nofun
          cases hcall : calculator.env.call (.unary op) [arg] with
          | error error => simp [bind, Except.bind, hcall]
          | ok x => simp [bind, Except.bind, hcall, pure, Except.pure]
      | binary op lhs rhs =>
          refine iff_of_false ?_ nofun
          cases hcall : calculator.env.call (.binary op) [lhs, rhs] with
          | error error => simp [bind, Except.bind, hcall]
          | ok x => simp [bind, Except.bind, hcall, pure, Except.pure]

/-! ## One line -/

/-- **A line has an answer or stops the session.** -/
theorem replies_or_stops (calculator : Calculator) (line : List UInt8) :
    (∃ reply, calculator.Replies line reply) ∨ ∃ unreadable, Line.Stops line unreadable := by
  cases hd : Line.decode? line with
  | none => exact .inr ⟨true, .unreadable hd⟩
  | some text =>
      cases ha : calculator.answer text with
      | error error => exact .inl ⟨_, .error text error hd ha⟩
      | ok result? =>
          cases result? with
          | some result => exact .inl ⟨_, .answer text result hd ha⟩
          | none =>
              have hquit := (answer_eq_none_iff text).mp ha
              simp only [Line.isQuit, Bool.or_eq_true, beq_iff_eq] at hquit
              exact .inr ⟨false, .quit text hd hquit⟩

/-- Behind an answer the session goes on. -/
theorem session_of_replies {line : List UInt8} {reply : String} (h : calculator.Replies line reply)
    (lines : List (List UInt8)) : calculator.session prompt (line :: lines) =
      (calculator.session prompt lines).prepend (prompt ++ reply) := by
  cases h with
  | answer text result hd ha => simp only [session, hd, ha, Line.written]
  | error text error hd ha => simp only [session, hd, ha, Line.written]

/-- Behind a line that stops the session nothing is read. -/
theorem session_of_stops {line : List UInt8} {unreadable : Bool} (h : Line.Stops line unreadable)
    (lines : List (List UInt8)) :
    calculator.session prompt (line :: lines) = ⟨prompt, unreadable⟩ := by
  cases h with
  | unreadable hd => simp only [session, hd]
  | quit text hd hword =>
      have ha : calculator.answer text = .ok none := by
        rw [answer_eq_none_iff]
        simpa only [Line.isQuit, Bool.or_eq_true, beq_iff_eq] using hword
      simp only [session, hd, ha, Line.written]

/-! ## All lines -/

/-- The transcript that the lines call for: some of them are answered, in order and behind a prompt
each, and the session ends in front of the others, behind one more prompt. -/
def Records (calculator : Calculator) (prompt : String) (lines : List (List UInt8))
    (t : Transcript) : Prop :=
  ∃ answered replies rest, lines = answered ++ rest ∧
    List.Forall₂ calculator.Replies answered replies ∧ Line.Ends rest t.unreadable ∧
    t.output = String.join (replies.map (prompt ++ ·)) ++ prompt

/-- A session records its lines. -/
theorem records_session (calculator : Calculator) (prompt : String) (lines : List (List UInt8)) :
    calculator.Records prompt lines (calculator.session prompt lines) := by
  induction lines with
  | nil => exact ⟨[], [], [], rfl, .nil, .finished, (String.empty_append).symm⟩
  | cons line lines ih =>
      rcases calculator.replies_or_stops line with ⟨reply, hreply⟩ | ⟨unreadable, hstops⟩
      · obtain ⟨answered, replies, rest, hlines, hreplies, hends, houtput⟩ := ih
        rw [session_of_replies hreply]
        refine ⟨line :: answered, reply :: replies, rest, ?_, .cons hreply hreplies, hends, ?_⟩
        · rw [hlines, List.cons_append]
        · show prompt ++ reply ++ (calculator.session prompt lines).output = _
          rw [houtput, List.map_cons, String.join_cons, String.append_assoc, String.append_assoc,
            String.append_assoc]
      · rw [session_of_stops hstops]
        exact ⟨[], [], line :: lines, rfl, .nil, .stopped lines hstops, (String.empty_append).symm⟩

/-- There is no other transcript of the lines. -/
theorem Records.eq_session {lines : List (List UInt8)} {t : Transcript}
    (h : calculator.Records prompt lines t) : calculator.session prompt lines = t := by
  obtain ⟨answered, replies, rest, rfl, hreplies, hends, houtput⟩ := h
  obtain ⟨output, unreadable⟩ := t
  dsimp only at hends houtput
  subst houtput
  induction hreplies with
  | nil =>
      rw [List.nil_append, List.map_nil, String.join_nil, String.empty_append]
      cases hends with
      | stopped lines hstops => exact session_of_stops hstops lines
      | finished => rfl
  | cons hreply _ ih =>
      rw [List.cons_append, session_of_replies hreply, ih, List.map_cons, String.join_cons]
      simp only [Transcript.prepend, String.append_assoc]

/-- Once a session has stopped, the lines behind make no difference. -/
theorem session_append_of_stops {line : List UInt8} {unreadable : Bool}
    {lines : List (List UInt8)} (hline : line ∈ lines) (h : Line.Stops line unreadable)
    (behind : List (List UInt8)) :
    calculator.session prompt (lines ++ behind) = calculator.session prompt lines := by
  induction lines with
  | nil => cases hline
  | cons first lines ih =>
      rw [List.cons_append]
      rcases List.mem_cons.mp hline with rfl | hmem
      · rw [session_of_stops h, session_of_stops h]
      rcases calculator.replies_or_stops first with ⟨reply, hreply⟩ | ⟨_, hstops⟩
      · rw [session_of_replies hreply, session_of_replies hreply, ih hmem]
      · rw [session_of_stops hstops, session_of_stops hstops]

/-- **A session answers its input line by line.** Its transcript is the only one in which the lines
of the input, cut at the newlines, are answered in order behind a prompt each, every line as it
would be on its own, up to the first one that stops the session or up to the end; and a session that
stops at a line writes the same whatever stands behind that line. -/
theorem runSession_spec (calculator : Calculator) (prompt : Option String) (input : List UInt8) :
    (∀ t, calculator.runSession prompt input = t ↔
      calculator.Records (prompt.getD "") (Line.ofPieces (input.splitOn 10)) t) ∧
    ∀ front back line unreadable, input = front ++ 10 :: back →
      line ∈ Line.ofPieces ((front ++ [10]).splitOn 10) → Line.Stops line unreadable →
      ∀ back', calculator.runSession prompt (front ++ 10 :: back') =
        calculator.runSession prompt input := by
  refine ⟨fun t => ⟨?_, fun h => ?_⟩, ?_⟩
  · rintro rfl
    rw [← Line.split_eq]
    exact records_session calculator _ _
  · rw [← Line.split_eq] at h
    exact h.eq_session
  · rintro front back line unreadable rfl hline hstops back'
    rw [← Line.split_eq] at hline
    rw [runSession, runSession, Line.split_append front back', Line.split_append front back,
      session_append_of_stops hline hstops, session_append_of_stops hline hstops]

/-- A sum is answered, and ` Quit` in front of a carriage return ends the session, whatever else the
input has. -/
theorem runSession_spec_quit :
    Records {} "> " (Line.ofPieces ("1 + 1\n Quit\r\n2".toUTF8.toList.splitOn 10))
        ⟨"> = 2\n> ", false⟩ ∧
      Line.Stops " Quit".toUTF8.toList false ∧
      runSession {} (some "> ") ("1 + 1\n Quit\r".toUTF8.toList ++ 10 :: "exit\n".toUTF8.toList) =
        runSession {} (some "> ") "1 + 1\n Quit\r\n2".toUTF8.toList := by
  have hstops : Line.Stops " Quit".toUTF8.toList false :=
    .quit " Quit".toList (by decide +kernel) (.inl (by decide))
  obtain ⟨hrecords, hbehind⟩ := runSession_spec {} (some "> ") "1 + 1\n Quit\r\n2".toUTF8.toList
  exact ⟨(hrecords _).mp (by decide +kernel), hstops,
    hbehind "1 + 1\n Quit\r".toUTF8.toList "2".toUTF8.toList _ false (by decide +kernel)
      (by decide +kernel) hstops _⟩

end Calculator

end PocketCalc

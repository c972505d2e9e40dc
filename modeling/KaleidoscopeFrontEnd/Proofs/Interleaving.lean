import KaleidoscopeFrontEnd.Proofs.Restart
import KaleidoscopeFrontEnd.Scanner

namespace KaleidoscopeFrontEnd

theorem blanks_layout (blanks : ∀ c ∈ w, isBlank c = true) : Layout w := by
  induction w with
  | nil => exact .nil
  | cons c w ih =>
      obtain ⟨first,later⟩ := List.forall_mem_cons.mp blanks
      exact .blank c first (ih later)

namespace Cursor

variable {c after : Cursor}

theorem skip_blanks_next (c : Cursor) : c.skipBlanks.2.next = c.next := by
  have split : c.rest = c.rest.takeWhile isBlank ++ c.rest.dropWhile isBlank := List.takeWhile_append_dropWhile.symm
  have layout : Layout (c.rest.takeWhile isBlank) := blanks_layout fun _ => List.mem_takeWhile_imp
  exact (next_layout split layout).symm

theorem next_ended (pulled : c.next = (e,after)) (ended : e.isEnd = true) : after.next = (e,after) := by
  obtain ⟨_,rfl,rfl⟩ := (next_exact.mp pulled).finished ended
  exact next_final (.closed .nil)

theorem Pull.file (pull : Pull c e after) : after.file = c.file := by
  cases pull <;> rfl

def ahead (c : Cursor) : Nat → List LexicalEvent
  | 0 => []
  | n + 1 => c.next.1 :: c.next.2.ahead n

theorem ahead_ended (pulled : c.next = (e,after)) (ended : e.isEnd = true) (n : Nat) :
    c.ahead n = List.replicate n e := by
  induction n generalizing c with
  | zero => rfl
  | succ n ih => rw [ahead,pulled,ih (next_ended pulled ended),List.replicate_succ]

end Cursor

-- A sequence of events that goes on with the end token for ever, as far as it is wanted.
def endless (all : List LexicalEvent) (stop : Token) (n : Nat) : List LexicalEvent :=
  (all ++ List.replicate n (Except.ok stop)).take n

theorem Cursor.Drains.ahead {c : Cursor} (drains : c.Drains all stop) (n : Nat) :
    c.ahead n = endless all stop n := by
  induction drains generalizing n with
  | last pulled ended => rw [ahead_ended pulled ended n,endless,List.nil_append,List.take_of_length_le (by simp)]
  | @event c e after all stop pulled more later ih =>
      cases n with
      | zero => rfl
      | succ n =>
          have enough : (all ++ List.replicate (n + 1) (Except.ok stop)).take n = endless all stop n := by
            rw [endless,List.take_append,List.take_append,List.take_replicate,List.take_replicate]
            congr 2
            omega
          rw [Cursor.ahead,pulled,ih n,← enough,endless,List.cons_append,List.take_succ_cons]

theorem Cursor.Drains.complete {c : Cursor} (drains : c.Drains all stop) :
    (Lexing.ofCursor c).complete = (all ++ [Except.ok stop]).mapM id := by
  induction drains with
  | last pulled ended =>
      rw [Lexing.of_cursor_last pulled ended]
      rfl
  | @event c e after all stop pulled more later ih =>
      cases e with
      | error fault =>
          rw [Lexing.of_cursor_fault pulled]
          rfl
      | ok t =>
          rw [Lexing.complete_token pulled more,ih,List.cons_append,List.mapM_cons]
          cases (all ++ [Except.ok stop]).mapM id <;> rfl

namespace Scanner

variable {s : Scanner}

def Call.delivers : Call → Bool
  | .pull | .iterate => true
  | .peek | .skipBlanks => false

def Call.report : Call → LexicalEvent → Answer
  | .iterate, e => iterated e
  | _, e => .event e

def delivered (calls : List Call) (answers : List Answer) : List Answer :=
  ((calls.zip answers).filter fun asked => asked.1.delivers).map Prod.snd

theorem delivered_cons (call : Call) (answer : Answer) (later : List Call) (answers : List Answer) :
    delivered (call :: later) (answer :: answers) =
      if call.delivers then answer :: delivered later answers else delivered later answers := by
  cases call <;> rfl

theorem call_delivers {call : Call} (delivers : call.delivers = true) :
    s.call call = (call.report s.cursor.next.1,{ s with cursor := s.cursor.next.2 }) := by
  cases call with
  | pull | iterate => rfl
  | peek | skipBlanks => cases delivers

-- A call that delivers nothing may move the cursor, but not beyond the layout it stands in.
theorem call_keeps {call : Call} (idle : call.delivers = false) :
    (s.call call).2.cursor.next = s.cursor.next := by
  cases call with
  | pull | iterate => cases idle
  | peek => rfl
  | skipBlanks => exact s.cursor.skip_blanks_next

theorem call_source (s : Scanner) (call : Call) :
    (s.call call).2.source = s.source ∧ (s.call call).2.cursor.file = s.cursor.file := by
  have pull := Cursor.next_exact.mp (Prod.eta s.cursor.next).symm
  cases call with
  | pull | iterate => exact ⟨rfl,pull.file⟩
  | peek | skipBlanks => exact ⟨rfl,rfl⟩

theorem calls_source (s : Scanner) (calls : List Call) :
    (s.calls calls).2.source = s.source ∧ (s.calls calls).2.cursor.file = s.cursor.file := by
  induction calls generalizing s with
  | nil => exact ⟨rfl,rfl⟩
  | cons call later ih =>
      obtain ⟨source,file⟩ := s.call_source call
      obtain ⟨laterSource,laterFile⟩ := ih (s.call call).2
      exact ⟨laterSource.trans source,laterFile.trans file⟩

theorem calls_pull (s : Scanner) (n : Nat) :
    (s.calls (List.replicate n .pull)).1 = (s.cursor.ahead n).map .event := by
  induction n generalizing s with
  | zero => rfl
  | succ n ih => exact congrArg (Answer.event s.cursor.next.1 :: ·) (ih { s with cursor := s.cursor.next.2 })

theorem calls_ahead {c : Cursor} (same : s.cursor.next = c.next) (calls : List Call) :
    delivered calls (s.calls calls).1 =
      List.zipWith Call.report (calls.filter Call.delivers) (c.ahead (calls.filter Call.delivers).length) := by
  induction calls generalizing s c with
  | nil => rfl
  | cons call later ih =>
      rw [calls,delivered_cons]
      cases delivers : call.delivers with
      | true =>
          rw [call_delivers delivers,List.filter_cons_of_pos delivers,same,if_pos rfl]
          exact congrArg (call.report c.next.1 :: ·) (ih (s := { s with cursor := c.next.2 }) rfl)
      | false =>
          have passed : ¬ call.delivers = true := by rw [delivers]; exact Bool.false_ne_true
          rw [List.filter_cons_of_neg passed,if_neg Bool.false_ne_true]
          exact ih ((s.call_keeps delivers).trans same)

-- Whatever calls are made, the answers of those that deliver are the beginning of one sequence, that of pulling alone,
-- in which the end token comes for ever. Tokenizing behind them delivers it up to its end or its first fault.
theorem calls_agree (file : String) (source : List Char) : ∃ all stop,
    (∀ e ∈ all, LexicalEvent.isEnd e = false) ∧ stop.isEnd = true ∧
    (∀ n, ((start file source).calls (List.replicate n .pull)).1 = (endless all stop n).map .event) ∧
    ∀ calls, let asked := (start file source).calls calls
      let delivering := calls.filter Call.delivers
      delivered calls asked.1 = List.zipWith Call.report delivering (endless all stop delivering.length) ∧
        asked.2.tokenize.1 = (all ++ [Except.ok stop]).mapM id := by
  obtain ⟨all,stop,drains⟩ := Cursor.drained file source
  refine ⟨all,stop,drains.inner,drains.ended,fun n => ?_,fun calls => ⟨?_,?_⟩⟩
  · rw [calls_pull,← drains.ahead]
    rfl
  · rw [← drains.ahead]
    exact calls_ahead rfl calls
  · obtain ⟨kept,name⟩ := (start file source).calls_source calls
    rw [← drains.complete,tokenize,kept,name]
    rfl

end Scanner

end KaleidoscopeFrontEnd

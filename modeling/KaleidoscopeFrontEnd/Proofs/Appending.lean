import KaleidoscopeFrontEnd.Proofs.Interleaving

namespace KaleidoscopeFrontEnd

-- The lexeme of an event ends in front of an offset.
def LexicalEvent.endsBefore (bound : Nat) (e : LexicalEvent) : Bool :=
  e.location.any fun l => decide (l.offset + (e.lexeme.length : Int) < (bound : Int))

theorem past_offset (p : Position) (w : List Char) : (p.past w).offset = p.offset + w.length := by
  induction w generalizing p with
  | nil => rfl
  | cons c w ih =>
      have step : (p.after c).offset = p.offset + 1 := by
        unfold Position.after
        split <;> rfl
      have rest := ih (p.after c)
      simp only [Position.past,List.foldl_cons,List.length_cons] at rest ⊢
      omega

namespace Cursor

variable {c : Cursor} {later : List Char}

def bound (c : Cursor) : Nat := c.position.offset + c.rest.length

theorem past_bound (split : c.rest = w ++ later) : (c.past w later).bound = c.bound := by
  simp only [bound,past,past_offset,split,List.length_append]
  omega

theorem delivered_ends (split : c.rest = g ++ w ++ later) (result : Option (TokenKind × Option TokenValue)) :
    (delivered w (c.past g (w ++ later)).location result).endsBefore c.bound = true ↔ later ≠ [] := by
  have ends : (c.past g (w ++ later)).location.offset + (w.length : Int) + (later.length : Int) = (c.bound : Int) := by
    simp only [bound,split,location,past,Position.inFile,past_offset,List.length_append]
    omega
  have settled : (c.past g (w ++ later)).location.offset + (w.length : Int) < (c.bound : Int) ↔ later ≠ [] := by
    rw [← List.length_pos_iff]
    omega
  rcases result with _ | ⟨kind,value⟩ <;>
    simp only [delivered,LexicalEvent.endsBefore,LexicalEvent.location,LexicalEvent.lexeme,Option.any_some,
      String.length_ofList,decide_eq_true_eq,settled]

theorem Pull.reads (pull : Pull c e after) (more : e.isEnd = false) : ∃ g w rest result,
    c.rest = g ++ w ++ rest ∧ Layout g ∧ Reads w rest result ∧
      e = delivered w (c.past g (w ++ rest)).location result ∧ after = c.past (g ++ w) rest := by
  cases pull with
  | last final => cases more
  | token split layout lexeme => exact ⟨_,_,_,_,split,layout,lexeme_reads lexeme,rfl,rfl⟩
  | malformed split layout broken => exact ⟨_,_,_,_,split,layout,malformed_reads broken,rfl,rfl⟩

theorem Drains.exhausted (drains : Drains c all stop) (nothing : c.rest = []) : all = [] := by
  have final : FinalLayout c.rest := nothing ▸ .closed .nil
  cases drains with
  | last => rfl
  | event pulled more later =>
      rw [next_final final] at pulled
      cases pulled
      cases more

theorem Drains.stop_ends (drains : Drains c all stop) : LexicalEvent.endsBefore c.bound (.ok stop) = false := by
  induction drains with
  | @last c stop after pulled ended =>
      obtain ⟨_,same,_⟩ := (next_exact.mp pulled).finished ended
      cases same
      have here : (c.past c.rest []).location.offset = (c.bound : Int) := by
        simp only [bound,location,past,Position.inFile,past_offset]
      simp [LexicalEvent.endsBefore,LexicalEvent.location,LexicalEvent.lexeme,endToken,Token.endOfInput,here]
  | @event c e after all stop pulled more later ih =>
      obtain ⟨g,w,rest,result,split,_,_,_,rfl⟩ := (next_exact.mp pulled).reads more
      rwa [past_bound split] at ih

-- A lexeme with a character behind it is the longest one there, whatever follows that character.
theorem Drains.stable (alone : Drains c front final) (later : List Char)
    (drains : Drains { c with rest := c.rest ++ later } all stop) :
    front.filter (LexicalEvent.endsBefore c.bound) <+: all := by
  induction alone generalizing all with
  | last => exact List.nil_prefix
  | @event c e after front final pulled more behind ih =>
      obtain ⟨g,w,rest,result,split,layout,reads,rfl,rfl⟩ := (next_exact.mp pulled).reads more
      have ends := delivered_ends split result
      by_cases nothing : rest = []
      · rw [behind.exhausted nothing,List.filter_cons_of_neg (ends.not.mpr (not_not.mpr nothing)),List.filter_nil]
        exact List.nil_prefix
      · have whole : c.rest ++ later = g ++ w ++ (rest ++ later) := by
          rw [split]
          simp only [List.append_assoc]
        have pulled := next_reads (c := { c with rest := c.rest ++ later }) whole layout (reads.extend nothing later)
        obtain ⟨events,rfl,following⟩ := drains.first pulled more
        rw [List.filter_cons_of_pos (ends.mpr nothing),← past_bound split]
        exact List.prefix_cons_inj _ |>.mpr (ih following)

theorem Drains.all_end (drains : Drains c all stop) (closed : Closed c.rest) :
    ∀ e ∈ all, LexicalEvent.endsBefore c.bound e = true := by
  induction drains with
  | last => exact fun e member => absurd member List.not_mem_nil
  | @event c e after all stop pulled more later ih =>
      obtain ⟨g,w,rest,result,split,layout,reads,rfl,rfl⟩ := (next_exact.mp pulled).reads more
      rw [split,List.append_assoc] at closed
      have inner := ih closed.behind.behind
      rw [past_bound split] at inner
      exact List.forall_mem_cons.mpr ⟨(delivered_ends split result).mpr (reads.rest_nonempty closed.behind),inner⟩

theorem Drains.settled (drains : Drains c all stop) :
    c.events.filter (LexicalEvent.endsBefore c.bound) = all.filter (LexicalEvent.endsBefore c.bound) := by
  have last : ¬ LexicalEvent.endsBefore c.bound (.ok stop) = true := by
    rw [drains.stop_ends]
    exact Bool.false_ne_true
  rw [drains.events,List.filter_append,List.filter_cons_of_neg last,List.filter_nil,List.append_nil]

end Cursor

theorem all_pass {events : List (Except ε α)} :
    (∃ values, events.mapM id = Except.ok values) ↔ ∀ e ∈ events, e.isOk = true := by
  induction events with
  | nil => exact ⟨fun _ e member => absurd member List.not_mem_nil,fun _ => ⟨[],rfl⟩⟩
  | cons e events ih =>
      rw [List.forall_mem_cons,← ih,List.mapM_cons]
      cases e with
      | error fault => exact ⟨fun ⟨_,passed⟩ => (nomatch passed),fun ⟨passed,_⟩ => (nomatch passed)⟩
      | ok value =>
          cases events.mapM id with
          | error fault => exact ⟨fun ⟨_,passed⟩ => (nomatch passed),fun ⟨_,_,passed⟩ => (nomatch passed)⟩
          | ok values => exact ⟨fun _ => ⟨rfl,values,rfl⟩,fun _ => ⟨value :: values,rfl⟩⟩

theorem Cursor.Drains.complete_iff {c : Cursor} (drains : c.Drains all stop) :
    (∃ tokens, (Lexing.ofCursor c).complete = .ok tokens) ↔ ∀ e ∈ c.events, e.isOk = true := by
  rw [drains.complete,drains.events]
  exact all_pass

theorem shifted_passes (lines characters : Nat) (e : LexicalEvent) : (e.shifted lines characters).isOk = e.isOk := by
  cases e <;> rfl

-- Writing more behind a text leaves what it is turned into as it is, but for a lexeme that reached its end. Behind a
-- line feed reading starts over, so many lines and characters further on.
theorem lexing_stable (file : String) (text later : List Char) :
    let alone := (Cursor.start file text).events.filter (LexicalEvent.endsBefore text.length)
    let whole := (Cursor.start file (text ++ later)).events
    alone <+: whole ∧
      (Closed text →
        whole = alone ++ (Cursor.start file later).events.map (.shifted (text.count '\n') text.length) ∧
        ((∃ tokens, (Lexing.ofText file (text ++ later)).complete = .ok tokens) ↔
          (∃ tokens, (Lexing.ofText file text).complete = .ok tokens) ∧
            ∃ tokens, (Lexing.ofText file later).complete = .ok tokens)) := by
  obtain ⟨front,final,first⟩ := Cursor.drained file text
  obtain ⟨back,stop,second⟩ := Cursor.drained file later
  obtain ⟨all,last,both⟩ := Cursor.drained file (text ++ later)
  have size : (Cursor.start file text).bound = text.length := Nat.zero_add _
  have settled := first.settled
  rw [size] at settled
  have stable := first.stable later both
  rw [size] at stable
  intro alone whole
  refine ⟨?_,fun closed => ?_⟩
  · change (Cursor.start file text).events.filter _ <+: (Cursor.start file (text ++ later)).events
    rw [settled,both.events]
    exact stable.trans (List.prefix_append _ _)
  · have restarted := Cursor.restarts file closed later first second
    have ended := first.all_end closed
    rw [size] at ended
    have joined : whole = alone ++ (Cursor.start file later).events.map (.shifted (text.count '\n') text.length) := by
      change (Cursor.start file (text ++ later)).events = (Cursor.start file text).events.filter _ ++ _
      rw [settled,List.filter_eq_self.mpr ended,restarted.events,second.events,List.map_append,List.append_assoc]
      rfl
    have kept : alone = front := settled.trans (List.filter_eq_self.mpr ended)
    refine ⟨joined,?_⟩
    simp only [Lexing.ofText]
    rw [both.complete_iff,first.complete_iff,second.complete_iff]
    change (∀ e ∈ whole, _) ↔ _
    rw [joined,kept,first.events]
    simp only [List.forall_mem_append,List.forall_mem_map,shifted_passes]
    constructor
    · exact fun ⟨passed,behind⟩ => ⟨⟨passed,List.forall_mem_singleton.mpr rfl⟩,behind⟩
    · exact fun ⟨⟨passed,_⟩,behind⟩ => ⟨passed,behind⟩

end KaleidoscopeFrontEnd

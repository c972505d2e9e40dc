import KaleidoscopeFrontEnd.Proofs.LexicalGrammar
import Mathlib.Data.List.Induction

namespace KaleidoscopeFrontEnd

namespace LexicalEvent

def isEnd : LexicalEvent → Bool
  | .ok t => t.isEnd
  | .error _ => false

def lexeme : LexicalEvent → String
  | .ok t => t.lexeme
  | .error fault => fault.lexeme

def location : LexicalEvent → Option Location
  | .ok t => t.location
  | .error fault => fault.location

end LexicalEvent

theorem Lexeme.kind_inner (lexeme : Lexeme w rest kind value) : kind ≠ .endOfInput := by
  cases lexeme <;> decide

theorem Reads.nonempty (reads : Reads w rest result) : w ≠ [] := by
  obtain ⟨first,later,rfl,_⟩ := reads
  exact List.cons_ne_nil first later

namespace Cursor

-- Pulling until the end token comes, across malformed literals.
inductive Drains : Cursor → List LexicalEvent → Token → Prop where
  | last (pulled : next c = (.ok stop,after)) (ended : stop.isEnd = true) : Drains c [] stop
  | event (pulled : next c = (event,after)) (more : event.isEnd = false) (later : Drains after all stop) :
      Drains c (event :: all) stop

variable {c : Cursor} {all : List LexicalEvent} {file : String} {source : List Char}

theorem Pull.inner (pull : Pull c event after) (more : event.isEnd = false) : ∃ g w later,
    c.rest = g ++ w ++ later ∧ Layout g ∧ w ≠ [] ∧ event.lexeme = String.ofList w ∧
      event.location = some (c.past g (w ++ later)).location ∧ after = c.past (g ++ w) later := by
  cases pull with
  | last final => cases more
  | token split layout lexeme => exact ⟨_,_,_,split,layout,(lexeme_reads lexeme).nonempty,rfl,rfl,rfl⟩
  | malformed split layout broken => exact ⟨_,_,_,split,layout,(malformed_reads broken).nonempty,rfl,rfl,rfl⟩

theorem Pull.finished (pull : Pull c event after) (ended : event.isEnd = true) :
    FinalLayout c.rest ∧ event = .ok (c.past c.rest []).endToken ∧ after = c.past c.rest [] := by
  cases pull with
  | last final => exact ⟨final,rfl,rfl⟩
  | token split layout lexeme => exact absurd (of_decide_eq_true ended) lexeme.kind_inner
  | malformed split layout broken => cases ended

theorem Pull.shorter (pull : Pull c event after) (more : event.isEnd = false) :
    after.rest.length < c.rest.length := by
  obtain ⟨g,w,later,split,_,nonempty,_,_,rfl⟩ := pull.inner more
  have positive := List.length_pos_iff.mpr nonempty
  rw [split,List.length_append,List.length_append]
  change later.length < _
  omega

theorem pulls_last (ended : c.next.1.isEnd = true) : c.pulls = [c.next] := by
  obtain ⟨final,_⟩ := (next_exact.mp (Prod.eta c.next).symm).finished ended
  have there : c.skipLayout.rest = [] := by
    rw [skipLayout,split_final_layout final]
    rfl
  rw [pulls,next]
  split
  · rename_i empty
    rw [empty]
  · rename_i first later found
    rw [there] at found
    cases found

theorem pulls_more (more : c.next.1.isEnd = false) : c.pulls = c.next :: c.next.2.pulls := by
  rw [pulls]
  split
  · rename_i empty
    have found : c.next = (.ok c.skipLayout.endToken,c.skipLayout) := by rw [next,empty]
    rw [found] at more
    cases more
  · rename_i first later found
    have here : c.next = c.skipLayout.lexemeAt first later := by rw [next,found]
    rw [here]

theorem Drains.events (drains : Drains c all stop) : c.events = all ++ [.ok stop] := by
  induction drains with
  | last pulled ended =>
      have found := pulls_last (by rw [pulled]; exact ended)
      rw [Cursor.events,found,pulled]
      rfl
  | event pulled more later ih =>
      have found := pulls_more (by rw [pulled]; exact more)
      rw [Cursor.events,found,pulled,List.map_cons,List.cons_append,← ih]
      rfl

end Cursor

-- Where the character at an offset stands, counted out in the source itself: a line for every line
-- feed in front of it, and a column for every character since the last of them.
def place (file : String) (source : List Char) (offset : Nat) : Location :=
  let before := source.take offset
  ⟨file,1 + before.count '\n',1 + (before.reverse.takeWhile fun c => c != '\n').length,offset⟩

theorem past_origin (before : List Char) : Position.origin.past before =
    ⟨1 + before.count '\n',1 + (before.reverse.takeWhile fun c => c != '\n').length,before.length⟩ := by
  induction before using List.reverseRecOn with
  | nil => rfl
  | append_singleton before c ih =>
      have step : Position.origin.past (before ++ [c]) = (Position.origin.past before).after c := by
        simp only [Position.past,List.foldl_append,List.foldl_cons,List.foldl_nil]
      rw [step,ih,Position.after,List.reverse_append,List.reverse_singleton,List.singleton_append,List.count_append]
      by_cases feed : c = '\n'
      · subst feed
        simp [Nat.add_assoc]
      · simp [feed,Nat.add_comm]

namespace Cursor

variable {c : Cursor} {file : String}

def Stands (c : Cursor) (file : String) (before : List Char) : Prop :=
  c.file = file ∧ c.position = Position.origin.past before

theorem start_stands (file : String) (source : List Char) : (start file source).Stands file [] := ⟨rfl,rfl⟩

theorem Stands.past (stands : c.Stands file before) (w later : List Char) :
    (c.past w later).Stands file (before ++ w) := by
  refine ⟨stands.1,?_⟩
  simp only [Cursor.past,stands.2,Position.past,List.foldl_append]

theorem Stands.location (stands : c.Stands file before) (rest : List Char) :
    c.location = place file (before ++ rest) before.length := by
  obtain ⟨rfl,position⟩ := stands
  rw [Cursor.location,position,past_origin,place,List.take_left]
  rfl

end Cursor

def slice (text : List Char) (first behind : Nat) : List Char := (text.drop first).take (behind - first)

theorem slice_between (before w later : List Char) :
    slice (before ++ w ++ later) before.length (before ++ w).length = w := by
  rw [slice,List.append_assoc,List.drop_left,List.length_append,Nat.add_sub_cancel_left,List.take_left]

-- Layout and the lexeme of an event in turn. Every lexeme is found where its event says, and the end token at the end.
inductive Tiled (file : String) (source : List Char) : Nat → List LexicalEvent → Token → Prop where
  | last (final : FinalLayout (source.drop behind)) :
      Tiled file source behind [] (.endOfInput (some (place file source source.length)))
  | event (ordered : behind ≤ offset) (gap : Layout (slice source behind offset)) (nonempty : event.lexeme ≠ "")
      (found : slice source offset (offset + event.lexeme.length) = event.lexeme.toList)
      (located : event.location = some (place file source offset))
      (later : Tiled file source (offset + event.lexeme.length) events stop) :
      Tiled file source behind (event :: events) stop

theorem Tiled.piece {event : LexicalEvent} {file : String} (layout : Layout g) (nonempty : w ≠ [])
    (lexeme : event.lexeme = String.ofList w)
    (located : event.location = some (place file (before ++ g ++ w ++ rest) (before ++ g).length))
    (later : Tiled file (before ++ g ++ w ++ rest) (before ++ g ++ w).length events stop) :
    Tiled file (before ++ g ++ w ++ rest) before.length (event :: events) stop := by
  have size : (before ++ g).length + event.lexeme.length = (before ++ g ++ w).length := by
    rw [lexeme,String.length_ofList,← List.length_append]
  refine .event ?_ ?_ ?_ ?_ located (size ▸ later)
  · rw [List.length_append]
    exact Nat.le_add_right _ _
  · rw [List.append_assoc _ w rest,slice_between]
    exact layout
  · rw [lexeme]
    exact fun empty => nonempty (String.ofList_eq_empty_iff.mp empty)
  · rw [size,slice_between,lexeme,String.toList_ofList]

theorem Tiled.within {file : String} (tiled : Tiled file source behind events stop) :
    ∀ e ∈ events, ∃ offset < source.length, LexicalEvent.location e = some (place file source offset) := by
  induction tiled with
  | last final => exact fun e member => absurd member List.not_mem_nil
  | @event behind offset event events stop ordered gap nonempty found located later ih =>
      intro e member
      rcases List.mem_cons.mp member with rfl | member
      · refine ⟨offset,Nat.not_le.mp fun beyond => ?_,located⟩
        rw [slice,List.drop_eq_nil_of_le beyond,List.take_nil] at found
        exact nonempty (String.toList_eq_nil_iff.mp found.symm)
      · exact ih e member

theorem Cursor.Stands.tiled {c : Cursor} {file : String} (stands : c.Stands file before) :
    ∃ events stop, c.Drains events stop ∧ Tiled file (before ++ c.rest) before.length events stop := by
  induction size : c.rest.length using Nat.strong_induction_on generalizing c before with
  | _ size ih =>
      subst size
      obtain ⟨event,after,pull⟩ := pull_exists c
      cases more : event.isEnd with
      | true =>
          obtain ⟨final,rfl,rfl⟩ := pull.finished more
          have ended := (stands.past c.rest []).location []
          rw [List.append_nil] at ended
          refine ⟨[],_,.last pull.next rfl,?_⟩
          rw [endToken,ended]
          exact .last (by rwa [List.drop_left])
      | false =>
          have shorter := pull.shorter more
          obtain ⟨g,w,later,split,layout,nonempty,lexeme,located,rfl⟩ := pull.inner more
          have whole : before ++ c.rest = before ++ g ++ w ++ later := by
            rw [split]
            simp only [List.append_assoc]
          have there := (stands.past g (w ++ later)).location (w ++ later)
          rw [← List.append_assoc] at there
          obtain ⟨events,stop,drains,tiled⟩ := ih _ shorter (stands.past (g ++ w) later) rfl
          rw [← List.append_assoc] at tiled
          rw [whole]
          exact ⟨event :: events,stop,.event pull.next more drains,
            .piece layout nonempty lexeme (located.trans (congrArg some there)) tiled⟩

-- Pulling ends for every source, and what it delivers tiles the source with nothing but layout in between.
theorem events_tile (file : String) (source : List Char) : ∃ events stop,
    Cursor.Drains (.start file source) events stop ∧
      (Cursor.start file source).events = events ++ [.ok stop] ∧ Tiled file source 0 events stop := by
  obtain ⟨events,stop,drains,tiled⟩ := (Cursor.start_stands file source).tiled
  exact ⟨events,stop,drains,drains.events,tiled⟩

end KaleidoscopeFrontEnd

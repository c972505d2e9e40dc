import KaleidoscopeFrontEnd.Proofs.Tokenizing
import Mathlib.Data.List.Basic

namespace KaleidoscopeFrontEnd

def Closed (w : List Char) : Prop := ∀ c ∈ w.getLast?, c = '\n'

theorem closed_line (body : List Char) : Closed (body ++ ['\n']) := by
  intro c last
  rw [List.getLast?_concat] at last
  exact (Option.some.inj last).symm

theorem Closed.behind (closed : Closed (w ++ v)) : Closed v := by
  intro c last
  refine closed c ?_
  rw [List.getLast?_append,Option.mem_def.mp last]
  rfl

theorem Closed.append (closed : Closed v) (before : Closed w) : Closed (w ++ v) := by
  cases v with
  | nil => rwa [List.append_nil]
  | cons c v =>
      intro d last
      rw [List.getLast?_append_of_ne_nil w (List.cons_ne_nil c v)] at last
      exact closed d last

-- Comments and lexemes end with their line at the latest, so they do not reach beyond such a text.

theorem FinalLayout.ended (final : FinalLayout g) (closed : Closed g) : Layout g := by
  cases final with
  | closed layout => exact layout
  | @comment w body before inner =>
      have last := closed.behind
      cases body using List.reverseRecOn with
      | nil => exact absurd (last '#' rfl) (by decide)
      | append_singleton body c =>
          rw [← List.cons_append] at last
          have feed := last c List.getLast?_concat
          exact absurd (by simp [feed]) inner

theorem feed_prolongs (first : Char) : prolongs first '\n' = false := by
  have letter : isLetter '\n' = false := by decide +kernel
  have literal : isLiteralChar '\n' = false := by decide +kernel
  simp only [prolongs,letter,literal,Bool.and_false,ite_self]

theorem Reads.no_feed (reads : Reads w rest result) : '\n' ∉ w := by
  obtain ⟨first,later,rfl,solid,run,_⟩ := reads
  intro member
  rcases List.mem_cons.mp member with here | behind
  · exact solid.no_feed here.symm
  · have prolonged := run.inside '\n' behind
    rw [feed_prolongs] at prolonged
    cases prolonged

theorem Reads.rest_nonempty (reads : Reads w rest result) (closed : Closed (w ++ rest)) : rest ≠ [] := by
  rintro rfl
  rw [List.append_nil] at closed
  have last := List.getLast?_eq_some_getLast reads.nonempty
  have feed := closed _ last
  exact reads.no_feed (feed ▸ List.getLast_mem reads.nonempty)

theorem Reads.extend (reads : Reads w rest result) (nonempty : rest ≠ []) (more : List Char) :
    Reads w (rest ++ more) result := by
  obtain ⟨first,later,split,solid,run,classified⟩ := reads
  refine ⟨first,later,split,solid,⟨run.inside,?_⟩,classified⟩
  rw [List.head?_append_of_ne_nil rest nonempty]
  exact run.ends

theorem solid_reads (solid : Solid first) (later : List Char) : ∃ w rest result, first :: later = w ++ rest ∧
    Reads w rest result ∧ ∀ location, (Cursor.delivered w location result).isEnd = false := by
  obtain ⟨w,rest,split,⟨kind,value,lexeme⟩ | broken⟩ := solid_lexeme solid later
  · exact ⟨w,rest,_,split,lexeme_reads lexeme,fun location => decide_eq_false lexeme.kind_inner⟩
  · exact ⟨w,rest,_,split,malformed_reads broken,fun location => rfl⟩

namespace Cursor

variable {c : Cursor}

theorem next_layout (split : c.rest = g ++ later) (layout : Layout g) : c.next = (c.past g later).next := by
  have same : c.skipLayout = (c.past g later).skipLayout := by
    rw [skipLayout,split,split_layout layout,skipLayout,past_append]
    rfl
  rw [next,next,same]

theorem Drains.of_next {d : Cursor} (drains : Drains c all stop) (same : c.next = d.next) : Drains d all stop := by
  cases drains with
  | last pulled ended => exact .last (same ▸ pulled) ended
  | event pulled more later => exact .event (same ▸ pulled) more later

theorem Drains.first {e : LexicalEvent} (drains : Drains c all stop) (pulled : c.next = (e,after))
    (more : e.isEnd = false) : ∃ later, all = e :: later ∧ Drains after later stop := by
  cases drains with
  | last found ended =>
      cases found.symm.trans pulled
      cases ended.symm.trans more
  | event found _ later =>
      cases found.symm.trans pulled
      exact ⟨_,rfl,later⟩

theorem Drains.restart (drains : Drains c all stop) (closed : Closed w) (split : c.rest = w ++ later) :
    ∃ first second behind, all = first ++ second ∧ Drains { c with rest := w } first behind ∧
      Drains (c.past w later) second stop := by
  induction size : w.length using Nat.strong_induction_on generalizing c w all with
  | _ size ih =>
      subst size
      rcases layout_then_solid w with final | ⟨g,start,tail,parts,layout,solid⟩
      · have pull := Pull.last (c := { c with rest := w }) final
        exact ⟨[],all,_,rfl,.last pull.next rfl,drains.of_next (next_layout split (final.ended closed))⟩
      · obtain ⟨v,rest,result,here,reads,inner⟩ := solid_reads solid tail
        rw [here,← List.append_assoc] at parts
        have closedRest : Closed (v ++ rest) := by
          rw [parts,List.append_assoc] at closed
          exact closed.behind
        -- The line feed at the end stands behind the lexeme, so no later text prolongs it.
        have nonempty := reads.rest_nonempty closedRest
        have alone := next_reads (c := { c with rest := w }) parts layout reads
        have whole : c.rest = g ++ v ++ (rest ++ later) := by rw [split,parts,List.append_assoc]
        have pulled := next_reads whole layout (reads.extend nonempty later)
        obtain ⟨events,rfl,behind⟩ := drains.first pulled (inner _)
        have shorter : rest.length < w.length := by
          have positive := List.length_pos_iff.mpr reads.nonempty
          rw [parts,List.length_append,List.length_append]
          omega
        obtain ⟨first,second,last,rfl,front,back⟩ := ih _ shorter behind closedRest.behind rfl rfl
        refine ⟨_ :: first,second,last,rfl,.event alone (inner _) front,?_⟩
        rwa [past_append,← parts] at back

end Cursor

section Shifted

variable (lines characters : Nat)

def Location.shifted (l : Location) : Location :=
  { l with line := l.line + lines, offset := l.offset + characters }

def Position.shifted (p : Position) : Position := ⟨p.line + lines,p.column,p.offset + characters⟩

def Token.shifted (t : Token) : Token := { t with location := t.location.map (.shifted lines characters) }

def LexicalEvent.shifted : LexicalEvent → LexicalEvent
  | .ok t => .ok (t.shifted lines characters)
  | .error fault => .error { fault with location := fault.location.map (.shifted lines characters) }

def Cursor.shifted (c : Cursor) : Cursor := { c with position := c.position.shifted lines characters }

theorem past_shifted (p : Position) (w : List Char) :
    (p.shifted lines characters).past w = (p.past w).shifted lines characters := by
  induction w generalizing p with
  | nil => rfl
  | cons c w ih =>
      have step : (p.shifted lines characters).after c = (p.after c).shifted lines characters := by
        unfold Position.after
        split <;> simp only [Position.shifted,Nat.add_right_comm]
      simp only [Position.past,List.foldl_cons] at ih ⊢
      rw [step]
      exact ih (p.after c)

namespace Cursor

variable {c : Cursor}

theorem shifted_past (c : Cursor) (w rest : List Char) :
    (c.shifted lines characters).past w rest = (c.past w rest).shifted lines characters := by
  simp only [shifted,past,past_shifted]

theorem shifted_location (c : Cursor) : (c.shifted lines characters).location = c.location.shifted lines characters := by
  simp only [location,shifted,Position.shifted,Position.inFile,Location.shifted,Int.natCast_add]

theorem Pull.shifted (pull : Pull c e after) :
    Pull (c.shifted lines characters) (e.shifted lines characters) (after.shifted lines characters) := by
  cases pull with
  | last final =>
      have pull := Pull.last (c := c.shifted lines characters) final
      rwa [shifted_past,endToken,shifted_location] at pull
  | token split layout lexeme =>
      have pull := Pull.token (c := c.shifted lines characters) split layout lexeme
      rwa [shifted_past,shifted_past,shifted_location] at pull
  | malformed split layout broken =>
      have pull := Pull.malformed (c := c.shifted lines characters) split layout broken
      rwa [shifted_past,shifted_past,shifted_location] at pull

theorem Drains.shifted (drains : Drains c all stop) : Drains (c.shifted lines characters)
    (all.map (.shifted lines characters)) (stop.shifted lines characters) := by
  induction drains with
  | last pulled ended => exact .last ((next_exact.mp pulled).shifted lines characters).next ended
  | @event c e after all stop pulled more later ih =>
      refine .event ((next_exact.mp pulled).shifted lines characters).next ?_ ih
      cases e <;> exact more

end Cursor

end Shifted

namespace Cursor

theorem Drains.unique {c : Cursor} (drains : Drains c all stop) (other : Drains c others final) :
    all = others ∧ stop = final := by
  obtain ⟨same,ends⟩ := List.append_inj' (drains.events.symm.trans other.events) rfl
  cases ends
  exact ⟨same,rfl⟩

theorem Drains.inner {c : Cursor} (drains : Drains c all stop) : ∀ e ∈ all, LexicalEvent.isEnd e = false := by
  induction drains with
  | last => exact fun e member => absurd member List.not_mem_nil
  | event pulled more later ih => exact List.forall_mem_cons.mpr ⟨more,ih⟩

theorem Drains.ended {c : Cursor} (drains : Drains c all stop) : stop.isEnd = true := by
  induction drains with
  | last pulled ended => exact ended
  | event pulled more later ih => exact ih

theorem drained (file : String) (source : List Char) : ∃ all stop, Drains (start file source) all stop := by
  obtain ⟨all,stop,drains,_⟩ := (start_stands file source).tiled
  exact ⟨all,stop,drains⟩

theorem closed_past (closed : Closed w) : Position.origin.past w = Position.origin.shifted (w.count '\n') w.length := by
  have column : w.reverse.takeWhile (fun c => c != '\n') = [] := by
    cases w using List.reverseRecOn with
    | nil => rfl
    | append_singleton w c =>
        rw [closed c List.getLast?_concat,List.reverse_append]
        rfl
  rw [past_origin,column]
  simp only [Position.shifted,Position.origin,List.length_nil,Nat.add_zero,Nat.zero_add]

theorem start_past (file : String) (closed : Closed w) (later : List Char) :
    (start file (w ++ later)).past w later = (start file later).shifted (w.count '\n') w.length := by
  simp only [start,past,shifted,closed_past closed]

-- A text behind a closed one is turned into what it is turned into alone, so many lines and
-- characters further on.
theorem restarts (file : String) (closed : Closed w) (later : List Char)
    (first : Drains (start file w) front last) (second : Drains (start file later) back stop) :
    Drains (start file (w ++ later)) (front ++ back.map (.shifted (w.count '\n') w.length))
      (stop.shifted (w.count '\n') w.length) := by
  obtain ⟨all,final,drains⟩ := drained file (w ++ later)
  obtain ⟨before,behind,middle,rfl,alone,rest⟩ := drains.restart closed rfl
  rw [start_past file closed] at rest
  obtain ⟨rfl,_⟩ := alone.unique first
  obtain ⟨rfl,rfl⟩ := rest.unique (second.shifted _ _)
  exact drains

end Cursor

namespace Lexing

variable {c : Cursor}

theorem of_drains (drains : c.Drains (w.map .ok) stop) :
    (ofCursor c).tokens = w ∧ (ofCursor c).ending = .ok stop := by
  generalize delivered : w.map Except.ok = all at drains
  induction drains generalizing w with
  | last pulled ended =>
      rw [List.map_eq_nil_iff.mp delivered,of_cursor_last pulled ended]
      exact ⟨rfl,rfl⟩
  | event pulled more later ih =>
      cases w with
      | nil => cases delivered
      | cons t w =>
          obtain ⟨rfl,rest⟩ := List.cons.inj delivered
          obtain ⟨same,ending⟩ := ih rest
          rw [of_cursor_token pulled more]
          exact ⟨congrArg (t :: ·) same,ending⟩

theorem drains_of (drains : c.Drains all stop) (passed : (ofCursor c).ending = .ok last) :
    all = (ofCursor c).tokens.map .ok ∧ stop = last := by
  induction drains with
  | last pulled ended =>
      rw [of_cursor_last pulled ended] at passed ⊢
      cases passed
      exact ⟨rfl,rfl⟩
  | @event c e after all stop pulled more later ih =>
      cases e with
      | error fault =>
          rw [of_cursor_fault pulled] at passed
          cases passed
      | ok t =>
          rw [of_cursor_token pulled more] at passed ⊢
          obtain ⟨rfl,same⟩ := ih passed
          exact ⟨rfl,same⟩

end Lexing

end KaleidoscopeFrontEnd

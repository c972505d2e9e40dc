import KaleidoscopeFrontEnd.Proofs.Analyzed
import KaleidoscopeFrontEnd.Proofs.Appending
import KaleidoscopeFrontEnd.Proofs.FileRuns

namespace KaleidoscopeFrontEnd

-- Carriage returns stand in front of line feeds only, as where every line ends with the two of them.
def Paired (text : List Char) : Prop := ∀ i < text.length, text[i]? = some '\r' → text[i + 1]? = some '\n'

instance (text : List Char) : Decidable (Paired text) := inferInstanceAs (Decidable (∀ i < text.length, _))

inductive PairedEnds : List Char → Prop where
  | nil : PairedEnds []
  | other (c : Char) (plain : c ≠ '\r') (later : PairedEnds w) : PairedEnds (c :: w)
  | pair (later : PairedEnds w) : PairedEnds ('\r' :: '\n' :: w)

theorem Paired.behind (paired : Paired (w ++ v)) : Paired v := by
  intro i below found
  have there : (w ++ v)[w.length + i]? = some '\r' := by
    rw [List.getElem?_append_right (Nat.le_add_right _ _),Nat.add_sub_cancel_left]
    exact found
  have next := paired (w.length + i) (by rw [List.length_append]; omega) there
  rwa [Nat.add_assoc,List.getElem?_append_right (Nat.le_add_right _ _),Nat.add_sub_cancel_left] at next

theorem Paired.front (paired : Paired (w ++ v)) (apart : v.head? ≠ some '\n') : Paired w := by
  intro i below found
  have next := paired i (by rw [List.length_append]; omega) (by rw [List.getElem?_append_left below]; exact found)
  rcases Nat.lt_or_ge (i + 1) w.length with inside | outside
  · rwa [List.getElem?_append_left inside] at next
  · have first : i + 1 - w.length = 0 := by omega
    rw [List.getElem?_append_right outside,first,← List.head?_eq_getElem?] at next
    exact absurd next apart

theorem Paired.ends (paired : Paired text) : PairedEnds text := by
  induction size : text.length using Nat.strong_induction_on generalizing text with
  | _ size ih =>
      subst size
      cases text with
      | nil => exact .nil
      | cons c text =>
          by_cases plain : c = '\r'
          · subst plain
            obtain ⟨later,rfl⟩ := List.head?_eq_some_iff.mp (List.head?_eq_getElem?.trans (paired 0 (by simp) rfl))
            have behind : Paired later := Paired.behind (w := ['\r','\n']) paired
            exact .pair (ih _ (by simp) behind rfl)
          · have behind : Paired text := Paired.behind (w := [c]) paired
            exact .other c plain (ih _ (by simp) behind rfl)

def withoutReturns (text : List Char) : List Char := text.filter (· != '\r')

theorem returns_append (w v : List Char) : withoutReturns (w ++ v) = withoutReturns w ++ withoutReturns v :=
  List.filter_append w v

theorem return_kept (plain : c ≠ '\r') (later : List Char) :
    withoutReturns (c :: later) = c :: withoutReturns later :=
  List.filter_cons_of_pos (bne_iff_ne.mpr plain)

theorem no_returns (none : '\r' ∉ w) : withoutReturns w = w :=
  List.filter_eq_self.mpr fun _ member => bne_iff_ne.mpr fun same => none (same ▸ member)

theorem unify_paired (ends : PairedEnds text) : unifyLineEnds text = withoutReturns text := by
  induction ends with
  | nil => rfl
  | other c plain later ih => rw [return_kept plain,unifyLineEnds.eq_3 _ _ fun _ same => absurd same plain,if_neg plain,ih]
  | pair later ih =>
      rw [unifyLineEnds,ih]
      rfl

structure Lags (returns : Nat) (q p : Position) : Prop where
  line : q.line = p.line
  column : q.column = p.column
  offset : q.offset + returns = p.offset

theorem after_lags (lags : Lags n q p) (c : Char) : Lags n (q.after c) (p.after c) := by
  obtain ⟨line,column,offset⟩ := lags
  unfold Position.after
  split
  · exact ⟨congrArg (· + 1) line,rfl,(Nat.add_right_comm _ _ _).trans (congrArg (· + 1) offset)⟩
  · exact ⟨line,congrArg (· + 1) column,(Nat.add_right_comm _ _ _).trans (congrArg (· + 1) offset)⟩

-- A carriage return has nothing but its line feed behind it on the line, so no column shows it.
theorem past_lags (ends : PairedEnds w) (lags : Lags n q p) :
    Lags (n + w.count '\r') (q.past (withoutReturns w)) (p.past w) := by
  induction ends generalizing n q p with
  | nil => exact lags
  | @other w c plain later ih =>
      rw [return_kept plain,List.count_cons_of_ne plain]
      exact ih (after_lags lags c)
  | @pair w later ih =>
      have further : q.offset + 1 + (n + 1) = p.offset + 1 + 1 := by
        rw [← lags.offset]
        omega
      have feed : Lags (n + 1) (q.after '\n') ((p.after '\r').after '\n') :=
        ⟨congrArg (· + 1) lags.line,rfl,further⟩
      have counted : n + ('\r' :: '\n' :: w).count '\r' = n + 1 + w.count '\r' := by
        rw [List.count_cons_self,List.count_cons_of_ne (by decide)]
        omega
      rw [counted]
      exact ih feed

def Location.withoutReturns (file : String) (source : List Char) (l : Location) : Location :=
  { l with file := file, offset := l.offset - (source.take l.offset.toNat).count '\r' }

theorem place_lags (file name : String) (paired : Paired before) (later : List Char) :
    place file (withoutReturns (before ++ later)) (withoutReturns before).length =
      (place name (before ++ later) before.length).withoutReturns file (before ++ later) := by
  have here (file : String) (w v : List Char) : place file (w ++ v) w.length = (Position.origin.past w).inFile file := by
    rw [place,List.take_left,past_origin]
    rfl
  have lags := past_lags (n := 0) (q := .origin) paired.ends ⟨rfl,rfl,rfl⟩
  have offset := lags.offset
  have length : (Position.origin.past before).offset = before.length := by rw [past_origin]
  rw [Location.withoutReturns,returns_append,here,here]
  simp only [Position.inFile,lags.line,lags.column,length,Int.toNat_natCast,List.take_left] at offset ⊢
  congr 1
  omega

theorem Layout.without_returns (layout : Layout g) : Layout (withoutReturns g) := by
  induction layout with
  | nil => exact .nil
  | blank c blank later ih =>
      by_cases plain : c = '\r'
      · subst plain
        exact ih
      · rw [return_kept plain]
        exact .blank c blank ih
  | @comment body w inner later ih =>
      rw [List.cons_append,return_kept (by decide),returns_append,return_kept (by decide)]
      exact .comment (fun member => inner (List.mem_of_mem_filter member)) ih

theorem FinalLayout.without_returns (final : FinalLayout g) : FinalLayout (withoutReturns g) := by
  cases final with
  | closed layout => exact .closed layout.without_returns
  | comment before inner =>
      rw [returns_append,return_kept (by decide)]
      exact .comment before.without_returns fun member => inner (List.mem_of_mem_filter member)

theorem return_prolongs (first : Char) : prolongs first '\r' = false := by
  have letter : isLetter '\r' = false := by decide +kernel
  have literal : isLiteralChar '\r' = false := by decide +kernel
  simp only [prolongs,letter,literal,Bool.and_false,ite_self]

theorem Reads.no_return (reads : Reads w rest result) : '\r' ∉ w := by
  obtain ⟨first,later,rfl,solid,run,_⟩ := reads
  intro member
  rcases List.mem_cons.mp member with rfl | behind
  · exact absurd solid.1 (by decide)
  · have prolonged := run.inside '\r' behind
    rw [return_prolongs] at prolonged
    cases prolonged

theorem Reads.without_returns (reads : Reads w rest result) (paired : Paired rest) :
    Reads w (withoutReturns rest) result := by
  obtain ⟨first,later,split,solid,run,classified⟩ := reads
  refine ⟨first,later,split,solid,⟨run.inside,?_⟩,classified⟩
  cases paired.ends with
  | nil => exact run.ends
  | other c plain more =>
      rw [return_kept plain]
      exact run.ends
  | pair more =>
      intro c found
      cases found
      exact feed_prolongs first

section Relocated

variable (file : String) (source : List Char)

def Token.withoutReturns (t : Token) : Token := { t with location := t.location.map (.withoutReturns file source) }

def LexicalFault.withoutReturns (f : LexicalFault) : LexicalFault :=
  { f with location := f.location.map (.withoutReturns file source) }

def LexicalEvent.withoutReturns : LexicalEvent → LexicalEvent
  | .ok t => .ok (t.withoutReturns file source)
  | .error fault => .error (fault.withoutReturns file source)

end Relocated

namespace Cursor

open Scanned

variable {before rest : List Char}

theorem location_lags (file name : String) (paired : Paired before) (rest : List Char) :
    (cursor file (withoutReturns before) (withoutReturns rest)).location =
      (cursor name before rest).location.withoutReturns file (before ++ rest) := by
  rw [cursor_location,cursor_location,← returns_append]
  exact place_lags file name paired rest

theorem delivered_without_returns (file : String) (source w : List Char) (l : Location)
    (result : Option (TokenKind × Option TokenValue)) :
    (delivered w l result).withoutReturns file source = delivered w (l.withoutReturns file source) result := by
  cases result <;> rfl

theorem end_token_lags (file name : String) (paired : Paired (before ++ rest)) :
    ((cursor file (withoutReturns before) (withoutReturns rest)).past (withoutReturns rest) []).endToken =
      ((cursor name before rest).past rest []).endToken.withoutReturns file (before ++ rest) := by
  have there := location_lags file name paired []
  rw [List.append_nil] at there
  rw [cursor_past,cursor_past,← returns_append]
  exact congrArg (fun l => Token.endOfInput (some l)) there

theorem next_without_returns {g w tail : List Char} (reads : Reads w tail result) (layout : Layout g)
    (front : Paired (before ++ g)) (behind : Paired tail) (file name : String) :
    (cursor file (withoutReturns before) (withoutReturns (g ++ w ++ tail))).next =
      ((delivered w ((cursor name before (g ++ w ++ tail)).past g (w ++ tail)).location result).withoutReturns file
          (before ++ (g ++ w ++ tail)),
        cursor file (withoutReturns (before ++ (g ++ w))) (withoutReturns tail)) := by
  have word : withoutReturns w = w := no_returns reads.no_return
  have split : withoutReturns (g ++ w ++ tail) = withoutReturns g ++ w ++ withoutReturns tail := by
    rw [returns_append,returns_append,word]
  have pulled := next_reads (c := cursor file (withoutReturns before) (withoutReturns (g ++ w ++ tail))) split
    layout.without_returns (reads.without_returns behind)
  have there := location_lags file name front (w ++ tail)
  rw [returns_append,returns_append,word] at there
  rw [pulled,cursor_past,cursor_past,cursor_past,there,delivered_without_returns,returns_append,returns_append,word]
  simp only [List.append_assoc]

theorem Drains.without_returns (drains : Drains (cursor name before rest) all stop) (paired : Paired (before ++ rest))
    (file : String) : Drains (cursor file (withoutReturns before) (withoutReturns rest))
      (all.map (.withoutReturns file (before ++ rest))) (stop.withoutReturns file (before ++ rest)) := by
  generalize here : cursor name before rest = c at drains
  induction drains generalizing before rest with
  | last pulled ended =>
      subst here
      obtain ⟨final,same,_⟩ := (next_exact.mp pulled).finished ended
      cases same
      have pull := Pull.last (c := cursor file (withoutReturns before) (withoutReturns rest)) final.without_returns
      have pulled := pull.next
      rw [show (cursor file (withoutReturns before) (withoutReturns rest)).rest = withoutReturns rest from rfl,
        end_token_lags file name paired] at pulled
      exact .last pulled rfl
  | @event c e after all stop pulled more later ih =>
      subst here
      obtain ⟨g,w,tail,result,split,layout,reads,rfl,rfl⟩ := (next_exact.mp pulled).reads more
      obtain rfl : rest = g ++ w ++ tail := split
      have apart : (w ++ tail).head? ≠ some '\n' := by
        obtain ⟨first,later,rfl,solid,_⟩ := reads
        exact fun feed => solid.no_feed (Option.some.inj feed)
      have whole : before ++ (g ++ w ++ tail) = before ++ g ++ (w ++ tail) := by simp only [List.append_assoc]
      have next : before ++ (g ++ w ++ tail) = before ++ (g ++ w) ++ tail := by simp only [List.append_assoc]
      have front := (whole ▸ paired : Paired (before ++ g ++ (w ++ tail))).front apart
      rw [next] at paired
      have continued := ih paired (cursor_past name before (g ++ w) _ tail).symm
      have pulled := next_without_returns reads layout front paired.behind file name
      refine .event pulled ?_ (next ▸ continued)
      rw [delivered_without_returns]
      cases result <;> exact more

theorem start_without_returns (paired : Paired source) (file name : String) :
    (start file (withoutReturns source)).events =
      (start name source).events.map (.withoutReturns file source) := by
  obtain ⟨all,stop,drains⟩ := drained name source
  have whole : Drains (cursor name [] source) all stop := drains
  have unreturned : Drains (start file (withoutReturns source)) _ _ := whole.without_returns paired file
  rw [drains.events,unreturned.events,List.map_append]
  rfl

end Cursor

theorem complete_events (file : String) (source : List Char) :
    (Lexing.ofText file source).complete = (Cursor.start file source).events.mapM id := by
  obtain ⟨all,stop,drains⟩ := Cursor.drained file source
  rw [drains.events,← drains.complete]
  rfl

theorem passed_without_returns (file : String) (source : List Char) (events : List LexicalEvent) :
    (events.map (LexicalEvent.withoutReturns file source)).mapM id =
      ((events.mapM id).mapError (·.withoutReturns file source)).map (List.map (·.withoutReturns file source)) := by
  induction events with
  | nil => rfl
  | cons e events ih =>
      rw [List.map_cons,List.mapM_cons,List.mapM_cons,ih]
      cases e with
      | error fault => rfl
      | ok t => cases events.mapM id <;> rfl

-- A number that was lexed is no NaN.
theorem Lexeme.equals_itself (lexeme : Lexeme w rest kind value) : (value == value) = true := by
  cases lexeme with
  | definition | external | opening | closing | comma => rfl
  | identifier | operator => exact decide_eq_true rfl
  | number run form => exact Bool.and_eq_true_iff.mpr ⟨decide_eq_true rfl,by rw [decide_eq_true rfl,Bool.true_or]⟩

theorem lexed_equals_itself (lexed : (Lexing.ofText file source).complete = .ok all) : ∀ t ∈ all, (t == t) = true := by
  obtain ⟨w,stop,drains,rfl⟩ := lexes_complete.mp lexed
  intro t member
  have value : (t.value == t.value) = true := by
    rcases List.mem_append.mp member with inner | last
    · obtain ⟨rest,lexeme⟩ := drains.spelled t (List.mem_map_of_mem inner)
      exact lexeme.equals_itself
    · rw [List.mem_singleton.mp last,drains.stop_place]
      rfl
  exact Bool.and_eq_true_iff.mpr ⟨decide_eq_true rfl,value⟩

-- How lines end has no meaning: where every carriage return belongs to a line feed, the file that holds a text is read
-- as the text is, but for the carriage returns in front of an offset.
theorem line_ends_meaningless (text : String) (paired : Paired text.toList) (file name : String) :
    let source := text.toList
    let unified := unifyLineEnds source
    let moved := Token.withoutReturns file source
    (unified = source.filter (· != '\r') ∧ textOfBytes text.toUTF8 = .ok unified) ∧
    (Cursor.start file unified).events = (Cursor.start name source).events.map (.withoutReturns file source) ∧
    (Lexing.ofText file unified).complete =
      ((Lexing.ofText name source).complete.mapError (·.withoutReturns file source)).map (List.map moved) ∧
    ∀ all, (Lexing.ofText name source).complete = .ok all → ∀ t ∈ all, (t == moved t) = true := by
  intro source unified moved
  have unreturned : unified = withoutReturns source := unify_paired paired.ends
  have events := Cursor.start_without_returns paired file name
  refine ⟨⟨unreturned,text_of_bytes text⟩,unreturned ▸ events,?_,fun all lexed t => lexed_equals_itself lexed t⟩
  rw [complete_events,complete_events,unreturned,events,passed_without_returns]

theorem line_ends_meaningless_comment :
    let text := "f # ;\r\n\r\n 1.2.3\r\nx"
    let source := text.toList
    Paired source ∧ (Cursor.start "b.ks" (unifyLineEnds source)).events =
      [.ok ⟨.identifier,"f",some (.text "f"),some ⟨"b.ks",1,1,0⟩⟩,.error ⟨"1.2.3",some ⟨"b.ks",3,2,8⟩⟩,
        .ok ⟨.identifier,"x",some (.text "x"),some ⟨"b.ks",4,1,14⟩⟩,.ok (.endOfInput (some ⟨"b.ks",4,2,15⟩))] := by
  intro text source
  have paired : Paired source := by decide +kernel
  have events := (line_ends_meaningless text paired "b.ks" "<string>").2.1
  refine ⟨paired,events.trans ?_⟩
  decide +kernel

end KaleidoscopeFrontEnd

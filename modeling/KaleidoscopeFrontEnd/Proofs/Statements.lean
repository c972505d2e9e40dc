import KaleidoscopeFrontEnd.Proofs.Language
import KaleidoscopeFrontEnd.Proofs.Meaning
import KaleidoscopeFrontEnd.Proofs.Restart
import KaleidoscopeFrontEnd.Session

namespace KaleidoscopeFrontEnd

theorem split_statement_append (seen : Bool) (text : List Char) :
    (splitStatement seen text).1 ++ (splitStatement seen text).2 = text := by
  induction text generalizing seen with
  | nil => rfl
  | cons c later ih =>
      simp only [splitStatement]
      split
      · rfl
      · rw [List.cons_append,ih]

theorem split_seen (more : (splitStatement true text).2 ≠ []) :
    ∃ body, (splitStatement true text).1 = body ++ ['\n'] ∧ '\n' ∉ body := by
  induction text with
  | nil => exact absurd rfl more
  | cons c later ih =>
      simp only [splitStatement,Bool.and_true,Bool.true_or] at more ⊢
      split at more
      · rename_i feed
        rw [if_pos feed,beq_iff_eq.mp feed]
        exact ⟨[],rfl,List.not_mem_nil⟩
      · rename_i other
        obtain ⟨body,split,inner⟩ := ih more
        rw [if_neg other,split]
        refine ⟨c :: body,rfl,List.not_mem_cons_of_ne_of_not_mem ?_ inner⟩
        exact fun feed => other (beq_iff_eq.mpr feed.symm)

theorem split_unseen (more : (splitStatement false text).2 ≠ []) : ∃ before body,
    (splitStatement false text).1 = before ++ (body ++ ['\n']) ∧ Closed before ∧ '\n' ∉ body ∧ ';' ∈ body := by
  induction text with
  | nil => exact absurd rfl more
  | cons c later ih =>
      simp only [splitStatement,Bool.and_false,Bool.false_eq_true,if_false,Bool.false_or] at more ⊢
      cases mark : c == ';' with
      | true =>
          rw [mark] at more
          obtain ⟨body,split,inner⟩ := split_seen more
          rw [split,beq_iff_eq.mp mark]
          refine ⟨[],';' :: body,rfl,?_,List.not_mem_cons_of_ne_of_not_mem (by decide) inner,List.mem_cons_self⟩
          exact fun d last => absurd last (by simp)
      | false =>
          rw [mark] at more
          obtain ⟨before,body,split,closed,inner,marked⟩ := ih more
          rw [split]
          by_cases feed : c = '\n'
          · subst feed
            exact ⟨'\n' :: before,body,rfl,closed.append (closed_line []),inner,marked⟩
          · cases before with
            | nil =>
                have other := List.not_mem_cons_of_ne_of_not_mem (Ne.symm feed) inner
                exact ⟨[],c :: body,rfl,closed,other,List.mem_cons_of_mem c marked⟩
            | cons d before =>
                refine ⟨c :: d :: before,body,rfl,?_,inner,marked⟩
                exact fun e last => closed e (by rwa [List.getLast?_cons_cons] at last)

def Lexes (file : String) (text : List Char) (w : List Token) : Prop :=
  ∃ stop, (Cursor.start file text).Drains (w.map .ok) stop

theorem lexes_exact : Lexes file text w ↔
    (Lexing.ofText file text).tokens = w ∧ ∃ stop, (Lexing.ofText file text).ending = .ok stop := by
  constructor
  · rintro ⟨stop,drains⟩
    obtain ⟨same,ending⟩ := Lexing.of_drains drains
    exact ⟨same,stop,ending⟩
  · rintro ⟨rfl,stop,ending⟩
    obtain ⟨all,last,drains⟩ := Cursor.drained file text
    obtain ⟨rfl,rfl⟩ := Lexing.drains_of drains ending
    exact ⟨last,drains⟩

theorem shifted_tokens {back : List LexicalEvent} {v : List Token}
    (tokens : back.map (LexicalEvent.shifted lines characters) = v.map .ok) :
    ∃ u : List Token, back = u.map .ok ∧ v = u.map (Token.shifted lines characters) := by
  induction back generalizing v with
  | nil => exact ⟨[],rfl,List.map_eq_nil_iff.mp tokens.symm⟩
  | cons e back ih =>
      cases v with
      | nil => cases tokens
      | cons t v =>
          obtain ⟨same,rest⟩ := List.cons.inj tokens
          obtain ⟨u,rfl,rfl⟩ := ih rest
          cases e with
          | error fault => cases same
          | ok s => cases same; exact ⟨s :: u,rfl,rfl⟩

theorem Lexes.parts (lexes : Lexes file (s ++ later) w) (closed : Closed s) : ∃ first second,
    Lexes file s first ∧ Lexes file later second ∧ w = first ++ second.map (Token.shifted (s.count '\n') s.length) := by
  obtain ⟨stop,drains⟩ := lexes
  obtain ⟨front,middle,before⟩ := Cursor.drained file s
  obtain ⟨back,last,behind⟩ := Cursor.drained file later
  obtain ⟨same,_⟩ := drains.unique (Cursor.restarts file closed later before behind)
  obtain ⟨first,v,rfl,rfl,rest⟩ := List.map_eq_append_iff.mp same
  obtain ⟨second,rfl,rfl⟩ := shifted_tokens rest.symm
  exact ⟨first,second,⟨middle,before⟩,⟨last,behind⟩,rfl⟩

theorem Lexes.located (lexes : Lexes file text w) :
    ∀ t ∈ w, ∃ offset < text.length, t.location = some (place file text offset) := by
  obtain ⟨stop,drains⟩ := lexes
  obtain ⟨all,last,others,tiled⟩ := (Cursor.start_stands file text).tiled
  obtain ⟨rfl,_⟩ := others.unique drains
  intro t member
  exact tiled.within (.ok t) (List.mem_map_of_mem member)

def Token.onLine (t : Token) (line : Nat) : Bool := t.location.any fun l => decide (l.line = (line : Int))

theorem on_line {t : Token} {file : String} {text : List Char} (located : t.location = some (place file text offset))
    (line : Nat) : t.onLine line = true ↔ line = 1 + (text.take offset).count '\n' := by
  rw [Token.onLine,located,Option.any_some,decide_eq_true_eq]
  constructor
  · intro same
    exact (Int.ofNat.inj same).symm
  · rintro rfl
    rfl

theorem Lexes.lines_above (lexes : Lexes file s w) (closed : Closed s) (beyond : s.count '\n' < line) :
    w.filter (Token.onLine · line) = [] := by
  refine List.filter_eq_nil_iff.mpr fun t member here => ?_
  obtain ⟨offset,inside,located⟩ := lexes.located t member
  have feeds := congrArg (List.count '\n') (List.take_append_drop offset s)
  have nonempty : s.drop offset ≠ [] := List.drop_eq_nil_iff.not.mpr (Nat.not_le.mpr inside)
  have last := List.getLast_mem nonempty
  rw [← List.take_append_drop offset s] at closed
  rw [closed.behind _ (List.getLast?_eq_some_getLast nonempty)] at last
  have positive := List.count_pos_iff.mpr last
  rw [List.count_append] at feeds
  rw [(on_line located line).mp here] at beyond
  omega

theorem Lexes.lines_below (lexes : Lexes file s w) (before : line ≤ lines) (characters : Nat) :
    (w.map (Token.shifted lines characters)).filter (Token.onLine · line) = [] := by
  refine List.filter_eq_nil_iff.mpr fun u listed here => ?_
  obtain ⟨t,member,rfl⟩ := List.mem_map.mp listed
  obtain ⟨offset,_,located⟩ := lexes.located t member
  rw [Token.onLine,Token.shifted,located,Option.map_some,Option.any_some,decide_eq_true_eq] at here
  simp only [Location.shifted,place] at here
  omega

theorem lines_shifted (w : List Token) (line lines characters : Nat) :
    (w.map (Token.shifted lines characters)).filter (Token.onLine · (line + lines)) =
      (w.filter (Token.onLine · line)).map (Token.shifted lines characters) := by
  have same : ∀ t : Token, (t.shifted lines characters).onLine (line + lines) = t.onLine line := by
    intro t
    cases located : t.location with
    | none => simp only [Token.onLine,Token.shifted,located,Option.map_none,Option.any_none]
    | some l =>
        simp only [Token.onLine,Token.shifted,located,Option.map_some,Option.any_some,Location.shifted,decide_eq_decide]
        omega
  rw [List.filter_map]
  simp only [Function.comp_def,same]

theorem Lexes.one_line (lexes : Lexes file (body ++ ['\n']) w) (inner : '\n' ∉ body) :
    w.filter (Token.onLine · 1) = w := by
  refine List.filter_eq_self.mpr fun t member => ?_
  obtain ⟨offset,inside,located⟩ := lexes.located t member
  refine (on_line located 1).mpr ?_
  rw [List.length_append,List.length_singleton] at inside
  rw [List.take_append_of_le_length (Nat.lt_succ_iff.mp inside)]
  have none : (body.take offset).count '\n' = 0 :=
    List.count_eq_zero.mpr fun member => inner (List.mem_of_mem_take member)
  rw [none]

-- A line with the terminator's character in it has the terminator for its last token.
def LinesTerminated (text : List Char) (w : List Token) : Prop :=
  ∀ before later, text = before ++ ';' :: later →
    ∃ t ∈ (w.filter (Token.onLine · (1 + before.count '\n'))).getLast?, Language.Terminator t

theorem lines_terminated_exact : LinesTerminated text w ↔ ∀ offset < text.length, text[offset]? = some ';' →
    ∃ t ∈ (w.filter (Token.onLine · (1 + (text.take offset).count '\n'))).getLast?, Language.Terminator t := by
  constructor
  · intro terminated offset inside found
    obtain ⟨_,here⟩ := List.getElem?_eq_some_iff.mp found
    refine terminated (text.take offset) (text.drop (offset + 1)) ?_
    rw [← here,← List.drop_eq_getElem_cons,List.take_append_drop]
  · rintro terminated before later rfl
    have last := terminated before.length (by simp) (by simp)
    rwa [List.take_left] at last

instance : Decidable (LinesTerminated text w) := decidable_of_iff' _ lines_terminated_exact

theorem LinesTerminated.behind
    (terminated : LinesTerminated (s ++ later) (first ++ second.map (Token.shifted (s.count '\n') n)))
    (closed : Closed s) (lexes : Lexes file s first) : LinesTerminated later second := by
  rintro before rest rfl
  obtain ⟨t,last,terminator⟩ := terminated (s ++ before) rest (List.append_assoc s before _).symm
  have line : 1 + (s ++ before).count '\n' = 1 + before.count '\n' + s.count '\n' := by
    rw [List.count_append]
    omega
  rw [line,List.filter_append,lines_shifted,lexes.lines_above closed (by omega),List.nil_append,List.getLast?_map] at last
  obtain ⟨u,found,rfl⟩ := Option.map_eq_some_iff.mp last
  exact ⟨u,found,terminator⟩

theorem LinesTerminated.ends (terminated : LinesTerminated (before ++ (body ++ ['\n']) ++ later)
      (first ++ second.map (Token.shifted ((before ++ (body ++ ['\n'])).count '\n') n)))
    (closed : Closed before) (inner : '\n' ∉ body) (marked : ';' ∈ body)
    (lexes : Lexes file (before ++ (body ++ ['\n'])) first) (behind : Lexes file later second) :
    ∃ w t, first = w ++ [t] ∧ Language.Terminator t := by
  obtain ⟨head,line,front,alone,rfl⟩ := lexes.parts closed
  obtain ⟨left,right,rfl⟩ := List.append_of_mem marked
  have whole : before ++ (left ++ ';' :: right ++ ['\n']) ++ later = before ++ left ++ ';' :: (right ++ '\n' :: later) := by
    simp only [List.append_assoc,List.cons_append,List.nil_append]
  have none : left.count '\n' = 0 := List.count_eq_zero.mpr fun member => inner (List.mem_append_left _ member)
  have place : 1 + (before ++ left).count '\n' = 1 + before.count '\n' := by rw [List.count_append,none,Nat.add_zero]
  have feeds : 1 + before.count '\n' ≤ (before ++ (left ++ ';' :: right ++ ['\n'])).count '\n' := by
    simp only [List.count_append,List.count_singleton_self]
    omega
  obtain ⟨t,last,terminator⟩ := terminated _ _ whole
  -- The tokens on the marked line are all of that line's and no others.
  rw [place,List.filter_append,List.filter_append,behind.lines_below feeds,front.lines_above closed (by omega),lines_shifted,
    alone.one_line inner,List.append_nil,List.nil_append] at last
  obtain ⟨w,found⟩ := List.getLast?_eq_some_iff.mp last
  exact ⟨head ++ w,t,by rw [found,List.append_assoc],terminator⟩

-- The tokens of statements one behind the other, their places aside. Each statement but the last
-- ends with a terminator.
inductive Parted (file : String) : List (List Char) → List Token → Prop where
  | nil : Parted file [] []
  | last (lexes : Lexes file s w) : Parted file [s] (w.map View.unplaced.token)
  | next (lexes : Lexes file s (w ++ [t])) (terminator : Language.Terminator t) (later : Parted file rest v) :
      Parted file (s :: rest) ((w ++ [t]).map View.unplaced.token ++ v)

theorem Lexes.parted (lexes : Lexes file text w) (terminated : LinesTerminated text w) :
    Parted file (statements text) (w.map View.unplaced.token) := by
  induction size : text.length using Nat.strong_induction_on generalizing text w with
  | _ size ih =>
      subst size
      cases text with
      | nil =>
          have empty : w = [] := by
            refine List.eq_nil_iff_forall_not_mem.mpr fun t member => ?_
            obtain ⟨offset,inside,_⟩ := lexes.located t member
            exact absurd inside (Nat.not_lt_zero offset)
          rw [empty,statements]
          exact .nil
      | cons c tail =>
          rw [statements]
          have whole := split_statement_append false (c :: tail)
          have shorter := split_statement_length false (c :: tail)
          cases more : (splitStatement false (c :: tail)).2 with
          | nil =>
              rw [more,List.append_nil] at whole
              rw [whole,statements]
              exact .last lexes
          | cons d rest =>
              have further : (splitStatement false (c :: tail)).2 ≠ [] := more ▸ List.cons_ne_nil d rest
              obtain ⟨before,body,split,closed,inner,marked⟩ := split_unseen further
              rw [more,split] at whole
              rw [← whole] at lexes terminated
              have ended : Closed (before ++ (body ++ ['\n'])) := (closed_line body).append closed
              obtain ⟨first,second,front,behind,rfl⟩ := lexes.parts ended
              obtain ⟨v,t,rfl,terminator⟩ := terminated.ends closed inner marked front behind
              rw [more] at shorter
              have later := ih _ (Nat.lt_succ_of_le shorter) behind (terminated.behind ended front) rfl
              rw [split,List.map_append,List.map_map]
              exact .next front terminator later

end KaleidoscopeFrontEnd

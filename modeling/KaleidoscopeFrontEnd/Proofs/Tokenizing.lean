import KaleidoscopeFrontEnd.Proofs.Positions

namespace KaleidoscopeFrontEnd

namespace Lexing

variable {c after : Cursor}

theorem of_cursor_last (pulled : c.next = (.ok t,after)) (ended : t.isEnd = true) :
    ofCursor c = ⟨[],.ok t,after⟩ := by
  rw [ofCursor,Cursor.pulls_last (by rw [pulled]; exact ended),pulled]
  simp only [ofPulls,ended,if_true]

theorem of_cursor_token (pulled : c.next = (.ok t,after)) (inner : t.isEnd = false) :
    ofCursor c = { ofCursor after with tokens := t :: (ofCursor after).tokens } := by
  rw [ofCursor,Cursor.pulls_more (by rw [pulled]; exact inner),pulled]
  simp only [ofPulls,inner,Bool.false_eq_true,if_false]
  rfl

theorem of_cursor_fault (pulled : c.next = (.error fault,after)) : ofCursor c = ⟨[],.error fault,after⟩ := by
  rw [ofCursor,Cursor.pulls_more (by rw [pulled]; rfl),pulled]
  rfl

theorem complete_token (pulled : c.next = (.ok t,after)) (inner : t.isEnd = false) :
    (ofCursor c).complete = (ofCursor after).complete.map (t :: ·) := by
  rw [of_cursor_token pulled inner,complete,complete]
  cases (ofCursor after).ending <;> rfl

end Lexing

def Token.Spelled (t : Token) : Prop := ∃ rest, Lexeme t.lexeme.toList rest t.kind t.value

theorem Cursor.Drains.spelled {c : Cursor} (drains : c.Drains all stop) : ∀ t, .ok t ∈ all → Token.Spelled t := by
  induction drains with
  | last => exact fun t nothing => absurd nothing List.not_mem_nil
  | event pulled more later ih =>
      intro t member
      rcases List.mem_cons.mp member with rfl | member
      · cases next_exact.mp pulled with
        | last final => cases more
        | @token g w behind kind value split layout lexeme => exact ⟨behind,by rwa [String.toList_ofList]⟩
      · exact ih t member

-- Reading a source from the left, lexeme by lexeme: the text read so far, its tokens and the rest.
inductive Scanned (file : String) (source : List Char) : List Char → List Token → List Char → Prop where
  | start : Scanned file source [] [] source
  | token (before : Scanned file source done tokens (g ++ w ++ rest)) (layout : Layout g)
      (lexeme : Lexeme w rest kind value) : Scanned file source (done ++ g ++ w)
        (tokens ++ [⟨kind,String.ofList w,value,some (place file source (done ++ g).length)⟩]) rest

namespace Scanned

variable {file : String} {source done rest : List Char} {tokens : List Token}

theorem whole (scanned : Scanned file source done tokens rest) : source = done ++ rest := by
  induction scanned with
  | start => rfl
  | token before layout lexeme ih =>
      rw [ih]
      simp only [List.append_assoc]

theorem inner (scanned : Scanned file source done tokens rest) : ∀ t ∈ tokens, t.isEnd = false := by
  induction scanned with
  | start => exact fun t member => absurd member List.not_mem_nil
  | token before layout lexeme ih =>
      intro t member
      rcases List.mem_append.mp member with earlier | last
      · exact ih t earlier
      · rw [List.mem_singleton.mp last]
        exact decide_eq_false lexeme.kind_inner

theorem ends (scanned : Scanned file source done tokens rest) :
    (∃ done tokens rest, Scanned file source done tokens rest ∧ FinalLayout rest) ∨
    ∃ done tokens g w rest, Scanned file source done tokens (g ++ w ++ rest) ∧ Layout g ∧ Malformed w rest := by
  induction size : rest.length using Nat.strong_induction_on generalizing done tokens rest with
  | _ size ih =>
      subst size
      rcases layout_then_solid rest with final | ⟨g,first,later,split,layout,solid⟩
      · exact .inl ⟨done,tokens,rest,scanned,final⟩
      · obtain ⟨w,behind,here,found⟩ := solid_lexeme solid later
        rw [split,here,← List.append_assoc] at scanned
        rcases found with ⟨kind,value,lexeme⟩ | broken
        · refine ih _ ?_ (scanned.token layout lexeme) rfl
          have positive := List.length_pos_iff.mpr (lexeme_reads lexeme).nonempty
          rw [split,here,List.length_append,List.length_append]
          omega
        · exact .inr ⟨done,tokens,g,w,behind,scanned,layout,broken⟩

def cursor (file : String) (done rest : List Char) : Cursor := ⟨file,Position.origin.past done,rest⟩

theorem cursor_past (file : String) (done w rest later : List Char) :
    (cursor file done rest).past w later = cursor file (done ++ w) later := by
  simp only [cursor,Cursor.past,Position.past,List.foldl_append]

theorem cursor_location (file : String) (done rest : List Char) :
    (cursor file done rest).location = place file (done ++ rest) done.length :=
  Cursor.Stands.location ⟨rfl,rfl⟩ rest

-- What was read is what pulling delivers up to the place that was reached.
theorem pulled (scanned : Scanned file source done tokens rest) :
    (Lexing.ofText file source).complete = (Lexing.ofCursor (cursor file done rest)).complete.map (tokens ++ ·) := by
  induction scanned with
  | start =>
      change (Lexing.ofCursor (cursor file [] source)).complete = _
      cases (Lexing.ofCursor (cursor file [] source)).complete <;> rfl
  | @token done tokens g w rest kind value before layout lexeme ih =>
      have pull := Cursor.Pull.token (c := cursor file done (g ++ w ++ rest)) rfl layout lexeme
      have step := Lexing.complete_token pull.next (decide_eq_false lexeme.kind_inner)
      have split : done ++ g ++ (w ++ rest) = source := by
        rw [before.whole]
        simp only [List.append_assoc]
      rw [cursor_past,cursor_location,split,cursor_past,← List.append_assoc] at step
      rw [ih,step]
      cases (Lexing.ofCursor (cursor file (done ++ g ++ w) rest)).complete with
      | error fault => rfl
      | ok later => exact congrArg Except.ok (List.append_cons _ _ _)

theorem complete_final (scanned : Scanned file source done tokens rest) (final : FinalLayout rest) :
    (Lexing.ofText file source).complete = .ok (tokens ++ [.endOfInput (some (place file source source.length))]) := by
  have pull := Cursor.Pull.last (c := cursor file done rest) final
  have ended := cursor_location file (done ++ rest) []
  rw [List.append_nil,← scanned.whole] at ended
  have last : ((cursor file done rest).past rest []).endToken =
      .endOfInput (some (place file source source.length)) := by
    rw [cursor_past,Cursor.endToken,← scanned.whole,ended]
  rw [scanned.pulled,Lexing.of_cursor_last pull.next rfl]
  exact congrArg (fun t => Except.ok (tokens ++ [t])) last

theorem complete_malformed (scanned : Scanned file source done tokens (g ++ w ++ rest)) (layout : Layout g)
    (broken : Malformed w rest) : (Lexing.ofText file source).complete =
      .error ⟨String.ofList w,some (place file source (done ++ g).length)⟩ := by
  have pull := Cursor.Pull.malformed (c := cursor file done (g ++ w ++ rest)) rfl layout broken
  have split : done ++ g ++ (w ++ rest) = source := by
    rw [scanned.whole]
    simp only [List.append_assoc]
  rw [scanned.pulled,Lexing.of_cursor_fault pull.next,cursor_past,cursor_location,split]
  rfl

end Scanned

-- Malformed literals apart every source is a sequence of longest lexemes, and its tokens are these and one end token;
-- the first literal that is malformed is reported at its start.
theorem complete_exact (file : String) (source : List Char) :
    (∀ fault, (Lexing.ofText file source).complete = .error fault ↔
      ∃ done tokens g w rest, Scanned file source done tokens (g ++ w ++ rest) ∧ Layout g ∧ Malformed w rest ∧
        fault = ⟨String.ofList w,some (place file source (done ++ g).length)⟩) ∧
    (∀ fault, (Lexing.ofText file source).complete = .error fault → fault.diagnostic.code = some "L003") ∧
    ∀ all, (Lexing.ofText file source).complete = .ok all ↔
      ∃ done tokens rest, Scanned file source done tokens rest ∧ FinalLayout rest ∧
        all = tokens ++ [.endOfInput (some (place file source source.length))] ∧ ∀ t ∈ tokens, t.isEnd = false := by
  have begun : Scanned file source [] [] source := .start
  refine ⟨fun fault => ⟨fun failed => ?_,?_⟩,fun _ _ => rfl,fun all => ⟨fun passed => ?_,?_⟩⟩
  · rcases begun.ends with ⟨done,tokens,rest,scanned,final⟩ | ⟨done,tokens,g,w,rest,scanned,layout,broken⟩
    · cases failed.symm.trans (scanned.complete_final final)
    · cases failed.symm.trans (scanned.complete_malformed layout broken)
      exact ⟨done,tokens,g,w,rest,scanned,layout,broken,rfl⟩
  · rintro ⟨done,tokens,g,w,rest,scanned,layout,broken,rfl⟩
    exact scanned.complete_malformed layout broken
  · rcases begun.ends with ⟨done,tokens,rest,scanned,final⟩ | ⟨done,tokens,g,w,rest,scanned,layout,broken⟩
    · cases passed.symm.trans (scanned.complete_final final)
      exact ⟨done,tokens,rest,scanned,final,rfl,scanned.inner⟩
    · cases passed.symm.trans (scanned.complete_malformed layout broken)
  · rintro ⟨done,tokens,rest,scanned,final,rfl,_⟩
    exact scanned.complete_final final

end KaleidoscopeFrontEnd

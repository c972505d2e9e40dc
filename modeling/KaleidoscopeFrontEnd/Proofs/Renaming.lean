import KaleidoscopeFrontEnd.Proofs.Relayout

namespace KaleidoscopeFrontEnd

def Location.inFile (l : Location) (file : String) : Location := { l with file := file }

def Token.inFile (t : Token) (file : String) : Token := { t with location := t.location.map (·.inFile file) }

def LexicalFault.inFile (f : LexicalFault) (file : String) : LexicalFault :=
  { f with location := f.location.map (·.inFile file) }

def SyntaxFault.inFile (f : SyntaxFault) (file : String) : SyntaxFault :=
  match f with
  | .unexpected expected t => .unexpected expected (t.inFile file)
  | .notExpression t => .notExpression (t.inFile file)
  | .commaInParameters t => .commaInParameters (t.inFile file)
  | .incomplete expected t => .incomplete expected (t.inFile file)

def Fault.inFile (f : Fault) (file : String) : Fault :=
  match f with
  | .lexical f => .lexical (f.inFile file)
  | .syntactic f => .syntactic (f.inFile file)

def Diagnostic.inFile (d : Diagnostic) (file : String) : Diagnostic :=
  { d with location := d.location.map (·.inFile file) }

theorem Fault.diagnostic_in_file (f : Fault) (file : String) : (f.inFile file).diagnostic = f.diagnostic.inFile file := by
  cases f with
  | lexical f => rfl
  | syntactic f => cases f <;> rfl

theorem Refusal.fault_in_file (reason : Refusal) (t : Token) (file : String) :
    reason.fault (t.inFile file) = (reason.fault t).inFile file := by
  cases reason <;> rfl

theorem unplaced_in_file (w : List Token) (file : String) :
    (w.map (·.inFile file)).map View.unplaced.token = w.map View.unplaced.token := by
  rw [List.map_map]
  rfl

theorem Scanned.inFile (scanned : Scanned file source done tokens rest) (other : String) :
    Scanned other source done (tokens.map (·.inFile other)) rest := by
  induction scanned with
  | start => exact .start
  | token before layout lexeme ih =>
      rw [List.map_append]
      exact ih.token layout lexeme

theorem Scanned.drains (scanned : Scanned file source done tokens rest) (final : FinalLayout rest) :
    (Cursor.start file source).Drains (tokens.map .ok) (.endOfInput (some (place file source source.length))) := by
  obtain ⟨w,stop,drains,same⟩ := lexes_complete.mp (scanned.complete_final final)
  obtain ⟨rfl,last⟩ := List.append_inj' same rfl
  cases last
  exact drains

theorem closed_stop (inner : ∀ t ∈ w, t.isEnd = false) (ended : stop.isEnd = true) :
    (TokenStream.ofTokens (w ++ [stop])).stop = stop := by
  have passed : w.find? Token.isEnd = none :=
    List.find?_eq_none.mpr fun t member => Bool.eq_false_iff.mp (inner t member)
  rw [TokenStream.of_tokens_closed w ended,TokenStream.stop,TokenStream.ahead,List.drop_zero,List.find?_append,passed,
    List.find?_cons_of_pos ended]
  rfl

theorem Program.refused_in_file (refused : read w = .refused reason found later) (file : String) :
    read (w.map (·.inFile file)) = .refused reason (found.inFile file) (later.map (·.inFile file)) := by
  have seen := View.unplaced.read_seen (w.map (·.inFile file))
  have suffix := Machine.run_rest_suffix machine (.between []) w
  have other := Machine.run_rest_suffix machine (.between []) (w.map (·.inFile file))
  change (read w).rest <:+ w at suffix
  change (read _).rest <:+ _ at other
  rw [unplaced_in_file,View.read_seen,refused] at seen
  rw [refused] at suffix
  cases again : read (w.map (·.inFile file)) with
  | accepted | exhausted => rw [again] at seen; cases seen
  | refused reason' found' later' =>
      rw [again] at seen other
      obtain ⟨rfl,_,behind⟩ := Reply.refused.inj seen
      have alike := congrArg List.length behind
      rw [List.length_map,List.length_map] at alike
      have moved : (found :: later).map (·.inFile file) <:+ w.map (·.inFile file) := suffix.map _
      have length : (found' :: later').length = ((found :: later).map (·.inFile file)).length := by
        rw [List.length_map,List.length_cons,List.length_cons,alike]
      have same := (List.suffix_of_suffix_length_le other moved (Nat.le_of_eq length)).eq_of_length length
      cases same
      rfl

theorem Program.fault_in_file (failed : (read w).result stop = .error fault) (file : String) :
    (read (w.map (·.inFile file))).result (stop.inFile file) = .error (fault.inFile file) := by
  cases reading : read w with
  | accepted items rest => rw [reading] at failed; cases failed
  | refused reason found later =>
      rw [reading] at failed
      cases failed
      rw [refused_in_file reading]
      exact congrArg Except.error (reason.fault_in_file found file)
  | exhausted expected =>
      rw [reading] at failed
      cases failed
      have seen := View.unplaced.read_seen (w.map (·.inFile file))
      rw [unplaced_in_file,View.read_seen,reading] at seen
      cases again : read (w.map (·.inFile file)) with
      | accepted | refused => rw [again] at seen; cases seen
      | exhausted expected' =>
          rw [again] at seen
          cases seen
          rfl

theorem Scanned.analyzed (scanned : Scanned file source done tokens rest) (final : FinalLayout rest)
    (accepted : Program.read tokens = .accepted items []) : Analysis.ofText file source =
      .ok ⟨tokens ++ [.endOfInput (some (place file source source.length))],items⟩ := by
  rw [analysis_lexed (scanned.drains final),accepted]
  rfl

theorem Scanned.misread (scanned : Scanned file source done tokens rest) (final : FinalLayout rest)
    (failed : (Program.read tokens).result (.endOfInput (some (place file source source.length))) = .error fault) :
    Analysis.ofText file source = .error (.syntactic fault) := by
  rw [analysis_lexed (scanned.drains final),closed_stop scanned.inner rfl,failed]
  rfl

theorem Scanned.malformed (scanned : Scanned file source done tokens (g ++ w ++ rest)) (layout : Layout g)
    (broken : Malformed w rest) : Analysis.ofText file source =
      .error (.lexical ⟨String.ofList w,some (place file source (done ++ g).length)⟩) := by
  rw [Analysis.ofText,scanned.complete_malformed layout broken]
  rfl

namespace Session

-- The name of a file has no part in reading it.
theorem render_in_file (s : Session) (file other : String) (source : List Char) :
    s.render other source = (s.render file source).mapError (·.inFile other) := by
  have begun : Scanned file source [] [] source := .start
  rcases begun.ends with ⟨done,tokens,rest,scanned,final⟩ | ⟨done,tokens,g,w,rest,scanned,layout,broken⟩
  · have renamed := scanned.inFile other
    cases reading : (Program.read tokens).result (.endOfInput (some (place file source source.length))) with
    | ok items =>
        obtain ⟨behind,accepted⟩ := Reply.result_ok.mp reading
        obtain ⟨rfl,_⟩ := Program.read_derives accepted
        have prints : Prints tokens (items.map itemLine) := ⟨items,accepted,rfl⟩
        obtain ⟨others,again,printed⟩ := prints.unplaced (unplaced_in_file tokens other).symm
        have first := (render_exact (s := s)).mpr ⟨_,scanned.analyzed final accepted,rfl⟩
        have second := (render_exact (s := s)).mpr ⟨_,renamed.analyzed final again,rfl⟩
        rw [first,second,← printed,token_line_unplaced (unplaced_in_file tokens other)]
        rfl
    | error fault =>
        have failed := Program.fault_in_file reading other
        have first : s.render file source = .error _ := map_error.mpr (scanned.misread final reading)
        have second : s.render other source = .error _ := map_error.mpr (renamed.misread final failed)
        rw [first,second]
        rfl
  · have renamed := scanned.inFile other
    have first : s.render file source = .error _ := map_error.mpr (scanned.malformed layout broken)
    have second : s.render other source = .error _ := map_error.mpr (renamed.malformed layout broken)
    rw [first,second]
    rfl

end Session

end KaleidoscopeFrontEnd

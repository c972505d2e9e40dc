import KaleidoscopeFrontEnd.Proofs.TextLines
import KaleidoscopeFrontEnd.Proofs.Transcript

namespace KaleidoscopeFrontEnd

theorem Primary.finish_native (wanted : finish s = .error e) : e.Native := by
  have inside : ∀ operand levels, finishInside operand levels = .error e → e.Native := by
    intro operand levels wanted
    cases levels with
    | nil => cases wanted
    | cons level outer =>
        cases bracket : level.bracket <;> simp only [finishInside,bracket] at wanted <;> cases wanted <;> trivial
  obtain ⟨focus,levels⟩ := s
  cases focus with
  | operand | arguments => cases wanted; trivial
  | name | value => exact inside _ levels wanted

theorem Operands.finish_native (wanted : finish s = .error e) : e.Native := by
  cases s with
  | between => cases wanted
  | operand => exact Primary.finish_native (map_error.mp wanted)

theorem Expression.finish_native (wanted : finish s = .error e) : e.Native := by
  cases s with
  | first => exact Primary.finish_native wanted
  | operands => exact Operands.finish_native (map_error.mp wanted)

theorem Header.finish_native (wanted : finish s = .error e) : e.Native := by
  cases s with
  | closed => cases wanted
  | name | opening | parameters => cases wanted; trivial

theorem TopLevel.finish_native (wanted : finish s = .error e) : e.Native := by
  cases s with
  | start => cases wanted; trivial
  | definition k h last =>
      simp only [finish] at wanted
      cases header : Header.finish h with
      | error expected => rw [header] at wanted; cases wanted; exact Header.finish_native header
      | ok p => rw [header] at wanted; cases wanted; trivial
  | external => exact Header.finish_native (map_error.mp wanted)
  | body | expression => exact Expression.finish_native (map_error.mp wanted)

theorem Program.finish_native (wanted : finish s = .error e) : e.Native := by
  obtain ⟨items,current⟩ := s
  by_cases started : current = .start
  · subst started
    cases wanted
  · rw [finish_inside started items] at wanted
    exact TopLevel.finish_native (map_error.mp wanted)

theorem read_fault_native (failed : ((TokenStream.ofTokens tokens).apply Program.read).1 = .error fault) : fault.Native := by
  rcases read_fault_parts (Prod.ext failed rfl) with ⟨_,_,_,_,wanted,rfl⟩ | ⟨stopped,t,reason,_,refusal,rfl,_⟩
  · exact Program.finish_native wanted
  · have told := (Program.candid stopped).tells refusal
    cases reason with
    | unexpected expected => exact told.1
    | notExpression | commaInParameters => trivial

theorem Scanned.reached {file : String} {source done rest : List Char} {all before behind : List Token} {t : Token}
    (scanned : Scanned file source done all rest) (split : all = before ++ t :: behind) :
    ∃ done g w rest, Scanned file source done before (g ++ w ++ rest) ∧ Layout g ∧ Lexeme w rest t.kind t.value ∧
      t = ⟨t.kind,String.ofList w,t.value,some (place file source (done ++ g).length)⟩ := by
  induction scanned generalizing behind with
  | start => exact absurd split (by simp)
  | @token done tokens g w rest kind value earlier layout lexeme ih =>
      cases behind using List.reverseRecOn with
      | nil =>
          obtain ⟨rfl,last⟩ := List.append_inj' split rfl
          obtain ⟨rfl,_⟩ := List.cons.inj last
          exact ⟨done,g,w,rest,earlier,layout,lexeme,rfl⟩
      | append_singleton behind last =>
          rw [← List.cons_append,← List.append_assoc] at split
          exact ih (List.append_inj' split rfl).1

-- The first malformed literal comes before everything else. In a text that lexes it is the first token that no program
-- can have there, or the end if the tokens could go on but do not make a program.
inductive FaultAt (source : List Char) : Fault → Nat → Prop where
  | literal (scanned : Scanned inputName source done before (g ++ w ++ rest)) (layout : Layout g) (broken : Malformed w rest) :
      FaultAt source (.lexical ⟨String.ofList w,some (place inputName source (done ++ g).length)⟩) (done ++ g).length
  | token (complete : (Lexing.ofText inputName source).complete = .ok tokens)
      (failed : ((TokenStream.ofTokens tokens).apply Program.read).1 = .error fault)
      (scanned : Scanned inputName source done before (g ++ w ++ rest)) (layout : Layout g) (lexeme : Lexeme w rest kind value)
      (found : fault.found = ⟨kind,String.ofList w,value,some (place inputName source (done ++ g).length)⟩)
      (viable : Viable before) (rejected : ¬ Viable (before ++ [fault.found])) :
      FaultAt source (.syntactic fault) (done ++ g).length
  | ended (complete : (Lexing.ofText inputName source).complete = .ok tokens)
      (failed : ((TokenStream.ofTokens tokens).apply Program.read).1 = .error fault)
      (found : fault.found = .endOfInput (some (place inputName source source.length)))
      (viable : Viable (content tokens)) (unaccepted : ¬ Accepts tokens) : FaultAt source (.syntactic fault) source.length

theorem FaultAt.location (wrong : FaultAt source fault offset) :
    fault.diagnostic.location = some (place inputName source offset) := by
  cases wrong with
  | literal => rfl
  | token _ _ _ _ _ found => exact congrArg Token.location found
  | ended _ _ found => exact congrArg Token.location found

theorem FaultAt.unbroken (wrong : FaultAt source fault offset) : Unbroken fault.diagnostic.message := by
  cases wrong with
  | literal scanned layout broken =>
      refine LexicalFault.unbroken ?_
      rw [String.toList_ofList]
      exact fun c member => literal_solid (broken.run.inside c member)
  | token complete failed scanned layout lexeme found =>
      refine (read_fault_native failed).unbroken ?_
      rw [found,String.toList_ofList]
      exact lexeme.solid
  | ended complete failed found =>
      refine (read_fault_native failed).unbroken ?_
      rw [found]
      exact fun c nothing => absurd nothing List.not_mem_nil

theorem inner_parts {w : List Token} {k : Nat} (found : (w ++ [stop])[k]? = some t) (other : t ≠ stop) :
    ∃ behind, w = (w ++ [stop]).take k ++ t :: behind := by
  obtain ⟨bound,here⟩ := List.getElem?_eq_some_iff.mp found
  rw [List.length_append,List.length_singleton] at bound
  have inside : k < w.length := by
    refine Nat.lt_of_le_of_ne (Nat.le_of_lt_succ bound) ?_
    intro last
    subst last
    rw [List.getElem_concat_length rfl] at here
    exact other here.symm
  rw [List.getElem_append_left inside] at here
  refine ⟨w.drop (k + 1),?_⟩
  rw [List.take_append_of_le_length (Nat.le_of_lt inside),← here,← List.drop_eq_getElem_cons inside]
  exact (List.take_append_drop k w).symm

-- A reading that fails on the tokens of a text fails at one of them, and that one stands in the text.
theorem read_fault_located (scanned : Scanned inputName source done tokens rest) (final : FinalLayout rest)
    (failed : (TokenStream.ofTokens (tokens ++ [.endOfInput (some (place inputName source source.length))])).apply
      Program.read = (.error fault,s)) : ∃ offset, FaultAt source (.syntactic fault) offset := by
  have complete := scanned.complete_final final
  have reading := congrArg Prod.fst failed
  obtain ⟨here,incomplete,listed⟩ := TokenStream.read_fault_found failed
  rw [TokenStream.of_tokens_closed tokens rfl,← here] at listed
  rw [← here] at incomplete
  rcases read_fault_parts failed with
    ⟨stopped,expected,last,consumed,_,rfl⟩ | ⟨stopped,t,reason,consumed,refusal,rfl,inside,endless⟩
  · have ended := incomplete.mp rfl
    have found : last = .endOfInput (some (place inputName source source.length)) := by
      rcases List.mem_append.mp (List.mem_of_getElem? listed) with before | last
      · exact absurd ended (by rw [scanned.inner _ before]; exact Bool.false_ne_true)
      · exact List.mem_singleton.mp last
    refine ⟨_,.ended complete reading found (consumed_viable (content_endless _) consumed) ?_⟩
    intro ⟨items,accepted⟩
    rw [failed] at accepted
    cases accepted
  · have inner := content_endless _ t inside
    have found := (fault_found reason t).1
    rw [found] at listed
    have other : t ≠ .endOfInput (some (place inputName source source.length)) := by
      intro same
      rw [same] at inner
      cases inner
    obtain ⟨behind,split⟩ := inner_parts listed other
    obtain ⟨done,g,w,rest,reached,layout,lexeme,same⟩ := scanned.reached split
    have rejected := refused_not_viable consumed refusal endless inner []
    rw [← found] at rejected
    exact ⟨_,.token complete reading reached layout lexeme (found.trans same) (consumed_viable endless consumed) rejected⟩

theorem fault_located (failed : Analysis.ofText inputName source = .error fault) : ∃ offset, FaultAt source fault offset := by
  have begun : Scanned inputName source [] [] source := .start
  rcases begun.ends with ⟨done,tokens,rest,scanned,final⟩ | ⟨done,tokens,g,w,rest,scanned,layout,broken⟩
  · rw [analysis_complete (scanned.complete_final final)] at failed
    cases read : (TokenStream.ofTokens (tokens ++ [.endOfInput (some (place inputName source source.length))])).apply
        Program.read with
    | mk result s =>
        rw [read] at failed
        cases result with
        | ok items => cases failed
        | error refused =>
            cases failed
            exact read_fault_located scanned final read
  · rw [Analysis.ofText,scanned.complete_malformed layout broken] at failed
    cases failed
    exact ⟨_,.literal scanned layout broken⟩

theorem read_within (complete : (Lexing.ofText file source).complete = .ok tokens) :
    ((TokenStream.ofTokens tokens).apply Program.read).2.place < tokens.length := by
  obtain ⟨w,stop,drains,rfl⟩ := lexes_complete.mp complete
  have closed := TokenStream.of_tokens_closed w drains.ended
  have bound := TokenStream.of_tokens_within (w ++ [stop])
  rw [TokenStream.apply_exact,TokenStream.before]
  rw [closed] at bound ⊢
  exact Nat.lt_of_le_of_lt (Nat.sub_le _ _) bound

namespace Session

theorem analysis_lines (analyzed : Analysis.ofText inputName source = .ok a) (prompt : String) :
    textLines (evaluate ⟨prompt,false⟩ source) = a.items.map itemLine := by
  have rendered : render ⟨prompt,false⟩ inputName source = .ok (a.items.map itemLine) :=
    render_exact.mpr ⟨a,analyzed,rfl⟩
  rw [evaluate_rendered rendered]
  refine text_lines_joined ?_ (render_nonempty rendered)
  intro line member
  obtain ⟨i,inside,rfl⟩ := List.mem_map.mp member
  obtain ⟨printable,same⟩ := analysis_told analyzed inside
  have line := printable.unbroken
  rwa [itemLine,same] at line

theorem item_line_opens (i : Item) : "Parsed: (".toList <+: (itemLine i).toList := by
  unfold itemLine Item.sexpr
  cases i.body with
  | none => simp [Form.external]
  | some e => simp [Form.definition]

theorem evaluate_wrong (failed : Analysis.ofText inputName source = .error fault) (wrong : FaultAt source fault offset)
    (prompt : String) : evaluate ⟨prompt,false⟩ source =
      "Error: " ++ fault.diagnostic.message ++ " (at " ++ (place inputName source offset).text ++ ")" := by
  have rendered : render ⟨prompt,false⟩ inputName source = .error fault := map_error.mpr failed
  rw [evaluate_failed rendered,faultLine,wrong.location]

theorem located_unbroken (message : Unbroken m) (source : List Char) (offset : Nat) :
    Unbroken ("Error: " ++ m ++ " (at " ++ (place inputName source offset).text ++ ")") := by
  have label : Unbroken "Error: " := by decide
  have name : Unbroken inputName := by decide
  have colon : Unbroken ":" := by decide
  have line := (name.append colon).append (unbroken_integer (place inputName source offset).line)
  have text := (line.append colon).append (unbroken_integer (place inputName source offset).column)
  have before : Unbroken " (at " := by decide
  exact ((label.append message).append before).enclosed text

theorem evaluate_idle (idle : Idle source) (prompt : String) : evaluate ⟨prompt,false⟩ source = "" := by
  obtain ⟨w,stop,complete,ended,only⟩ := idle
  obtain ⟨v,last,drains,same⟩ := lexes_complete.mp complete
  obtain ⟨rfl,_⟩ := List.append_inj' same rfl
  have silent := prints_empty fun t member => Language.terminator_exact.mp (only t member)
  have rendered := (render_lexes (s := ⟨prompt,false⟩) rfl ⟨last,drains⟩).mpr silent
  rw [evaluate_rendered rendered]
  rfl

-- No text can break the answer: it is empty, or has one line for each item, or one line that tells what is wrong and
-- where. No item fails to be printed, no fault is without a place, and no reading looks behind the tokens.
theorem evaluate_lines (prompt : String) (source : List Char) :
    (evaluate ⟨prompt,false⟩ source = "" ↔ Idle source) ∧
    (match Analysis.ofText inputName source with
      | .ok a => Program.Readings (content a.tokens) a.items ∧
          textLines (evaluate ⟨prompt,false⟩ source) = a.items.map itemLine ∧
          ∀ i ∈ a.items, "Parsed: (".toList <+: (itemLine i).toList ∧ i.toNode.sexpr = .ok i.sexpr
      | .error fault => ∃ offset, FaultAt source fault offset ∧
          textLines (evaluate ⟨prompt,false⟩ source) = [evaluate ⟨prompt,false⟩ source] ∧
          evaluate ⟨prompt,false⟩ source =
            "Error: " ++ fault.diagnostic.message ++ " (at " ++ (place inputName source offset).text ++ ")") ∧
    ∀ tokens, (Lexing.ofText inputName source).complete = .ok tokens →
      ((TokenStream.ofTokens tokens).apply Program.read).2.place < tokens.length := by
  refine ⟨⟨?_,fun idle => evaluate_idle idle prompt⟩,?_,fun tokens => read_within⟩
  · intro empty
    apply Classical.byContradiction
    intro filled
    exact evaluate_nonempty filled empty
  · cases analyzed : Analysis.ofText inputName source with
    | ok a =>
        obtain ⟨w,stop,drains,tokens,read⟩ := analysis_exact.mp analyzed
        have inner : ∀ t ∈ w, t.isEnd = false := Lexes.inner ⟨stop,drains⟩
        have front : content a.tokens = w := by rw [tokens,content_append_end w drains.ended,content_self inner]
        refine ⟨?_,analysis_lines analyzed prompt,fun i _ => ⟨item_line_opens i,i.node_sexpr⟩⟩
        rw [front]
        exact Program.read_readings read
    | error fault =>
        obtain ⟨offset,wrong⟩ := fault_located analyzed
        have told := evaluate_wrong analyzed wrong prompt
        refine ⟨offset,wrong,?_,told⟩
        rw [told]
        exact text_lines_single (located_unbroken wrong.unbroken source offset) (by simp)

example : evaluate ⟨defaultPrompt,false⟩ "f(1\u2028 2)".toList =
    "Error: Expected ',' or ')' in argument list, found number '2' (at <stdin>:1:6)" := by decide +kernel

end Session

end KaleidoscopeFrontEnd

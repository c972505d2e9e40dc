import KaleidoscopeFrontEnd.Proofs.FileAnswers

namespace KaleidoscopeFrontEnd

namespace Session

def shownLine (tokens : List Token) : String :=
  "Lexed: [" ++ ", ".intercalate ((tokens.filter fun t => !t.isEnd).map Token.text) ++ "]"

theorem token_line_shown (complete : (Lexing.ofText file source).complete = .ok tokens) :
    tokenLine tokens = shownLine tokens := by
  obtain ⟨w,stop,drains,rfl⟩ := lexes_complete.mp complete
  have inner : ∀ t ∈ w, t.isEnd = false := Lexes.inner ⟨stop,drains⟩
  have kept : (w ++ [stop]).filter (fun t => !t.isEnd) = w := by
    rw [List.filter_append,List.filter_eq_self.mpr fun t member => by rw [inner t member]; rfl]
    simp [drains.ended]
  rw [tokenLine,shownLine,kept,List.dropLast_concat]

theorem render_shown (complete : (Lexing.ofText file source).complete = .ok tokens) (prompt : String) :
    render ⟨prompt,true⟩ file source = (render ⟨prompt,false⟩ file source).map (shownLine tokens :: ·) := by
  rw [← token_line_shown complete]
  unfold render
  rw [analysis_complete complete]
  cases ((TokenStream.ofTokens tokens).apply Program.read).1 <;> rfl

theorem render_accepts (complete : (Lexing.ofText file source).complete = .ok tokens) (s : Session) :
    (∃ lines, s.render file source = .ok lines) ↔ Accepts tokens := by
  unfold render Accepts
  rw [analysis_complete complete]
  cases ((TokenStream.ofTokens tokens).apply Program.read).1 with
  | error fault =>
      constructor
      · rintro ⟨lines,rendered⟩
        cases rendered
      · rintro ⟨items,read⟩
        cases read
  | ok items => exact iff_of_true ⟨_,rfl⟩ ⟨items,rfl⟩

theorem joined_behind (nonempty : "" ∉ lines) (line : String) : "\n".intercalate (line :: lines) =
    if "\n".intercalate lines = "" then line else line ++ "\n" ++ "\n".intercalate lines := by
  cases lines with
  | nil =>
      rw [String.intercalate_singleton]
      exact (if_pos rfl).symm
  | cons next later =>
      rw [if_neg (intercalate_nonempty (List.cons_ne_nil next later) nonempty),String.intercalate_cons_cons]

-- Showing the tokens adds one line in front of the answer, unless there is a fault: then the fault is told and nothing
-- else, though the tokens are known.
theorem shown_tokens (complete : (Lexing.ofText inputName source).complete = .ok tokens) (prompt : String) :
    let quiet := evaluate ⟨prompt,false⟩ source
    let shown := evaluate ⟨prompt,true⟩ source
    (Accepts tokens → shown = (if quiet = "" then shownLine tokens else shownLine tokens ++ "\n" ++ quiet) ∧
      textLines shown = shownLine tokens :: textLines quiet) ∧
    (¬ Accepts tokens → shown = quiet ∧ "Error:".toList <+: quiet.toList) := by
  intro quiet shown
  have added := render_shown complete prompt
  constructor
  · intro accepted
    obtain ⟨lines,rendered⟩ := (render_accepts complete ⟨prompt,false⟩).mpr accepted
    rw [rendered] at added
    have short : quiet = "\n".intercalate lines := evaluate_rendered rendered
    have long : shown = "\n".intercalate (shownLine tokens :: lines) := evaluate_rendered added
    constructor
    · rw [long,short]
      exact joined_behind (render_nonempty rendered) _
    · rw [(rendered_answer added).1,(rendered_answer rendered).1]
  · intro unaccepted
    cases rendered : render ⟨prompt,false⟩ inputName source with
    | ok lines => exact absurd ((render_accepts complete _).mp ⟨lines,rendered⟩) unaccepted
    | error fault =>
        rw [rendered] at added
        refine ⟨(evaluate_failed added).trans (evaluate_failed rendered).symm,?_⟩
        exact (evaluate_error rfl).mpr ⟨fault,rendered⟩

theorem shown_tokens_call : ∃ tokens, (Lexing.ofText inputName "f(1);".toList).complete = .ok tokens ∧ Accepts tokens ∧
    shownLine tokens = "Lexed: [IDENTIFIER('f'), LEFT_PAREN, NUMBER('1' -> 1.0), RIGHT_PAREN, OPERATOR(';')]" ∧
    textLines (evaluate ⟨defaultPrompt,true⟩ "f(1);".toList) =
      [shownLine tokens,"Parsed: (def anonymous () (call f 1))"] := by
  have analyzed : ((Analysis.ofText inputName "f(1);".toList).map fun a => shownLine a.tokens).toOption =
      some "Lexed: [IDENTIFIER('f'), LEFT_PAREN, NUMBER('1' -> 1.0), RIGHT_PAREN, OPERATOR(';')]" := by
    decide +kernel
  have quiet : textLines (evaluate ⟨defaultPrompt,false⟩ "f(1);".toList) = ["Parsed: (def anonymous () (call f 1))"] := by
    decide +kernel
  obtain ⟨a,analyzed,line⟩ := map_ok.mp (of_to_option analyzed)
  obtain ⟨w,stop,drains,tokens,_⟩ := analysis_exact.mp analyzed
  have complete := lexes_complete.mpr ⟨w,stop,drains,tokens⟩
  have accepted : Accepts a.tokens :=
    (render_accepts complete ⟨defaultPrompt,true⟩).mp ⟨_,render_exact.mpr ⟨a,analyzed,rfl⟩⟩
  refine ⟨a.tokens,complete,accepted,line,?_⟩
  rw [((shown_tokens complete defaultPrompt).1 accepted).2,quiet]

theorem fault_hides_tokens : ∃ tokens, (Lexing.ofText inputName "1 + ;".toList).complete = .ok tokens ∧
    shownLine tokens = "Lexed: [NUMBER('1' -> 1.0), OPERATOR('+'), OPERATOR(';')]" ∧
    evaluate ⟨defaultPrompt,false⟩ "1 + ;".toList = "Error: Expected expression, found operator ';' (at <stdin>:1:5)" ∧
    evaluate ⟨defaultPrompt,true⟩ "1 + ;".toList ≠
      shownLine tokens ++ "\n" ++ evaluate ⟨defaultPrompt,false⟩ "1 + ;".toList := by
  have lexed : ((Lexing.ofText inputName "1 + ;".toList).complete.map shownLine).toOption =
      some "Lexed: [NUMBER('1' -> 1.0), OPERATOR('+'), OPERATOR(';')]" := by
    decide +kernel
  have quiet : evaluate ⟨defaultPrompt,false⟩ "1 + ;".toList =
      "Error: Expected expression, found operator ';' (at <stdin>:1:5)" := by decide +kernel
  have shown : evaluate ⟨defaultPrompt,true⟩ "1 + ;".toList =
      "Error: Expected expression, found operator ';' (at <stdin>:1:5)" := by decide +kernel
  obtain ⟨tokens,complete,line⟩ := map_ok.mp (of_to_option lexed)
  refine ⟨tokens,complete,line,quiet,?_⟩
  rw [line,quiet,shown]
  decide +kernel

end Session

end KaleidoscopeFrontEnd

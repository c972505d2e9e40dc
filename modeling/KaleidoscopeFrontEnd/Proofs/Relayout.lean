import KaleidoscopeFrontEnd.Proofs.Agreement

namespace KaleidoscopeFrontEnd

-- Between two lexemes there is some layout; behind the last there may be none, or a comment that no line feed ends.
inductive Spread : List (List Char) → List Char → Prop where
  | last (final : FinalLayout g) : Spread [] g
  | lexeme (w : List Char) (layout : Layout g) (apart : later ≠ [] → g ≠ []) (spread : Spread later text) :
      Spread (w :: later) (w ++ g ++ text)

def LaidOut (lexemes : List (List Char)) (text : List Char) : Prop :=
  ∃ g body, text = g ++ body ∧ Layout g ∧ Spread lexemes body

theorem layout_not_solid (layout : Layout g) : ∀ c ∈ g.head?, ¬ Solid c := by
  intro c first solid
  cases layout with
  | nil => cases first
  | blank d blank later =>
      cases first
      rw [solid.1] at blank
      cases blank
  | comment inner later =>
      cases first
      exact solid.2 rfl

theorem final_not_solid (final : FinalLayout g) : ∀ c ∈ g.head?, ¬ Solid c := by
  cases final with
  | closed layout => exact layout_not_solid layout
  | @comment w body before inner =>
      intro c first solid
      rw [List.head?_append] at first
      cases w with
      | nil =>
          cases first
          exact solid.2 rfl
      | cons d w => exact layout_not_solid before c first solid

-- Nothing prolongs a lexeme but characters that start one, so any layout ends it.
theorem Lexeme.behind (lexeme : Lexeme w rest kind value) (ends : ∀ c ∈ other.head?, ¬ Solid c) :
    Lexeme w other kind value := by
  have word : ∀ {w : List Char}, Longest isLetter w rest → Longest isLetter w other := fun run =>
    ⟨run.inside,fun c first => Bool.eq_false_iff.mpr fun letter => ends c first (letter_solid letter)⟩
  cases lexeme with
  | definition run => exact .definition (word run)
  | external run => exact .external (word run)
  | identifier nonempty run definition external => exact .identifier nonempty (word run) definition external
  | number run form =>
      refine .number ⟨run.inside,fun c first => ?_⟩ form
      exact Bool.eq_false_iff.mpr fun literal => ends c first (literal_solid literal)
  | opening => exact .opening
  | closing => exact .closing
  | comma => exact .comma
  | operator solid letter digit other => exact .operator solid letter digit other

theorem Spread.behind (layout : Layout g) (apart : lexemes ≠ [] → g ≠ []) (spread : Spread lexemes text) :
    ∀ c ∈ (g ++ text).head?, ¬ Solid c := by
  cases spread with
  | last final => exact final_not_solid (layout.final final)
  | lexeme w gap between later =>
      rw [List.head?_append_of_ne_nil g (apart (List.cons_ne_nil _ _))]
      exact layout_not_solid layout

theorem Spread.drains {c : Cursor} {w : List Token} (spread : Spread (w.map fun t => t.lexeme.toList) body)
    (spelled : ∀ t ∈ w, t.Spelled) (split : c.rest = g ++ body) (layout : Layout g) :
    ∃ (v : List Token) (stop : Token), c.Drains (v.map .ok) stop ∧
      v.map View.unplaced.token = w.map View.unplaced.token := by
  induction w generalizing c g body with
  | nil =>
      cases spread with
      | last final =>
          have pull := Cursor.Pull.last (c := c) (split ▸ layout.final final)
          exact ⟨[],_,.last pull.next rfl,rfl⟩
  | cons t w ih =>
      obtain ⟨rest,lexeme⟩ := spelled t List.mem_cons_self
      cases spread with
      | @lexeme h _ text _ gap apart later =>
          rw [List.append_assoc,← List.append_assoc] at split
          have pull := Cursor.Pull.token split layout (lexeme.behind (later.behind gap apart))
          have others : ∀ u ∈ w, u.Spelled := fun u member => spelled u (List.mem_cons_of_mem t member)
          obtain ⟨v,stop,drains,same⟩ := ih (c := c.past (g ++ t.lexeme.toList) (h ++ text)) later others rfl gap
          refine ⟨_ :: v,stop,.event pull.next (decide_eq_false lexeme.kind_inner) drains,?_⟩
          rw [List.map_cons,List.map_cons,same,String.ofList_toList]
          rfl

theorem Cursor.Drains.last_unplaced {c : Cursor} (drains : c.Drains all stop) :
    View.unplaced.token stop = .endOfInput none := by
  induction drains with
  | last pulled ended =>
      obtain ⟨_,same,_⟩ := (next_exact.mp pulled).finished ended
      cases same
      rfl
  | event pulled more later ih => exact ih

theorem fault_unplaced (reason : Refusal) (same : View.unplaced.token t = View.unplaced.token u) :
    (reason.fault t).isIncomplete = (reason.fault u).isIncomplete ∧ (reason.fault t).code = (reason.fault u).code ∧
      (reason.fault t).message = (reason.fault u).message := by
  have described : (View.unplaced.token t).describe = (View.unplaced.token u).describe := congrArg Token.describe same
  cases reason with
  | unexpected expected => exact ⟨rfl,rfl,congrArg ("Expected " ++ expected.text ++ ", found " ++ ·) described⟩
  | notExpression => exact ⟨rfl,rfl,congrArg ("Expected expression, found " ++ ·) described⟩
  | commaInParameters => exact ⟨rfl,rfl,rfl⟩

theorem read_fault_unplaced {w v : List Token} (same : w.map View.unplaced.token = v.map View.unplaced.token)
    (failed : (Program.read w).result stop = .error f) (final : Token) : ∃ g,
      (Program.read v).result final = .error g ∧ f.isIncomplete = g.isIncomplete ∧ f.code = g.code ∧
        f.message = g.message := by
  have seen := View.unplaced.read_seen w
  rw [same,View.read_seen] at seen
  cases read : Program.read w with
  | accepted items rest => rw [read] at failed; cases failed
  | refused reason found later =>
      rw [read] at failed seen
      cases failed
      cases other : Program.read v with
      | accepted | exhausted => rw [other] at seen; cases seen
      | refused reason' found' later' =>
          rw [other] at seen
          obtain ⟨rfl,alike,_⟩ := Reply.refused.inj seen
          exact ⟨_,rfl,fault_unplaced _ alike.symm⟩
  | exhausted expected =>
      rw [read] at failed seen
      cases failed
      cases other : Program.read v with
      | accepted | refused => rw [other] at seen; cases seen
      | exhausted expected' =>
          rw [other] at seen
          cases seen
          exact ⟨_,rfl,rfl,rfl,rfl⟩

theorem map_unplaced {α : Type} {w v : List Token} (shown : Token → α)
    (blind : ∀ t, shown (View.unplaced.token t) = shown t)
    (same : w.map View.unplaced.token = v.map View.unplaced.token) : w.map shown = v.map shown := by
  have images := congrArg (List.map shown) same
  simpa only [List.map_map,Function.comp_def,blind] using images

theorem token_line_unplaced {w v : List Token} (same : w.map View.unplaced.token = v.map View.unplaced.token) :
    Session.tokenLine (w ++ [stop]) = Session.tokenLine (v ++ [final]) := by
  have texts := map_unplaced Token.text (fun _ => rfl) same
  rw [Session.tokenLine,Session.tokenLine,List.dropLast_concat,List.dropLast_concat,texts]

-- However the lexemes of a text are laid out, they are tokens of the same kinds and values, and what is printed is the
-- same, or a fault of the same class, code and message.
theorem layout_meaningless (lexed : (Lexing.ofText file source).complete = .ok all)
    (laid : LaidOut (all.dropLast.map fun t => t.lexeme.toList) text) (name : String) :
    (∃ others, (Lexing.ofText name text).complete = .ok others ∧
      others.map (fun t => (t.kind,t.lexeme,t.value)) = all.map fun t => (t.kind,t.lexeme,t.value)) ∧
    ∀ s : Session, (∃ lines, s.render file source = .ok lines ∧ s.render name text = .ok lines) ∨
      ∃ f g, s.render file source = .error (.syntactic f) ∧ s.render name text = .error (.syntactic g) ∧
        f.isIncomplete = g.isIncomplete ∧ f.code = g.code ∧ f.message = g.message := by
  obtain ⟨w,stop,drains,rfl⟩ := lexes_complete.mp lexed
  rw [List.dropLast_concat] at laid
  obtain ⟨g,body,rfl,layout,spread⟩ := laid
  have spelled : ∀ t ∈ w, t.Spelled := fun t member => drains.spelled t (List.mem_map_of_mem member)
  obtain ⟨v,last,again,same⟩ := spread.drains (c := .start name (g ++ body)) spelled rfl layout
  constructor
  · refine ⟨v ++ [last],lexes_complete.mpr ⟨v,last,again,rfl⟩,map_unplaced _ (fun _ => rfl) ?_⟩
    rw [List.map_append,List.map_append,same,List.map_singleton,List.map_singleton,again.last_unplaced,
      drains.last_unplaced]
  · intro s
    have first := analysis_lexed drains
    have second := analysis_lexed again
    cases read : (Program.read w).result (TokenStream.ofTokens (w ++ [stop])).stop with
    | ok items =>
        obtain ⟨rest,accepted⟩ := Reply.result_ok.mp read
        obtain ⟨rfl,_⟩ := Program.read_derives accepted
        have prints : Prints w (items.map Session.itemLine) := ⟨items,accepted,rfl⟩
        obtain ⟨others,reread,printed⟩ := prints.unplaced same.symm
        rw [accepted] at first
        rw [reread] at second
        refine .inl ⟨_,Session.render_exact.mpr ⟨_,first,rfl⟩,Session.render_exact.mpr ⟨_,second,?_⟩⟩
        rw [token_line_unplaced same,← printed]
    | error f =>
        obtain ⟨g,failed,alike⟩ := read_fault_unplaced same.symm read (TokenStream.ofTokens (v ++ [last])).stop
        rw [read] at first
        rw [failed] at second
        refine .inr ⟨f,g,?_,?_,alike⟩
        · rw [Session.render,first]
          rfl
        · rw [Session.render,second]
          rfl

theorem layout_meaningless_comments :
    let s : Session := ⟨"",true⟩
    let source := "f(1.)<x".toList
    let text := "# c\nf ( 1. )\n<# ;\nx #".toList
    let lines :=
      ["Lexed: [IDENTIFIER('f'), LEFT_PAREN, NUMBER('1.' -> 1.0), RIGHT_PAREN, OPERATOR('<'), IDENTIFIER('x')]",
        "Parsed: (def anonymous () (< (call f 1) x))"]
    ∃ all, (Lexing.ofText inputName source).complete = .ok all ∧
      LaidOut (all.dropLast.map fun t => t.lexeme.toList) text ∧
      s.render inputName source = .ok lines ∧ s.render inputName text = .ok lines := by
  intro s source text lines
  have read : ((Lexing.ofText inputName source).complete.toOption.map fun all =>
      all.dropLast.map fun t => t.lexeme.toList) = some [['f'],['('],['1','.'],[')'],['<'],['x']] := by decide +kernel
  obtain ⟨all,complete,lexemes⟩ := Option.map_eq_some_iff.mp read
  have lexed := of_to_option complete
  have rendered : s.render inputName source = .ok lines := by decide +kernel
  have space : Layout [' '] := .blank ' ' (by decide) .nil
  have feed : Layout ['\n'] := .blank '\n' (by decide) .nil
  have comment (body : List Char) (inner : '\n' ∉ body) : Layout ('#' :: body ++ ['\n']) := .comment inner .nil
  have filled : ∀ {c : Char} {w : List Char} {later : List (List Char)}, later ≠ [] → c :: w ≠ [] :=
    fun _ => List.cons_ne_nil _ _
  have spread : Spread [['f'],['('],['1','.'],[')'],['<'],['x']] _ :=
    .lexeme ['f'] space filled <| .lexeme ['('] space filled <| .lexeme ['1','.'] space filled <|
      .lexeme [')'] feed filled <| .lexeme ['<'] (comment [' ',';'] (by decide)) filled <|
      .lexeme ['x'] space filled <| .last (.comment .nil List.not_mem_nil)
  have laid : LaidOut (all.dropLast.map fun t => t.lexeme.toList) text := by
    rw [lexemes]
    exact ⟨_,_,by decide +kernel,comment [' ','c'] (by decide),spread⟩
  refine ⟨all,lexed,laid,rendered,?_⟩
  rcases (layout_meaningless lexed laid inputName).2 s with ⟨lines,first,second⟩ | ⟨f,g,failed,_⟩
  · cases rendered.symm.trans first
    exact second
  · cases rendered.symm.trans failed

end KaleidoscopeFrontEnd

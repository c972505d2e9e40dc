import KaleidoscopeFrontEnd.Proofs.Acceptance

namespace KaleidoscopeFrontEnd

variable {σ τ α β : Type}

-- What is complete is done in front of the token, and what is not refuses it.
inductive Alike : Except Expectation α → Move σ α → Prop where
  | complete (value : α) : Alike (.ok value) (.done value)
  | wanting (expected : Expectation) (reason : Refusal) : Alike (.error expected) (.refuse reason)

theorem Alike.and_then {finished : Except Expectation α} {moved : Move σ α} (alike : Alike finished moved)
    (inside : σ → τ) {next : α → Except Expectation β} {after : α → Move τ β}
    (behind : ∀ value, Alike (next value) (after value)) : Alike (finished.bind next) (moved.andThen inside after) := by
  cases alike with
  | complete value => exact behind value
  | wanting expected reason => exact .wanting expected reason

theorem Alike.map {finished : Except Expectation α} {moved : Move σ α} (alike : Alike finished moved)
    (inside : σ → τ) (result : α → β) :
    Alike (finished.map result) (moved.andThen inside fun value => .done (result value)) := by
  cases alike with
  | complete value => exact .complete (result value)
  | wanting expected reason => exact .wanting expected reason

structure Loose (t : Token) : Prop where
  kind : t.kind = .operator
  other : t.binaryOperator? = none

theorem terminator_loose (terminator : t.isTerminator = true) : Loose t :=
  ⟨(Token.terminator_parts terminator).1,Token.terminator_not_binary terminator⟩

namespace Primary

theorem begin_loose (loose : Loose t) (levels : List Level) : begin levels t = .error .notExpression := by
  simp only [begin,loose.kind]

theorem after_alike (loose : Loose t) (e : Expr) (levels : List Level) :
    Alike (finishInside e levels) (after e levels t) := by
  cases levels with
  | nil => exact .complete e
  | cons level outer =>
      cases bracket : level.bracket with
      | group =>
          simp only [finishInside,after,close,loose.other,loose.kind,bracket]
          exact .wanting _ _
      | arguments name earlier =>
          simp only [finishInside,after,close,loose.other,loose.kind,bracket]
          exact .wanting _ _

theorem alike (loose : Loose t) (s : State) : Alike (finish s) (step s t) := by
  obtain ⟨focus,levels⟩ := s
  cases focus with
  | operand =>
      simp only [finish,step,begin_loose loose]
      exact .wanting _ _
  | arguments name =>
      have inner : t.kind ≠ .closeParen := by rw [loose.kind]; decide
      simp only [finish,step,if_neg inner,begin_loose loose]
      exact .wanting _ _
  | name name =>
      have apart : t.kind ≠ .openParen := by rw [loose.kind]; decide
      simp only [finish,step,if_neg apart]
      exact after_alike loose _ levels
  | value e => exact after_alike loose e levels

end Primary

theorem Operands.between_loose (loose : Loose t) (least : Int) (read : List (BinaryOperator × Expr)) :
    between least read t = .done read := by
  simp only [between,loose.other]

theorem Operands.alike (loose : Loose t) (least : Int) (s : State) : Alike (finish s) (step least s t) := by
  cases s with
  | between read =>
      simp only [finish,step,between_loose loose]
      exact .complete read
  | operand read o p =>
      simp only [finish,step,between_loose loose]
      exact (Primary.alike loose p).map _ _

theorem Expression.alike (loose : Loose t) (s : State) : Alike (finish s) (step s t) := by
  cases s with
  | first p =>
      have alone : ∀ e, Alike (.ok e) (behind e (Operands.between 0 [] t)) := by
        intro e
        rw [Operands.between_loose loose]
        exact .complete e
      have ended := (Primary.alike loose p).and_then State.first alone
      simp only [finish,step]
      cases finished : Primary.finish p <;> rwa [finished] at ended
  | operands first o => exact (Operands.alike loose 0 o).map _ _

theorem Header.alike (loose : Loose t) (s : State) : Alike (finish s) (step s t) := by
  cases s with
  | name | opening =>
      simp only [finish,step,loose.kind,reduceCtorEq,if_false]
      exact .wanting _ _
  | parameters =>
      simp only [finish,step,loose.kind]
      exact .wanting _ _
  | closed prototype => exact .complete prototype

namespace TopLevel

theorem begin_loose (loose : Loose t) : begin t = .error .notExpression := by
  simp only [begin,loose.kind,beginExpression,Expression.begin,Primary.begin_loose loose]
  rfl

theorem alike (loose : Loose t) (s : State) : Alike (finish s) (step s t) := by
  cases s with
  | start =>
      simp only [finish,step,begin_loose loose]
      exact .wanting _ _
  | definition keyword header last =>
      refine (Header.alike loose header).and_then _ fun prototype => ?_
      simp only [Expression.begin,Primary.begin_loose loose]
      exact .wanting _ _
  | external keyword header last => exact (Header.alike loose header).map _ _
  | body keyword prototype e last | expression first e last => exact (Expression.alike loose e).map _ _

end TopLevel

namespace Program

-- Nothing goes on behind a terminator but the program: every state either has all its items then or
-- refuses it.
theorem terminator_step (terminator : t.isTerminator = true) (s : State) :
    (∃ items, machine.finish s = .ok items ∧ machine.step s t = .shift (.between items)) ∨
      ∃ expected reason, machine.finish s = .error expected ∧ machine.step s t = .refuse reason := by
  obtain ⟨items,current⟩ := s
  have between : ∀ items, machine.step (.between items) t = .shift (.between items) := by
    intro items
    simp only [machine,step,State.between,begin,terminator,if_true]
  by_cases start : current = .start
  · subst start
    exact .inl ⟨items,rfl,between items⟩
  · have alike := TopLevel.alike (terminator_loose terminator) current
    generalize finished : TopLevel.finish current = f, moved : TopLevel.step current t = m at alike
    cases alike with
    | complete i => exact .inl ⟨_,item_finish finished start items,(item_done moved start items).trans (between _)⟩
    | wanting expected reason =>
        refine .inr ⟨expected,reason,?_⟩
        simp only [machine,finish_inside start,step_inside start,finished,moved]
        exact ⟨rfl,rfl⟩

def State.carrying (earlier : List Item) (s : State) : State := ⟨earlier ++ s.items,s.current⟩

theorem begin_carrying (earlier items : List Item) (t : Token) : begin (earlier ++ items) t =
    (begin items t).andThen (.carrying earlier) fun all => .done (earlier ++ all) := by
  unfold begin
  cases t.isTerminator with
  | true => rfl
  | false => cases TopLevel.begin t <;> rfl

theorem step_carrying (earlier : List Item) (s : State) (t : Token) : step (s.carrying earlier) t =
    (step s t).andThen (.carrying earlier) fun all => .done (earlier ++ all) := by
  obtain ⟨items,current⟩ := s
  by_cases start : current = .start
  · subst start
    exact begin_carrying earlier items t
  · simp only [State.carrying,step_inside start]
    cases TopLevel.step current t with
    | shift next => rfl
    | done i =>
        simp only [Move.andThen,List.append_assoc]
        exact begin_carrying earlier (items ++ [i]) t
    | refuse reason => rfl

theorem finish_carrying (earlier : List Item) (s : State) :
    finish (s.carrying earlier) = (finish s).map (earlier ++ ·) := by
  obtain ⟨items,current⟩ := s
  by_cases start : current = .start
  · subst start
    rfl
  · simp only [State.carrying,finish_inside start]
    cases TopLevel.finish current <;> simp [Except.map]

theorem run_between (earlier : List Item) (tokens : List Token) :
    machine.run (.between earlier) tokens = (read tokens).map (earlier ++ ·) := by
  have carried : machine.run (State.carrying earlier (.between [])) (tokens.map id) =
      (machine.run (.between []) tokens).image (earlier ++ ·) id :=
    Machine.run_image _ _ id (step_carrying earlier) (finish_carrying earlier) _ tokens
  rwa [List.map_id,State.carrying,State.between,List.append_nil,Reply.image_id] at carried

variable {first second : List Token} {t : Token}

theorem read_accepted (terminator : t.isTerminator = true) (accepted : read first = .accepted items rest)
    (second : List Token) : read (first ++ t :: second) = (read second).map (items ++ ·) := by
  obtain ⟨w,stopped,rest,split,consumed,verdict⟩ := Machine.run_exact.mp accepted
  cases verdict with
  | done value => exact absurd value (step_not_done stopped _)
  | finished value =>
      rw [split,List.append_nil,read,Machine.run_consume consumed,Machine.run]
      rcases terminator_step terminator stopped with ⟨all,finished,shifted⟩ | ⟨expected,reason,finished,_⟩
      · cases finished.symm.trans value
        simp only [shifted]
        exact run_between items second
      · cases finished.symm.trans value

theorem read_refused (refused : read first = .refused reason found later) (behind : List Token) :
    read (first ++ behind) = .refused reason found (later ++ behind) := by
  obtain ⟨w,stopped,rest,split,consumed,verdict⟩ := Machine.run_exact.mp refused
  cases verdict with
  | refused refusal =>
      rw [split,List.append_assoc,read,Machine.run_consume consumed]
      exact (Machine.Verdict.refused refusal).run

theorem read_exhausted (terminator : t.isTerminator = true) (exhausted : read first = .exhausted expected)
    (second : List Token) : ∃ reason, read (first ++ t :: second) = .refused reason t second := by
  obtain ⟨w,stopped,rest,split,consumed,verdict⟩ := Machine.run_exact.mp exhausted
  cases verdict with
  | exhausted wanted =>
      rw [split,List.append_nil,read,Machine.run_consume consumed]
      rcases terminator_step terminator stopped with ⟨all,finished,_⟩ | ⟨other,reason,_,refusal⟩
      · cases finished.symm.trans wanted
      · exact ⟨reason,(Machine.Verdict.refused refusal).run⟩

theorem read_separated (terminator : t.isTerminator = true) : read (first ++ t :: second) = .accepted items [] ↔
    ∃ left right, read first = .accepted left [] ∧ read second = .accepted right [] ∧ items = left ++ right := by
  constructor
  · intro accepted
    cases reply : read first with
    | accepted left rest =>
        obtain ⟨rfl,_⟩ := read_derives reply
        rw [read_accepted terminator reply second] at accepted
        cases later : read second with
        | accepted right rest =>
            rw [later] at accepted
            cases accepted
            exact ⟨left,right,rfl,rfl,rfl⟩
        | refused | exhausted => rw [later] at accepted; cases accepted
    | refused reason found later =>
        rw [read_refused reply] at accepted
        cases accepted
    | exhausted expected =>
        obtain ⟨reason,refused⟩ := read_exhausted terminator reply second
        rw [refused] at accepted
        cases accepted
  · rintro ⟨left,right,accepted,later,rfl⟩
    rw [read_accepted terminator accepted second,later]
    rfl

end Program

def reading (tokens : List Token) : Except SyntaxFault (List Item) × TokenStream :=
  (TokenStream.ofTokens tokens).apply Program.read

theorem of_tokens_stop (endless : ∀ t ∈ tokens, t.isEnd = false) :
    (TokenStream.ofTokens tokens).stop = .endOfInput (tokens.getLast?.bind Token.location) := by
  unfold TokenStream.ofTokens
  cases last : tokens.getLast? with
  | none => rfl
  | some t =>
      have inner := endless t (List.mem_of_getLast? last)
      have none : tokens.find? Token.isEnd = none := by
        refine List.find?_eq_none.mpr fun u member => ?_
        rw [endless u member]
        exact Bool.false_ne_true
      simp only [inner,Bool.false_eq_true,if_false,TokenStream.stop,TokenStream.ahead,List.drop_zero,List.find?_append,
        none]
      rfl

theorem reading_exact (endless : ∀ t ∈ tokens, t.isEnd = false) : reading tokens =
    ((Program.read tokens).result (.endOfInput (tokens.getLast?.bind Token.location)),
      { TokenStream.ofTokens tokens with place := tokens.length - (Program.read tokens).rest.length }) := by
  rw [reading,TokenStream.apply_exact,TokenStream.of_tokens_unread,content_self endless,of_tokens_stop endless,
    TokenStream.before,TokenStream.of_tokens_body,content_self endless]

theorem reading_ok (endless : ∀ t ∈ tokens, t.isEnd = false) :
    (reading tokens).1 = .ok items ↔ Program.read tokens = .accepted items [] := by
  rw [reading_exact endless,Reply.result_ok]
  constructor
  · rintro ⟨rest,accepted⟩
    obtain ⟨rfl,_⟩ := Program.read_derives accepted
    exact accepted
  · exact fun accepted => ⟨[],accepted⟩

-- A fault says which of the two ways to fail it was, and with the place what was left unread.
theorem reading_malformed (endless : ∀ t ∈ tokens, t.isEnd = false) (failed : reading tokens = (.error fault,s))
    (malformed : fault.isIncomplete = false) : ∃ reason found later,
      Program.read tokens = .refused reason found later ∧ fault = reason.fault found ∧
        s.place = tokens.length - (found :: later).length := by
  rw [reading_exact endless] at failed
  cases read : Program.read tokens with
  | accepted items rest => rw [read] at failed; cases failed
  | refused reason found later =>
      rw [read] at failed
      cases failed
      exact ⟨reason,found,later,rfl,rfl,rfl⟩
  | exhausted expected =>
      rw [read] at failed
      cases failed
      cases malformed

theorem reading_incomplete (endless : ∀ t ∈ tokens, t.isEnd = false) (failed : reading tokens = (.error fault,s))
    (incomplete : fault.isIncomplete = true) : ∃ expected, Program.read tokens = .exhausted expected := by
  rw [reading_exact endless] at failed
  cases read : Program.read tokens with
  | accepted items rest => rw [read] at failed; cases failed
  | refused reason found later =>
      rw [read] at failed
      cases failed
      rw [(fault_found reason found).2] at incomplete
      cases incomplete
  | exhausted expected => exact ⟨expected,rfl⟩

variable {first second : List Token} {t : Token}

theorem separated_endless (before : ∀ u ∈ first, u.isEnd = false) (terminator : t.isTerminator = true)
    (behind : ∀ u ∈ second, u.isEnd = false) : ∀ u ∈ first ++ t :: second, u.isEnd = false := by
  have inner : t.isEnd = false := by
    rw [Token.isEnd,(Token.terminator_parts terminator).1]
    rfl
  exact List.forall_mem_append.mpr ⟨before,List.forall_mem_cons.mpr ⟨inner,behind⟩⟩

-- Both sides of a terminator are read as if they were alone, and the first fault is that of the side it is in; only
-- where the first side waits for more the terminator itself is what cannot follow.
theorem terminator_separates (before : ∀ u ∈ first, u.isEnd = false) (terminator : Language.Terminator t)
    (behind : ∀ u ∈ second, u.isEnd = false) :
    (∀ items, (reading (first ++ t :: second)).1 = .ok items ↔
      ∃ left right, (reading first).1 = .ok left ∧ (reading second).1 = .ok right ∧ items = left ++ right) ∧
    (∀ fault s, reading first = (.error fault,s) → fault.isIncomplete = false →
      (reading (first ++ t :: second)).1 = .error fault ∧ (reading (first ++ t :: second)).2.place = s.place) ∧
    (∀ fault s, reading first = (.error fault,s) → fault.isIncomplete = true → ∃ other,
      (reading (first ++ t :: second)).1 = .error other ∧ other.isIncomplete = false ∧ other.found = t ∧
        (reading (first ++ t :: second)).2.place = first.length) ∧
    ∀ left fault s, (reading first).1 = .ok left → reading second = (.error fault,s) →
      (reading (first ++ t :: second)).1 = .error fault ∧
        (reading (first ++ t :: second)).2.place = first.length + 1 + s.place := by
  have ends := Language.terminator_exact.mp terminator
  have whole := separated_endless before ends behind
  refine ⟨fun items => ?_,fun fault s failed malformed => ?_,fun fault s failed incomplete => ?_,
    fun left fault s passed failed => ?_⟩
  · simp only [reading_ok before,reading_ok behind,reading_ok whole]
    exact Program.read_separated ends
  · obtain ⟨reason,found,later,refused,rfl,place⟩ := reading_malformed before failed malformed
    rw [reading_exact whole,Program.read_refused refused (t :: second)]
    refine ⟨rfl,?_⟩
    simp only [place,Reply.rest,List.length_append,List.length_cons]
    omega
  · obtain ⟨expected,exhausted⟩ := reading_incomplete before failed incomplete
    obtain ⟨reason,refused⟩ := Program.read_exhausted ends exhausted second
    obtain ⟨found,malformed⟩ := fault_found reason t
    rw [reading_exact whole,refused]
    refine ⟨_,rfl,malformed,found,?_⟩
    simp only [Reply.rest,List.length_append,Nat.add_sub_cancel]
  · have nonempty : second ≠ [] := by
      rintro rfl
      cases failed
    have stop : (first ++ t :: second).getLast? = second.getLast? := by
      rw [List.append_cons,List.getLast?_append_of_ne_nil _ nonempty]
    have shorter := (Machine.run_rest_suffix Program.machine (.between []) second).length_le
    rw [reading_exact behind] at failed
    obtain ⟨fails,rfl⟩ := Prod.mk.inj failed
    have accepted := (reading_ok before).mp passed
    rw [reading_exact whole,Program.read_accepted ends accepted second,stop,Reply.map_result,Reply.map_rest,fails]
    refine ⟨rfl,?_⟩
    simp only [List.length_append,List.length_cons]
    change (Program.read second).rest.length ≤ second.length at shorter
    omega

-- In `a; (b` the parenthesis opens a group that is never closed, not a call of `a`.
theorem terminator_separates_groups :
    let name := [Token.ofName "a"]
    let group := [Token.opening,.ofName "b"]
    let semicolon := Token.ofSymbol ";"
    (reading (name ++ semicolon :: group)).1 = .error (.incomplete .groupClosing (.endOfInput none)) ∧
      (reading (name ++ semicolon :: group)).2.place = 4 ∧
      ∃ other, (reading (group ++ semicolon :: name)).1 = .error other ∧ other.isIncomplete = false ∧
        other.found = semicolon ∧ (reading (group ++ semicolon :: name)).2.place = 2 := by
  intro name group semicolon
  have plain : ∀ u ∈ name, u.isEnd = false := by decide
  have grouped : ∀ u ∈ group, u.isEnd = false := by decide
  have ends : Language.Terminator semicolon := ⟨rfl,rfl⟩
  have alone : reading group = (.error (.incomplete .groupClosing (.endOfInput none)),
    { TokenStream.ofTokens group with place := 2 }) := rfl
  obtain ⟨_,_,_,later⟩ := terminator_separates plain ends grouped
  obtain ⟨_,_,waiting,_⟩ := terminator_separates grouped ends plain
  obtain ⟨fault,place⟩ := later _ _ _ rfl alone
  exact ⟨fault,place,waiting _ _ alone rfl⟩

end KaleidoscopeFrontEnd

import KaleidoscopeFrontEnd.Proofs.Derivation
import KaleidoscopeFrontEnd.Proofs.MachineRuns

namespace KaleidoscopeFrontEnd

-- The one place where a token prolongs a word that is complete without it.
def Adjoins (w : List Token) (t : Token) : Prop :=
  t.kind = .openParen ∧ ∃ n ∈ w.getLast?, n.kind = .identifier

theorem apart_of_kind (known : t.kind = k) (other : k ≠ .openParen) (w : List Token) : ¬ Adjoins w t :=
  fun adjoins => other (known.symm.trans adjoins.1)

theorem terminator_apart (terminator : t.isTerminator = true) (w : List Token) :
    ¬ Adjoins w t ∧ t.binaryOperator? = none :=
  ⟨apart_of_kind (Token.terminator_parts terminator).1 (by simp) w,Token.terminator_not_binary terminator⟩

theorem Adjoins.prefixed (adjoins : Adjoins w t) (before : List Token) : Adjoins (before ++ w) t := by
  obtain ⟨opening,n,last,named⟩ := adjoins
  exact ⟨opening,n,by simp only [List.getLast?_append,Option.mem_def.mp last,Option.some_or,Option.mem_def],named⟩

theorem last_append (w v : List Token) (k : Token) : (w ++ v).getLastD k = v.getLastD (w.getLastD k) := by
  induction w generalizing k with
  | nil => rfl
  | cons t w ih => simp only [List.cons_append,List.getLastD_cons,ih]

namespace Primary

open KaleidoscopeFrontEnd.Derivation

theorem begin_kind (begun : begin levels t = .ok s) :
    t.kind = .number ∨ t.kind = .openParen ∨ t.kind = .identifier := by
  unfold begin at begun
  split at begun
  · exact .inl ‹_›
  · exact .inr (.inl ‹_›)
  · exact .inr (.inr ‹_›)
  · cases begun

-- The state behind an operand. A name waits for the next token to settle what it is.
inductive Offers (levels : List Level) : List Token → Expr → State → Prop where
  | value (w : List Token) (e : Expr) : Offers levels w e ⟨.value e,levels⟩
  | name (w : List Token) (kind : n.kind = .identifier) :
      Offers levels (w ++ [n]) (referenceTo n) ⟨.name n,levels⟩

theorem Offers.prefixed (offers : Offers levels w e s) (before : List Token) :
    Offers levels (before ++ w) e s := by
  cases offers with
  | value => exact .value _ _
  | name w kind => rw [← List.append_assoc]; exact .name _ kind

theorem Offers.step (offers : Offers levels w e s) (apart : ¬ Adjoins w t) :
    step s t = after e levels t := by
  cases offers with
  | value => rfl
  | @name n w kind =>
      have other : t.kind ≠ .openParen := fun opening => apart ⟨opening,n,by simp,kind⟩
      simp only [Primary.step,if_neg other]

theorem Offers.finish (offers : Offers levels w e s) : finish s = finishInside e levels := by
  cases offers <;> rfl

theorem close_operator (binary : t.binaryOperator? = some o) (e : Expr) (level : Level) (outer : List Level) :
    close e level outer t =
      .shift ⟨.operand,{ level with before := some (level.run e,o) } :: outer⟩ := by
  simp only [close,binary]

theorem close_group (closing : t.kind = .closeParen) (group : level.bracket = .group) (e : Expr)
    (outer : List Level) : close e level outer t = .shift ⟨.value (level.run e).expr,outer⟩ := by
  simp only [close,Token.not_binary closing (by simp),group,closing]

theorem close_comma (comma : t.kind = .comma) (arguments : level.bracket = .arguments n earlier) (e : Expr)
    (outer : List Level) : close e level outer t =
      .shift ⟨.operand,.ofBracket (.arguments n (earlier ++ [(level.run e).expr])) :: outer⟩ := by
  simp only [close,Token.not_binary comma (by simp),arguments,comma]

theorem close_arguments (closing : t.kind = .closeParen) (arguments : level.bracket = .arguments n earlier)
    (e : Expr) (outer : List Level) : close e level outer t =
      .shift ⟨.value (callOf n t (earlier ++ [(level.run e).expr])),outer⟩ := by
  simp only [close,Token.not_binary closing (by simp),arguments,closing]

theorem call_entered (named : n.kind = .identifier) (opening : o.kind = .openParen) (levels : List Level)
    (w : List Token) : machine.consume ⟨.operand,levels⟩ (n :: o :: w) = machine.consume ⟨.arguments n,levels⟩ w := by
  have begun : machine.step ⟨.operand,levels⟩ n = .shift ⟨.name n,levels⟩ := by
    simp only [machine,step,begin,named,Move.ofBegin]
  have opened : machine.step ⟨.name n,levels⟩ o = .shift ⟨.arguments n,levels⟩ := by
    simp only [machine,step,if_pos opening]
  rw [Machine.consume_cons begun,Machine.consume_cons opened]

theorem arguments_enter (consumed : machine.consume ⟨.operand,.ofBracket (.arguments n []) :: levels⟩ w = some s)
    (nonempty : w ≠ []) : machine.consume ⟨.arguments n,levels⟩ w = some s := by
  cases w with
  | nil => exact absurd rfl nonempty
  | cons t w =>
      have same : step ⟨.arguments n,levels⟩ t = step ⟨.operand,.ofBracket (.arguments n []) :: levels⟩ t ∨
          t.kind = .closeParen := by
        by_cases closing : t.kind = .closeParen
        · exact .inr closing
        · exact .inl (by simp only [step,if_neg closing])
      rcases same with same | closing
      · simpa only [Machine.consume,machine,same] using consumed
      · simp [Machine.consume,machine,step,begin,closing,Move.ofBegin] at consumed

mutual

theorem operand_consumed {w : List Token} (derived : Operand w e) (levels : List Level) :
    ∃ s, machine.consume ⟨.operand,levels⟩ w = some s ∧ Offers levels w e s := by
  match derived with
  | .number _ kind =>
      exact ⟨_,Machine.consume_single (by simp [machine,step,begin,kind,Move.ofBegin]),.value _ _⟩
  | .reference _ kind =>
      exact ⟨_,Machine.consume_single (by simp [machine,step,begin,kind,Move.ofBegin]),.name [] kind⟩
  | .group o c opening inside closing =>
      obtain ⟨s,level,e,consumed,offers,bracket,rfl⟩ := run_consumed inside .group levels
      have opened : machine.step ⟨.operand,levels⟩ o = .shift ⟨.operand,.ofBracket .group :: levels⟩ := by
        simp only [machine,step,begin,opening,Move.ofBegin]
      have closed : machine.step s c = .shift ⟨.value (level.run e).expr,levels⟩ :=
        (offers.step (apart_of_kind closing (by simp) _)).trans (close_group closing bracket e levels)
      refine ⟨_,?_,.value _ _⟩
      rw [Machine.consume_append ((Machine.consume_cons opened).trans consumed)]
      exact Machine.consume_single closed
  | .bareCall n o c named opening closing =>
      have closed : machine.step ⟨.arguments n,levels⟩ c = .shift ⟨.value (callOf n c []),levels⟩ := by
        simp only [machine,step,if_pos closing]
      refine ⟨_,?_,.value _ _⟩
      rw [call_entered named opening]
      exact Machine.consume_single closed
  | .call n o c named opening inside closing =>
      obtain ⟨s,level,e,earlier,consumed,offers,bracket,rfl⟩ := arguments_consumed inside n levels
      have closed : machine.step s c = .shift ⟨.value (callOf n c (earlier ++ [(level.run e).expr])),levels⟩ :=
        (offers.step (apart_of_kind closing (by simp) _)).trans (close_arguments closing bracket e levels)
      refine ⟨_,?_,.value _ _⟩
      rw [Machine.consume_append ((call_entered named opening levels _).trans
        (arguments_enter consumed inside.nonempty))]
      exact Machine.consume_single closed

theorem run_consumed (derived : Run w r) (bracket : Bracket) (outer : List Level) :
    ∃ s level e, machine.consume ⟨.operand,.ofBracket bracket :: outer⟩ w = some s ∧
      Offers (level :: outer) w e s ∧ level.bracket = bracket ∧ level.run e = r := by
  match derived with
  | .single operand =>
      obtain ⟨s,consumed,offers⟩ := operand_consumed operand (.ofBracket bracket :: outer)
      exact ⟨s,.ofBracket bracket,_,consumed,offers,rfl,rfl⟩
  | .add before t binary operand =>
      obtain ⟨s,level,e,consumed,offers,rfl,rfl⟩ := run_consumed before bracket outer
      have operator : machine.step s t = .shift ⟨.operand,{ level with before := some (level.run e,_) } :: outer⟩ :=
        (offers.step (apart_of_kind (Token.binary_operator_kind binary) (by simp) _)).trans
          (close_operator binary e level outer)
      obtain ⟨next,more,offers⟩ := operand_consumed operand _
      refine ⟨next,{ level with before := some (level.run e,_) },_,?_,(offers.prefixed [t]).prefixed _,rfl,rfl⟩
      rw [Machine.consume_append consumed,Machine.consume_cons operator]
      exact more

theorem arguments_consumed (derived : Arguments w es) (n : Token) (outer : List Level) :
    ∃ s level e earlier, machine.consume ⟨.operand,.ofBracket (.arguments n []) :: outer⟩ w = some s ∧
      Offers (level :: outer) w e s ∧ level.bracket = .arguments n earlier ∧ earlier ++ [(level.run e).expr] = es := by
  match derived with
  | .single argument =>
      obtain ⟨s,level,e,consumed,offers,bracket,rfl⟩ := run_consumed argument (.arguments n []) outer
      exact ⟨s,level,e,[],consumed,offers,bracket,rfl⟩
  | .add before t comma argument =>
      obtain ⟨s,level,e,earlier,consumed,offers,bracket,rfl⟩ := arguments_consumed before n outer
      have separated : machine.step s t =
          .shift ⟨.operand,.ofBracket (.arguments n (earlier ++ [(level.run e).expr])) :: outer⟩ :=
        (offers.step (apart_of_kind comma (by simp) _)).trans (close_comma comma bracket e outer)
      obtain ⟨next,last,f,more,offers,bracket,rfl⟩ :=
        run_consumed argument (.arguments n (earlier ++ [(level.run e).expr])) outer
      refine ⟨next,last,f,_,?_,(offers.prefixed [t]).prefixed _,bracket,rfl⟩
      rw [Machine.consume_append consumed,Machine.consume_cons separated]
      exact more

end

end Primary

namespace Header

theorem parameters_consumed (parameters : ∀ p ∈ w, p.kind = .identifier) (n : Token) (earlier : List String) :
    machine.consume (.parameters n earlier) w = some (.parameters n (earlier ++ w.map Token.word)) := by
  induction w generalizing earlier with
  | nil => simp [Machine.consume]
  | cons t w ih =>
      have shifted : machine.step (.parameters n earlier) t = .shift (.parameters n (earlier ++ [t.word])) := by
        simp only [machine,step,parameters t List.mem_cons_self]
      rw [Machine.consume_cons shifted,ih (fun p member => parameters p (List.mem_cons_of_mem t member))]
      simp

theorem heading_consumed (derived : Derivation.Heading w p) : machine.consume .name w = some (.closed p) := by
  obtain ⟨n,o,c,named,opening,parameters,closing⟩ := derived
  rename_i w
  have begun : machine.step .name n = .shift (.opening n) := by simp only [machine,step,if_pos named]
  have opened : machine.step (.opening n) o = .shift (.parameters n []) := by
    simp only [machine,step,if_pos opening]
  have closed : machine.step (.parameters n (w.map Token.word)) c = .shift (.closed (close n c (w.map Token.word))) := by
    simp only [machine,step,closing]
  rw [Machine.consume_append ((Machine.consume_cons begun).trans ((Machine.consume_cons opened).trans
    (parameters_consumed parameters n [])))]
  exact Machine.consume_single closed

end Header

namespace Expression

-- Outside all brackets the operands before the last one are kept by the expression itself.
inductive Offers : List Token → OperandRun Expr → State → Prop where
  | first (offers : Primary.Offers [] w e p) : Offers w (.single e) (.first p)
  | operands (offers : Primary.Offers [] w e p) (first : Expr) (earlier : List (BinaryOperator × Expr))
      (o : BinaryOperator) : Offers w (OperandRun.add ⟨first,earlier⟩ o e) (.operands first (.operand earlier o p))

theorem Offers.step (offers : Offers w r s) (apart : ¬ Adjoins w t) :
    step s t = behind r.first (Operands.between 0 r.others t) := by
  cases offers with
  | first offers => simp only [Expression.step,offers.step apart]; rfl
  | operands offers => simp only [Expression.step,Operands.step,offers.step apart]; rfl

theorem Offers.done (offers : Offers w r s) (apart : ¬ Adjoins w t) (other : t.binaryOperator? = none) :
    Expression.step s t = .done r.expr := by
  rw [offers.step apart,Operands.between,other]
  rfl

theorem Offers.operator (offers : Offers w r s) (binary : t.binaryOperator? = some o) :
    Expression.step s t = .shift (.operands r.first (.operand r.others o .start)) := by
  have apart : ¬ Adjoins w t := apart_of_kind (Token.binary_operator_kind binary) (by simp) w
  rw [offers.step apart,Operands.between,binary]
  simp only [if_pos (Int.natCast_nonneg o.precedence)]
  rfl

theorem Offers.finish (offers : Offers w r s) : finish s = .ok r.expr := by
  cases offers with
  | first offers => simp only [Expression.finish,offers.finish]; rfl
  | operands offers => simp only [Expression.finish,Operands.finish,offers.finish]; rfl

theorem run_consumed (derived : Derivation.Run w r) : ∃ s, machine.consume start w = some s ∧ Offers w r s := by
  match derived with
  | .single operand =>
      obtain ⟨p,consumed,offers⟩ := Primary.operand_consumed operand []
      refine ⟨.first p,Machine.consume_inside (fun _ => State.first) ?_ (.endOfInput none) consumed,.first offers⟩
      intro _ p t next shifted
      exact Move.and_then_of_shift shifted
  | .add before t binary operand =>
      obtain ⟨s,consumed,prior⟩ := run_consumed before
      obtain ⟨p,more,offers⟩ := Primary.operand_consumed operand []
      rename_i w r o v e
      refine ⟨.operands r.first (.operand r.others o p),?_,
        .operands ((offers.prefixed [t]).prefixed w) r.first r.others o⟩
      rw [Machine.consume_append consumed,Machine.consume_cons (prior.operator binary)]
      refine Machine.consume_inside (fun _ p => State.operands r.first (.operand r.others o p)) ?_ t more
      intro _ p t next shifted
      exact Move.and_then_of_shift (Move.and_then_of_shift shifted)

end Expression

namespace TopLevel

structure Offers (w : List Token) (i : Item) (s : State) : Prop where
  started : s ≠ .start
  finish : TopLevel.finish s = .ok i
  done : ∀ t, ¬ Adjoins w t → t.binaryOperator? = none → step s t = .done i

theorem expression_begin (shifted : Expression.step Expression.start t = .shift e) :
    Expression.begin t = .ok e := by
  rcases Move.and_then_shift.mp shifted with ⟨p,begun,rfl⟩ | ⟨_,done,_⟩
  · exact map_ok.mpr ⟨p,Move.of_begin_shift.mp begun,rfl⟩
  · exact absurd done Move.of_begin_not_done

theorem begin_expression (begun : Expression.begin t = .ok e) : begin t = .ok (.expression t e t) := by
  obtain ⟨p,operand,rfl⟩ := map_ok.mp begun
  rcases Primary.begin_kind operand with kind | kind | kind <;>
    simp only [begin,kind,beginExpression,begun] <;> rfl

theorem begin_kind (begun : begin t = .ok s) : t.kind ≠ .operator := by
  intro operator
  simp [begin,operator,beginExpression,Expression.begin,Primary.begin,Except.map] at begun

theorem body_consumed (derived : Derivation.Run v r) (k : Token) (p : Prototype) (last : Token) :
    ∃ e, machine.consume (.definition k (.closed p) last) v = some (.body k p e (v.getLastD last)) ∧
      Expression.Offers v r e := by
  obtain ⟨e,consumed,offers⟩ := Expression.run_consumed derived
  refine ⟨e,?_,offers⟩
  cases v with
  | nil => exact absurd rfl derived.nonempty
  | cons t v =>
      simp only [Machine.consume] at consumed
      split at consumed
      · rename_i middle shifted
        have begun : machine.step (.definition k (.closed p) last) t = .shift (.body k p middle t) := by
          simp only [machine,step,Header.step,Move.andThen,expression_begin shifted]
          rfl
        rw [Machine.consume_cons begun,List.getLastD_cons]
        refine Machine.consume_inside (fun last e => State.body k p e last) ?_ t consumed
        intro _ e t next shifted
        exact Move.and_then_of_shift shifted
      · cases consumed

theorem item_consumed (derived : Derivation.TopItem w i) :
    ∃ s, machine.consume .start w = some s ∧ Offers w i s := by
  cases derived with
  | @definition w p v r k keyword heading body =>
      have begun : machine.step .start k = .shift (.definition k .name k) := by
        simp only [machine,step,begin,keyword,Move.ofBegin]
      have header : machine.consume (.definition k .name k) w = some (.definition k (.closed p) (w.getLastD k)) := by
        refine Machine.consume_inside (fun last h => State.definition k h last) ?_ k (Header.heading_consumed heading)
        intro _ h t next shifted
        exact Move.and_then_of_shift shifted
      obtain ⟨e,consumed,offers⟩ := body_consumed body k p (w.getLastD k)
      refine ⟨.body k p e (v.getLastD (w.getLastD k)),?_,⟨by simp,?_,?_⟩⟩
      · rw [Machine.consume_append ((Machine.consume_cons begun).trans header)]
        exact consumed
      · simp only [finish,offers.finish,last_append]; rfl
      · intro t apart other
        have ended := offers.done (fun adjoins => apart (adjoins.prefixed (k :: w))) other
        simp only [step,ended,last_append]; rfl
  | @external w p k keyword heading =>
      have begun : machine.step .start k = .shift (.external k .name k) := by
        simp only [machine,step,begin,keyword,Move.ofBegin]
      refine ⟨.external k (.closed p) (w.getLastD k),?_,⟨by simp,rfl,fun t _ _ => rfl⟩⟩
      rw [Machine.consume_cons begun]
      refine Machine.consume_inside (fun last h => State.external k h last) ?_ k (Header.heading_consumed heading)
      intro _ h t next shifted
      exact Move.and_then_of_shift shifted
  | @expression w r t body =>
      obtain ⟨e,consumed,offers⟩ := Expression.run_consumed body
      simp only [Machine.consume] at consumed
      split at consumed
      · rename_i middle shifted
        have begun : machine.step .start t = .shift (.expression t middle t) := by
          simp only [machine,step,begin_expression (expression_begin shifted),Move.ofBegin]
        refine ⟨.expression t e (w.getLastD t),?_,⟨by simp,?_,?_⟩⟩
        · rw [Machine.consume_cons begun]
          refine Machine.consume_inside (fun last e => State.expression t e last) ?_ t consumed
          intro _ e u next shifted
          exact Move.and_then_of_shift shifted
        · simp only [finish,offers.finish]; rfl
        · intro u apart other
          simp only [step,offers.done apart other]; rfl
      · cases consumed

end TopLevel

namespace Program

theorem begin_item (begun : TopLevel.begin t = .ok next) (items : List Item) :
    begin items t = .shift ⟨items,next⟩ := by
  have other : t.isTerminator = false := by
    cases terminator : t.isTerminator with
    | false => rfl
    | true => exact absurd (Token.terminator_parts terminator).1 (TopLevel.begin_kind begun)
  simp only [begin,other,begun]
  rfl

theorem step_inside (started : current ≠ .start) (items : List Item) (t : Token) : step ⟨items,current⟩ t =
    (TopLevel.step current t).andThen (⟨items,·⟩) fun item => begin (items ++ [item]) t := by
  cases current with
  | start => exact absurd rfl started
  | definition | external | body | expression => rfl

theorem finish_inside (started : current ≠ .start) (items : List Item) :
    finish ⟨items,current⟩ = (TopLevel.finish current).map fun item => items ++ [item] := by
  cases current with
  | start => exact absurd rfl started
  | definition | external | body | expression => rfl

theorem item_shift (shifted : TopLevel.step s t = .shift next) (items : List Item) :
    machine.step ⟨items,s⟩ t = .shift ⟨items,next⟩ := by
  cases s with
  | start => exact begin_item (Move.of_begin_shift.mp shifted) items
  | definition | external | body | expression => exact Move.and_then_of_shift shifted

theorem item_done (done : TopLevel.step s t = .done i) (started : s ≠ .start) (items : List Item) :
    machine.step ⟨items,s⟩ t = machine.step (.between (items ++ [i])) t := by
  simp only [machine,step_inside started,done]
  rfl

theorem item_finish (finished : TopLevel.finish s = .ok i) (started : s ≠ .start) (items : List Item) :
    machine.finish ⟨items,s⟩ = machine.finish (.between (items ++ [i])) := by
  simp only [machine,finish_inside started,finished]
  rfl

theorem item_consumed (derived : Derivation.TopItem w i) (items : List Item) :
    ∃ s, machine.consume (.between items) w = some ⟨items,s⟩ ∧ TopLevel.Offers w i s := by
  obtain ⟨s,consumed,offers⟩ := TopLevel.item_consumed derived
  exact ⟨s,Machine.consume_inside (fun _ s => State.mk items s) (item_shift · items) (.endOfInput none) consumed,offers⟩

-- What follows decides alone how the program goes on behind an item, except where it makes the
-- item longer.
theorem item_run (derived : Derivation.TopItem w i) (items : List Item) (rest : List Token)
    (separate : ∀ t ∈ rest.head?, ¬ Adjoins w t ∧ t.binaryOperator? = none) :
    machine.run (.between items) (w ++ rest) = machine.run (.between (items ++ [i])) rest := by
  obtain ⟨s,consumed,offers⟩ := item_consumed derived items
  rw [Machine.run_consume consumed]
  cases rest with
  | nil => simp only [Machine.run,item_finish offers.finish offers.started]
  | cons t later =>
      obtain ⟨apart,other⟩ := separate t rfl
      simp only [Machine.run,item_done (offers.done t apart other) offers.started]

theorem terminator_run (terminator : t.isTerminator = true) (items : List Item) (rest : List Token) :
    machine.run (.between items) (t :: rest) = machine.run (.between items) rest := by
  have shifted : machine.step (.between items) t = .shift (.between items) := by
    simp only [machine,step,State.between,begin,terminator,if_pos]
  simp only [Machine.run,shifted]

end Program

end KaleidoscopeFrontEnd

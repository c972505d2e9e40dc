import KaleidoscopeFrontEnd.Proofs.Derivation
import KaleidoscopeFrontEnd.Proofs.MachineRuns

namespace KaleidoscopeFrontEnd

namespace Primary

open KaleidoscopeFrontEnd.Derivation

inductive Opened : Bracket → List Token → Prop where
  | group (o : Token) (opening : o.kind = .openParen) : Opened .group [o]
  | arguments (n o : Token) (named : n.kind = .identifier) (opening : o.kind = .openParen) :
      Opened (.arguments n []) [n,o]
  | comma (n o c : Token) (named : n.kind = .identifier) (opening : o.kind = .openParen)
      (earlier : Arguments w es) (comma : c.kind = .comma) : Opened (.arguments n es) (n :: o :: w ++ [c])

inductive Before : Option (OperandRun Expr × BinaryOperator) → List Token → Prop where
  | nothing : Before none []
  | operator (run : Run w r) (t : Token) (binary : t.binaryOperator? = some o) : Before (some (r,o)) (w ++ [t])

inductive Inside : List Level → List Token → Prop where
  | outside : Inside [] []
  | level (outer : Inside levels u) (opened : Opened level.bracket v) (before : Before level.before w) :
      Inside (level :: levels) (u ++ (v ++ w))

-- Every state remembers a derivation of what was consumed, up to the operand at hand.
inductive Reached : State → List Token → Prop where
  | operand (inside : Inside levels w) : Reached ⟨.operand,levels⟩ w
  | arguments (inside : Inside levels w) (n o : Token) (named : n.kind = .identifier)
      (opening : o.kind = .openParen) : Reached ⟨.arguments n,levels⟩ (w ++ [n,o])
  | name (inside : Inside levels w) (n : Token) (named : n.kind = .identifier) :
      Reached ⟨.name n,levels⟩ (w ++ [n])
  | value (inside : Inside levels w) (operand : Operand v e) : Reached ⟨.value e,levels⟩ (w ++ v)

theorem start_reached : Reached .start [] := .operand .outside

theorem Inside.enter (inside : Inside levels w) (opened : Opened bracket v) :
    Inside (.ofBracket bracket :: levels) (w ++ v) := by
  have entered : Inside (.ofBracket bracket :: levels) (w ++ (v ++ [])) := .level inside opened .nothing
  rwa [List.append_nil] at entered

theorem begin_reached (inside : Inside levels w) (begun : begin levels t = .ok s) : Reached s (w ++ [t]) := by
  unfold begin at begun
  split at begun
  · cases begun; exact .value inside (.number t ‹_›)
  · cases begun; exact .operand (inside.enter (.group t ‹_›))
  · cases begun; exact .name inside t ‹_›
  · cases begun

theorem Before.run {level : Level} (before : Before level.before w) (operand : Operand v e) :
    Run (w ++ v) (level.run e) := by
  generalize known : level.before = b at before
  cases before with
  | nothing => simp only [Level.run,known]; exact .single operand
  | operator run t binary =>
      rw [List.append_assoc]
      simp only [Level.run,known]
      exact .add run t binary operand

theorem Opened.argument (opened : Opened (.arguments n earlier) v) (run : Run w r) :
    ∃ o z, v ++ w = n :: o :: z ∧ n.kind = .identifier ∧ o.kind = .openParen ∧
      Arguments z (earlier ++ [r.expr]) := by
  cases opened with
  | arguments n o named opening => exact ⟨o,w,rfl,named,opening,.single run⟩
  | comma n o c named opening earlier comma =>
      exact ⟨o,_,List.append_assoc _ [c] w,named,opening,.add earlier c comma run⟩

-- The operand at hand ends, and with it the run, the argument or the bracket it stands in may.
theorem close_reached {level : Level} (outer : Inside levels u) (opened : Opened level.bracket v)
    (before : Before level.before w) (operand : Operand x e) (shifted : close e level levels t = .shift s) :
    Reached s (u ++ (v ++ w) ++ x ++ [t]) := by
  have run := before.run operand
  have regroup : u ++ (v ++ w) ++ x ++ [t] = u ++ (v ++ (w ++ x) ++ [t]) := by simp only [List.append_assoc]
  rw [regroup]
  simp only [close] at shifted
  split at shifted
  · rename_i o binary
    cases shifted
    rw [List.append_assoc]
    exact .operand (.level outer opened (.operator run t binary))
  · generalize level.bracket = bracket at opened shifted
    split at shifted
    · rename_i closing
      cases shifted
      obtain ⟨o,opening⟩ := opened
      exact .value outer (.group o t opening run closing)
    · cases shifted
    · rename_i n earlier comma
      cases shifted
      obtain ⟨o,z,split,named,opening,arguments⟩ := opened.argument run
      rw [split]
      exact .operand (outer.enter (.comma n o t named opening arguments comma))
    · rename_i n earlier closing
      cases shifted
      obtain ⟨o,z,split,named,opening,arguments⟩ := opened.argument run
      rw [split]
      exact .value outer (.call n o t named opening arguments closing)
    · cases shifted

theorem after_reached (inside : Inside levels w) (operand : Operand v e) (shifted : after e levels t = .shift s) :
    Reached s (w ++ v ++ [t]) := by
  cases inside with
  | outside => cases shifted
  | level outer opened before => exact close_reached outer opened before operand shifted

theorem after_done (done : after e levels t = .done result) : levels = [] ∧ result = e := by
  cases levels with
  | nil => cases done; exact ⟨rfl,rfl⟩
  | cons level outer =>
      simp only [after,close] at done
      split at done
      · cases done
      · split at done <;> cases done

theorem finish_inside (finished : finishInside e levels = .ok result) : levels = [] ∧ result = e := by
  cases levels with
  | nil => cases finished; exact ⟨rfl,rfl⟩
  | cons level outer =>
      simp only [finishInside] at finished
      split at finished <;> cases finished

theorem step_reached (reached : Reached s w) (shifted : machine.step s t = .shift next) :
    Reached next (w ++ [t]) := by
  cases reached with
  | operand inside => exact begin_reached inside (Move.of_begin_shift.mp shifted)
  | @arguments _ w inside n o named opening =>
      simp only [machine,step] at shifted
      split at shifted
      · rename_i closing
        cases shifted
        simpa only [List.append_assoc,List.cons_append,List.nil_append] using
          Reached.value inside (.bareCall n o t named opening closing)
      · have entered := inside.enter (.arguments n o named opening)
        exact begin_reached entered (Move.of_begin_shift.mp shifted)
  | name inside n named =>
      simp only [machine,step] at shifted
      split at shifted
      · rename_i opening
        cases shifted
        simpa only [List.append_assoc,List.cons_append,List.nil_append] using Reached.arguments inside n t named opening
      · exact after_reached inside (.reference n named) shifted
  | value inside operand => exact after_reached inside operand shifted

theorem step_derives (reached : Reached s w) (done : machine.step s t = .done e) : Operand w e := by
  cases reached with
  | operand inside => exact absurd done Move.of_begin_not_done
  | arguments inside n o named opening =>
      simp only [machine,step] at done
      split at done
      · cases done
      · exact absurd done Move.of_begin_not_done
  | name inside n named =>
      simp only [machine,step] at done
      split at done
      · cases done
      · obtain ⟨rfl,rfl⟩ := after_done done
        cases inside
        exact .reference n named
  | value inside operand =>
      obtain ⟨rfl,rfl⟩ := after_done done
      cases inside
      exact operand

theorem finish_derives (reached : Reached s w) (finished : machine.finish s = .ok e) : Operand w e := by
  cases reached with
  | operand inside => cases finished
  | arguments inside n o named opening => cases finished
  | name inside n named =>
      obtain ⟨rfl,rfl⟩ := finish_inside finished
      cases inside
      exact .reference n named
  | value inside operand =>
      obtain ⟨rfl,rfl⟩ := finish_inside finished
      cases inside
      exact operand

end Primary

namespace Header

inductive Reached : State → List Token → Prop where
  | name : Reached .name []
  | opening (n : Token) (named : n.kind = .identifier) : Reached (.opening n) [n]
  | parameters (n o : Token) (named : n.kind = .identifier) (opening : o.kind = .openParen)
      (parameters : ∀ p ∈ w, p.kind = .identifier) : Reached (.parameters n (w.map Token.word)) (n :: o :: w)
  | closed (heading : Derivation.Heading w p) : Reached (.closed p) w

theorem step_reached (reached : Reached s w) (shifted : machine.step s t = .shift next) :
    Reached next (w ++ [t]) := by
  cases reached with
  | name =>
      simp only [machine,step] at shifted
      split at shifted
      · cases shifted; exact .opening t ‹_›
      · cases shifted
  | opening n named =>
      simp only [machine,step] at shifted
      split at shifted
      · cases shifted
        have empty : ∀ p ∈ ([] : List Token), p.kind = .identifier := by simp
        exact .parameters n t named ‹_› empty
      · cases shifted
  | @parameters w n o named opening parameters =>
      simp only [machine,step] at shifted
      split at shifted
      · rename_i kind
        cases shifted
        have grown : ∀ p ∈ w ++ [t], p.kind = .identifier := by
          intro p member
          rcases List.mem_append.mp member with old | last
          · exact parameters p old
          · exact List.mem_singleton.mp last ▸ kind
        simpa using Reached.parameters n o named opening grown
      · cases shifted; exact .closed (.mk n o t named opening parameters ‹_›)
      · cases shifted
      · cases shifted
  | closed heading => cases shifted

theorem step_derives (reached : Reached s w) (done : machine.step s t = .done p) : Derivation.Heading w p := by
  cases reached with
  | name | opening => simp only [machine,step] at done; split at done <;> cases done
  | parameters => simp only [machine,step] at done; split at done <;> cases done
  | closed heading => cases done; exact heading

theorem finish_derives (reached : Reached s w) (finished : machine.finish s = .ok p) :
    Derivation.Heading w p := by
  cases reached with
  | name | opening | parameters => cases finished
  | closed heading => cases finished; exact heading

end Header

namespace Expression

inductive Reached : State → List Token → Prop where
  | first (operand : Primary.Reached p w) : Reached (.first p) w
  | operands (run : Derivation.Run w ⟨first,others⟩) (t : Token) (binary : t.binaryOperator? = some o)
      (operand : Primary.Reached p v) : Reached (.operands first (.operand others o p)) (w ++ t :: v)

theorem begin_reached (begun : begin t = .ok e) : Reached e [t] := by
  obtain ⟨p,operand,rfl⟩ := map_ok.mp begun
  exact .first (Primary.begin_reached .outside operand)

theorem behind_reached (run : Derivation.Run w ⟨first,others⟩)
    (shifted : behind first (Operands.between 0 others t) = .shift next) : Reached next (w ++ [t]) := by
  rcases Move.and_then_shift.mp shifted with ⟨o,moved,rfl⟩ | ⟨_,_,nothing⟩
  · simp only [Operands.between] at moved
    split at moved
    · rename_i binary
      split at moved
      · cases moved; exact .operands run t binary Primary.start_reached
      · cases moved
    · cases moved
  · cases nothing

theorem behind_done (done : behind first (Operands.between 0 others t) = .done e) : e = join first others := by
  obtain ⟨result,moved,ended⟩ := Move.and_then_done.mp done
  cases ended
  simp only [Operands.between] at moved
  split at moved
  · split at moved
    · cases moved
    · cases moved; rfl
  · cases moved; rfl

theorem step_reached (reached : Reached s w) (shifted : machine.step s t = .shift next) :
    Reached next (w ++ [t]) := by
  cases reached with
  | first operand =>
      rcases Move.and_then_shift.mp shifted with ⟨p,moved,rfl⟩ | ⟨e,done,moved⟩
      · exact .first (Primary.step_reached operand moved)
      · exact behind_reached (.single (Primary.step_derives operand done)) moved
  | @operands w first others o p v run u binary operand =>
      rw [List.append_assoc]
      rcases Move.and_then_shift.mp shifted with ⟨_,moved,rfl⟩ | ⟨_,_,nothing⟩
      · rcases Move.and_then_shift.mp moved with ⟨p,prolonged,rfl⟩ | ⟨e,done,moved⟩
        · exact .operands run u binary (Primary.step_reached operand prolonged)
        · have grown := Derivation.Run.add run u binary (Primary.step_derives operand done)
          have behind : behind first (Operands.between 0 (others ++ [(o,e)]) t) = .shift _ :=
            Move.and_then_shift.mpr (.inl ⟨_,moved,rfl⟩)
          simpa only [List.append_assoc] using behind_reached grown behind
      · cases nothing

theorem step_derives (reached : Reached s w) (done : machine.step s t = .done e) :
    ∃ r, Derivation.Run w r ∧ e = r.expr := by
  cases reached with
  | first operand =>
      obtain ⟨e,read,moved⟩ := Move.and_then_done.mp done
      exact ⟨_,.single (Primary.step_derives operand read),behind_done moved⟩
  | @operands w first others o p v run u binary operand =>
      obtain ⟨all,moved,ended⟩ := Move.and_then_done.mp done
      obtain ⟨e,read,between⟩ := Move.and_then_done.mp moved
      have behind : behind first (Operands.between 0 (others ++ [(o,e)]) t) = .done _ :=
        Move.and_then_done.mpr ⟨all,between,ended⟩
      exact ⟨_,.add run u binary (Primary.step_derives operand read),behind_done behind⟩

theorem finish_derives (reached : Reached s w) (finished : machine.finish s = .ok e) :
    ∃ r, Derivation.Run w r ∧ e = r.expr := by
  cases reached with
  | first operand => exact ⟨_,.single (Primary.finish_derives operand finished),rfl⟩
  | operands run u binary operand =>
      obtain ⟨all,others,rfl⟩ := map_ok.mp finished
      obtain ⟨e,read,rfl⟩ := map_ok.mp others
      exact ⟨_,.add run u binary (Primary.finish_derives operand read),rfl⟩

end Expression

namespace TopLevel

inductive Reached : State → List Token → Prop where
  | start : Reached .start []
  | definition (k : Token) (keyword : k.kind = .definition) (header : Header.Reached h w) :
      Reached (.definition k h (w.getLastD k)) (k :: w)
  | external (k : Token) (keyword : k.kind = .external) (header : Header.Reached h w) :
      Reached (.external k h (w.getLastD k)) (k :: w)
  | body (k : Token) (keyword : k.kind = .definition) (heading : Derivation.Heading w p)
      (expression : Expression.Reached e v) : Reached (.body k p e ((w ++ v).getLastD k)) (k :: w ++ v)
  | expression (t : Token) (expression : Expression.Reached e (t :: w)) :
      Reached (.expression t e (w.getLastD t)) (t :: w)

theorem begin_reached (begun : begin t = .ok s) : Reached s [t] := by
  unfold begin at begun
  split at begun
  · cases begun; exact .definition t ‹_› .name
  · cases begun; exact .external t ‹_› .name
  · obtain ⟨e,expression,rfl⟩ := map_ok.mp begun
    exact .expression t (Expression.begin_reached expression)

theorem step_reached (reached : Reached s w) (shifted : machine.step s t = .shift next) :
    Reached next (w ++ [t]) := by
  cases reached with
  | start => exact begin_reached (Move.of_begin_shift.mp shifted)
  | @definition h w k keyword header =>
      rcases Move.and_then_shift.mp shifted with ⟨h,moved,rfl⟩ | ⟨p,read,moved⟩
      · have grown := Reached.definition k keyword (Header.step_reached header moved)
        rwa [List.getLastD_concat] at grown
      · obtain ⟨e,begun,rfl⟩ := map_ok.mp (Move.of_begin_shift.mp moved)
        have grown := Reached.body k keyword (Header.step_derives header read) (Expression.begin_reached begun)
        rwa [List.getLastD_concat] at grown
  | @external h w k keyword header =>
      rcases Move.and_then_shift.mp shifted with ⟨h,moved,rfl⟩ | ⟨_,_,nothing⟩
      · have grown := Reached.external k keyword (Header.step_reached header moved)
        rwa [List.getLastD_concat] at grown
      · cases nothing
  | @body w p e v k keyword heading expression =>
      rcases Move.and_then_shift.mp shifted with ⟨e,moved,rfl⟩ | ⟨_,_,nothing⟩
      · have grown := Reached.body k keyword heading (Expression.step_reached expression moved)
        rw [← List.append_assoc,List.getLastD_concat] at grown
        rwa [List.append_assoc]
      · cases nothing
  | @expression e w first expression =>
      rcases Move.and_then_shift.mp shifted with ⟨e,moved,rfl⟩ | ⟨_,_,nothing⟩
      · have grown : Expression.Reached e (first :: (w ++ [t])) := Expression.step_reached expression moved
        have reached := Reached.expression first grown
        rwa [List.getLastD_concat] at reached
      · cases nothing

theorem step_derives (reached : Reached s w) (done : machine.step s t = .done i) : Derivation.TopItem w i := by
  cases reached with
  | start => exact absurd done Move.of_begin_not_done
  | definition k keyword header =>
      obtain ⟨_,_,nothing⟩ := Move.and_then_done.mp done
      exact absurd nothing Move.of_begin_not_done
  | external k keyword header =>
      obtain ⟨p,read,ended⟩ := Move.and_then_done.mp done
      cases ended
      exact .external k keyword (Header.step_derives header read)
  | body k keyword heading expression =>
      obtain ⟨e,read,ended⟩ := Move.and_then_done.mp done
      cases ended
      obtain ⟨r,run,rfl⟩ := Expression.step_derives expression read
      exact .definition k keyword heading run
  | expression t expression =>
      obtain ⟨e,read,ended⟩ := Move.and_then_done.mp done
      cases ended
      obtain ⟨r,run,rfl⟩ := Expression.step_derives expression read
      exact .expression t run

theorem finish_derives (reached : Reached s w) (finished : machine.finish s = .ok i) :
    Derivation.TopItem w i := by
  cases reached with
  | start => cases finished
  | @definition h w k keyword header =>
      simp only [machine,finish] at finished
      cases read : Header.finish h <;> rw [read] at finished <;> cases finished
  | external k keyword header =>
      obtain ⟨p,read,rfl⟩ := map_ok.mp finished
      exact .external k keyword (Header.finish_derives header read)
  | body k keyword heading expression =>
      obtain ⟨e,read,rfl⟩ := map_ok.mp finished
      obtain ⟨r,run,rfl⟩ := Expression.finish_derives expression read
      exact .definition k keyword heading run
  | expression t expression =>
      obtain ⟨e,read,rfl⟩ := map_ok.mp finished
      obtain ⟨r,run,rfl⟩ := Expression.finish_derives expression read
      exact .expression t run

end TopLevel

namespace Program

def Reached (s : State) (w : List Token) : Prop :=
  ∃ u v, w = u ++ v ∧ Derivation.Items u s.items ∧ TopLevel.Reached s.current v

theorem start_reached : Reached (.between []) [] := ⟨[],[],rfl,.nil,.start⟩

theorem begin_reached (derived : Derivation.Items w items) (shifted : begin items t = .shift next) :
    Reached next (w ++ [t]) := by
  unfold begin at shifted
  split at shifted
  · cases shifted
    exact ⟨w ++ [t],[],(List.append_nil _).symm,.terminator derived t ‹_›,.start⟩
  · obtain ⟨current,begun,rfl⟩ := map_ok.mp (Move.of_begin_shift.mp shifted)
    exact ⟨w,[t],rfl,derived,TopLevel.begin_reached begun⟩

theorem step_reached (reached : Reached s w) (shifted : machine.step s t = .shift next) :
    Reached next (w ++ [t]) := by
  obtain ⟨items,current⟩ := s
  obtain ⟨u,v,rfl,derived,reached⟩ := reached
  cases current with
  | start =>
      cases reached
      rw [List.append_nil]
      exact begin_reached derived shifted
  | definition | external | body | expression =>
      rcases Move.and_then_shift.mp shifted with ⟨_,moved,rfl⟩ | ⟨i,read,begun⟩
      · exact ⟨u,v ++ [t],List.append_assoc u v [t],derived,TopLevel.step_reached reached moved⟩
      · exact begin_reached (.item derived (TopLevel.step_derives reached read)) begun

theorem finish_derives (reached : Reached s w) (finished : machine.finish s = .ok items) :
    Derivation.Items w items := by
  obtain ⟨before,current⟩ := s
  obtain ⟨u,v,rfl,derived,reached⟩ := reached
  cases current with
  | start =>
      cases reached
      cases finished
      rwa [List.append_nil]
  | definition | external | body | expression =>
      obtain ⟨i,read,rfl⟩ := map_ok.mp finished
      exact .item derived (TopLevel.finish_derives reached read)

theorem begin_not_done (items : List Item) (t : Token) : begin items t ≠ .done result := by
  unfold begin
  split
  · simp
  · exact Move.of_begin_not_done

theorem step_not_done (s : State) (t : Token) : machine.step s t ≠ .done result := by
  intro done
  obtain ⟨items,current⟩ := s
  cases current with
  | start => exact begin_not_done items t done
  | definition | external | body | expression =>
      obtain ⟨i,_,ended⟩ := Move.and_then_done.mp done
      exact begin_not_done _ t ended

theorem read_derives (accepted : read tokens = .accepted items rest) :
    rest = [] ∧ Derivation.Items tokens items := by
  obtain ⟨w,stopped,rest,rfl,consumed,verdict⟩ := Machine.run_exact.mp accepted
  cases verdict with
  | finished value =>
      rw [List.append_nil]
      exact ⟨rfl,finish_derives (Machine.consume_invariant step_reached start_reached consumed) value⟩
  | done value => exact absurd value (step_not_done stopped _)

end Program

end KaleidoscopeFrontEnd

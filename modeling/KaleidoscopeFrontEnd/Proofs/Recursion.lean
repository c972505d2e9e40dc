import KaleidoscopeFrontEnd.Proofs.Climbing
import KaleidoscopeFrontEnd.Proofs.Readings

namespace KaleidoscopeFrontEnd

variable {σ τ α β γ : Type}

namespace Reply

theorem and_then_congr {reply : Reply α} {after other : α → List Token → Reply β}
    (same : ∀ v rest, reply = .accepted v rest → after v rest = other v rest) : reply.andThen after = reply.andThen other := by
  cases reply with
  | accepted v rest => exact same v rest rfl
  | refused | exhausted => rfl

theorem and_then_accepted {reply : Reply α} {after : α → List Token → Reply β} {final : List Token} :
    reply.andThen after = .accepted b final ↔ ∃ a rest, reply = .accepted a rest ∧ after a rest = .accepted b final := by
  cases reply with
  | accepted a rest =>
      refine ⟨fun same => ⟨a,rest,rfl,same⟩,?_⟩
      rintro ⟨_,_,same,found⟩
      cases same
      exact found
  | refused | exhausted => exact ⟨nofun,nofun⟩

theorem map_accepted {reply : Reply α} {f : α → β} {final : List Token} :
    reply.map f = .accepted b final ↔ ∃ a, reply = .accepted a final ∧ f a = b := by
  cases reply with
  | accepted a rest =>
      constructor
      · rintro ⟨⟩
        exact ⟨a,rfl,rfl⟩
      · rintro ⟨_,⟨⟩,rfl⟩
        rfl
  | refused | exhausted => exact ⟨nofun,nofun⟩

theorem map_and_then (reply : Reply α) (f : β → γ) (after : α → List Token → Reply β) :
    (reply.andThen after).map f = reply.andThen fun v rest => (after v rest).map f := by
  cases reply <;> rfl

end Reply

theorem Machine.run_suffix {m : Machine σ α} (accepted : m.run s tokens = .accepted v rest) : rest <:+ tokens := by
  have suffix := run_rest_suffix m s tokens
  rwa [accepted] at suffix

theorem Machine.run_shorter {m : Machine σ α} (accepted : m.run s tokens = .accepted v rest) :
    rest.length ≤ tokens.length := (run_suffix accepted).length_le

namespace Machine

def goes (m : Machine σ α) (decided : Token → Move σ α) (final : Except Expectation α) : List Token → Reply α
  | [] =>
      match final with
      | .ok value => .accepted value []
      | .error expected => .exhausted expected
  | t :: later =>
      match decided t with
      | .shift next => m.run next later
      | .done value => .accepted value (t :: later)
      | .refuse reason => .refused reason t later

theorem run_goes (m : Machine σ α) (s : σ) (tokens : List Token) :
    m.run s tokens = m.goes (m.step s) (m.finish s) tokens := by
  cases tokens <;> rfl

theorem goes_done (m : Machine σ α) (value : α) (tokens : List Token) :
    m.goes (fun _ => .done value) (.ok value) tokens = .accepted value tokens := by
  cases tokens <;> rfl

-- The inner machine works until it is done; then the other one decides about the token at hand. `Held` are the states
-- in which the inner one can be.
theorem run_inside {m : Machine σ α} (outer : Machine τ β) (Held : σ → Prop) (inside : Token → σ → τ)
    (decided : Token → α → Token → Move τ β) (final : Token → α → Except Expectation β)
    (held : ∀ {s t next}, Held s → m.step s t = .shift next → Held next)
    (step : ∀ {s}, Held s → ∀ last t, outer.step (inside last s) t =
      (m.step s t).andThen (inside t) fun v => decided last v t)
    (finish : ∀ {s}, Held s → ∀ last, outer.finish (inside last s) = (m.finish s).bind (final last))
    (start : Held s) (last : Token) (tokens : List Token) : ∃ w, tokens = w ++ (m.run s tokens).rest ∧
      outer.run (inside last s) tokens =
        (m.run s tokens).andThen fun v rest => outer.goes (decided (w.getLastD last) v) (final (w.getLastD last) v) rest := by
  induction tokens generalizing s last with
  | nil =>
      refine ⟨[],(List.suffix_nil.mp (run_rest_suffix m s [])).symm,?_⟩
      simp only [run,finish start]
      cases m.finish s <;> rfl
  | cons t later ih =>
      cases moved : m.step s t with
      | shift next =>
          obtain ⟨w,split,same⟩ := ih (held start moved) t
          refine ⟨t :: w,?_,?_⟩
          · simp only [run,moved,List.cons_append,← split]
          · simp only [run,step start,moved,Move.andThen,List.getLastD_cons]
            exact same
      | done v => exact ⟨[],by simp only [run,moved]; rfl,by simp only [run,step start,moved]; rfl⟩
      | refuse reason => exact ⟨[],by simp only [run,moved]; rfl,by simp only [run,step start,moved]; rfl⟩

theorem run_recording {m : Machine σ α} (outer : Machine τ β) (inside : Token → σ → τ) (result : Token → α → β)
    (step : ∀ s last t, outer.step (inside last s) t =
      (m.step s t).andThen (inside t) fun v => .done (result last v))
    (finish : ∀ s last, outer.finish (inside last s) = (m.finish s).map (result last)) (s : σ) (last : Token)
    (tokens : List Token) : ∃ w, tokens = w ++ (m.run s tokens).rest ∧
      outer.run (inside last s) tokens = (m.run s tokens).map (result (w.getLastD last)) := by
  obtain ⟨w,split,same⟩ := run_inside (m := m) outer (fun _ => True) inside (fun last v _ => .done (result last v))
    (fun last v => .ok (result last v)) (fun _ _ => trivial) (fun _ last t => step _ last t)
    (fun _ last => (finish _ last).trans (by cases m.finish _ <;> rfl)) (s := s) trivial last tokens
  refine ⟨w,split,same.trans ?_⟩
  cases m.run s tokens with
  | accepted v rest => exact goes_done outer _ rest
  | refused | exhausted => rfl

end Machine

namespace Primary

def State.onto (base : List Level) (s : State) : State := ⟨s.focus,s.levels ++ base⟩

theorem begin_onto (base levels : List Level) (t : Token) :
    begin (levels ++ base) t = (begin levels t).map (.onto base) := by
  unfold begin
  split <;> rfl

theorem close_onto (e : Expr) (level : Level) (outer base : List Level) (t : Token) :
    close e level (outer ++ base) t = (close e level outer t).andThen (.onto base) fun e => after e base t := by
  unfold close
  dsimp only
  split
  · rfl
  · split <;> rfl

theorem after_onto (e : Expr) (levels base : List Level) (t : Token) :
    after e (levels ++ base) t = (after e levels t).andThen (.onto base) fun e => after e base t := by
  cases levels with
  | nil => rfl
  | cons level outer => exact close_onto e level outer base t

theorem step_onto (base : List Level) (s : State) (t : Token) :
    step (s.onto base) t = (step s t).andThen (.onto base) fun e => after e base t := by
  have begun (levels : List Level) : (Move.ofBegin (begin (levels ++ base) t) : Move State Expr) =
      (Move.ofBegin (begin levels t)).andThen (.onto base) fun e => after e base t := by
    rw [begin_onto]
    cases begin levels t <;> rfl
  obtain ⟨focus,levels⟩ := s
  cases focus with
  | operand => exact begun levels
  | arguments name =>
      simp only [State.onto,step]
      split
      · rfl
      · exact begun (.ofBracket (.arguments name []) :: levels)
  | name name =>
      simp only [State.onto,step]
      split
      · rfl
      · exact after_onto _ levels base t
  | value e => exact after_onto e levels base t

theorem finish_inside_onto (e : Expr) (levels base : List Level) :
    finishInside e (levels ++ base) = (finishInside e levels).bind fun e => finishInside e base := by
  cases levels with
  | nil => rfl
  | cons level outer =>
      simp only [List.cons_append,finishInside]
      split <;> rfl

theorem finish_onto (base : List Level) (s : State) :
    finish (s.onto base) = (finish s).bind fun e => finishInside e base := by
  obtain ⟨focus,levels⟩ := s
  cases focus with
  | operand | arguments => rfl
  | name name => exact finish_inside_onto _ levels base
  | value e => exact finish_inside_onto e levels base

end Primary

namespace Expression

def State.Held : State → Prop
  | .operands _ (.between _) => False
  | _ => True

def inside (bracket : Primary.Bracket) (outer : List Primary.Level) : State → Primary.State
  | .first p => p.onto (.ofBracket bracket :: outer)
  | .operands first (.operand read o p) => p.onto (⟨bracket,some (⟨first,read⟩,o)⟩ :: outer)
  | .operands first (.between read) => ⟨.value (join first read),.ofBracket bracket :: outer⟩

theorem behind_held (shifted : behind first (Operands.between 0 others t) = .shift next) : next.Held := by
  obtain ⟨o,moved,rfl⟩ | ⟨_,_,nothing⟩ := Move.and_then_shift.mp shifted
  · simp only [Operands.between] at moved
    split at moved
    · split at moved <;> cases moved
      trivial
    · cases moved
  · cases nothing

theorem step_held {s : State} (held : s.Held) (shifted : machine.step s t = .shift next) : next.Held := by
  cases s with
  | first p =>
      obtain ⟨p,moved,rfl⟩ | ⟨e,done,moved⟩ := Move.and_then_shift.mp shifted
      · trivial
      · exact behind_held moved
  | operands first o =>
      cases o with
      | between read => exact held.elim
      | operand read o p =>
          obtain ⟨s,moved,rfl⟩ | ⟨_,_,nothing⟩ := Move.and_then_shift.mp shifted
          · obtain ⟨p,prolonged,rfl⟩ | ⟨e,done,moved⟩ := Move.and_then_shift.mp moved
            · trivial
            · exact behind_held (Move.and_then_shift.mpr (.inl ⟨s,moved,rfl⟩))
          · cases nothing

-- An operator prolongs the run in a bracket as it does outside; any other token meets the whole of it there.
theorem close_inside (level : Primary.Level) (outer : List Primary.Level) (e : Expr) (t : Token) :
    Primary.close e level outer t =
      (behind (level.run e).first (Operands.between 0 (level.run e).others t)).andThen (inside level.bracket outer)
        fun e => Primary.close e (.ofBracket level.bracket) outer t := by
  have whole (e : Expr) : ((Primary.Level.ofBracket level.bracket).run e).expr = e := rfl
  cases binary : t.binaryOperator? with
  | some o =>
      rw [Primary.close_operator binary]
      simp only [Operands.between,binary,if_pos (Int.natCast_nonneg o.precedence)]
      rfl
  | none =>
      simp only [Operands.between,binary]
      simp only [Primary.close,binary,behind,Move.andThen,whole]
      rfl

theorem step_inside {s : State} (held : s.Held) (bracket : Primary.Bracket) (outer : List Primary.Level) (t : Token) :
    Primary.step (inside bracket outer s) t =
      (step s t).andThen (inside bracket outer) fun e => Primary.close e (.ofBracket bracket) outer t := by
  cases s with
  | first p =>
      simp only [inside,Primary.step_onto,step]
      cases Primary.step p t with
      | shift | refuse => rfl
      | done e => exact close_inside (.ofBracket bracket) outer e t
  | operands first o =>
      cases o with
      | between read => exact held.elim
      | operand read o p =>
          simp only [inside,Primary.step_onto,step,Operands.step]
          cases Primary.step p t with
          | shift | refuse => rfl
          | done e => exact close_inside ⟨bracket,some (⟨first,read⟩,o)⟩ outer e t

theorem finish_inside {s : State} (held : s.Held) (bracket : Primary.Bracket) (outer : List Primary.Level) :
    Primary.finish (inside bracket outer s) =
      (finish s).bind fun e => Primary.finishInside e (.ofBracket bracket :: outer) := by
  cases s with
  | first p => exact Primary.finish_onto _ p
  | operands first o =>
      cases o with
      | between read => exact held.elim
      | operand read o p =>
          simp only [inside,Primary.finish_onto,finish,Operands.finish]
          cases Primary.finish p <;> rfl

theorem run_bracket (bracket : Primary.Bracket) (outer : List Primary.Level) (tokens : List Token) :
    Primary.machine.run ⟨.operand,.ofBracket bracket :: outer⟩ tokens = (read tokens).andThen fun e rest =>
      Primary.machine.run ⟨.value e,.ofBracket bracket :: outer⟩ rest := by
  obtain ⟨_,_,same⟩ := Machine.run_inside Primary.machine State.Held (fun _ => inside bracket outer)
    (fun _ e => Primary.close e (.ofBracket bracket) outer)
    (fun _ e => Primary.finishInside e (.ofBracket bracket :: outer)) step_held
    (fun held _ t => step_inside held bracket outer t) (fun held _ => finish_inside held bracket outer)
    (s := start) trivial (.endOfInput none) tokens
  exact same.trans (Reply.and_then_congr fun e rest _ =>
    (Machine.run_goes Primary.machine ⟨.value e,.ofBracket bracket :: outer⟩ rest).symm)

theorem read_begins (t : Token) (later : List Token) : read (t :: later) =
    match begin t with
    | .ok e => machine.run e later
    | .error reason => .refused reason t later := by
  have stepped : step start t = Move.ofBegin (begin t) := by
    simp only [start,step,Primary.step,Primary.State.start,begin]
    cases Primary.begin [] t <;> rfl
  simp only [read,Machine.run,machine,stepped]
  cases begin t <;> rfl

theorem read_first (tokens : List Token) : read tokens = (Primary.read tokens).andThen fun e rest =>
    (Operands.read 0 rest).map (join e) := by
  have begun : read tokens = (Primary.read tokens).andThen fun e rest => machine.run (.operands e (.between [])) rest := by
    refine Machine.run_and_then State.first (fun e => State.operands e (.between [])) (fun _ _ => rfl) ?_ .start tokens
    intro p
    cases value : Primary.finish p <;> simp only [machine,finish,Primary.machine,value] <;> rfl
  rw [begun]
  refine Reply.and_then_congr fun e rest _ => ?_
  have seen : machine.run (.operands e (.between [])) (rest.map id) = (Operands.read 0 rest).image (join e) id :=
    Machine.run_image (State.operands e) (join e) id (fun _ _ => rfl) (fun _ => rfl) (.between []) rest
  rwa [List.map_id,Reply.image_id] at seen

end Expression

namespace Operands

def State.behind (earlier : List (BinaryOperator × Expr)) : State → State
  | .between read => .between (earlier ++ read)
  | .operand read o p => .operand (earlier ++ read) o p

theorem between_behind (earlier read : List (BinaryOperator × Expr)) (least : Int) (t : Token) :
    between least (earlier ++ read) t = (between least read t).andThen (.behind earlier) fun read => .done (earlier ++ read) := by
  unfold between
  split
  · split <;> rfl
  · rfl

-- What was read before has no part in the reading.
theorem run_earlier (least : Int) (earlier : List (BinaryOperator × Expr)) (tokens : List Token) :
    (machine least).run (.between earlier) tokens = (read least tokens).map (earlier ++ ·) := by
  have seen : (machine least).run (.between (earlier ++ [])) (tokens.map id) = (read least tokens).image (earlier ++ ·) id := by
    refine Machine.run_image (State.behind earlier) _ id (fun s t => ?_) (fun s => ?_) (.between []) tokens
    · cases s with
      | between read => exact between_behind earlier read least t
      | operand read o p =>
          simp only [State.behind,machine,step,id]
          cases Primary.step p t with
          | shift | refuse => rfl
          | done e =>
              simp only [Move.andThen,List.append_assoc]
              exact between_behind earlier _ least t
    · cases s with
      | between read => rfl
      | operand read o p =>
          simp only [State.behind,machine,finish]
          cases Primary.finish p with
          | error expected => rfl
          | ok e => exact congrArg Except.ok (List.append_assoc earlier read _)
  rwa [List.append_nil,List.map_id,Reply.image_id] at seen

-- Those operators that bind more tightly come first, and then the others of sufficient precedence go on.
theorem run_tighter (tighter : least ≤ bound) (tokens : List Token) :
    read least tokens = (read bound tokens).andThen fun others rest => (read least rest).map (others ++ ·) := by
  have between_tighter (read : List (BinaryOperator × Expr)) (t : Token) : between least read t =
      (between bound read t).andThen id fun read => between least read t := by
    unfold between
    cases t.binaryOperator? with
    | none => rfl
    | some o =>
        dsimp only
        by_cases binds : bound ≤ o.precedence
        · rw [if_pos binds,if_pos (Int.le_trans tighter binds)]
          rfl
        · rw [if_neg binds]
          rfl
  have ran : read least tokens = (read bound tokens).andThen fun others rest =>
      (machine least).run (.between others) rest := by
    refine Machine.run_and_then id State.between (fun s t => ?_) (fun s => ?_) (.between []) tokens
    · cases s with
      | between read => exact between_tighter read t
      | operand read o p =>
          simp only [machine,step,id]
          cases Primary.step p t with
          | shift | refuse => rfl
          | done e => exact between_tighter _ t
    · cases s with
      | between read => rfl
      | operand read o p =>
          simp only [machine,finish,id]
          cases Primary.finish p <;> rfl
  exact ran.trans (Reply.and_then_congr fun others rest _ => run_earlier least others rest)

theorem first_operator (least : Int) (tokens : List Token) :
    (∀ t ∈ tokens.head?, ∀ o, t.binaryOperator? = some o → o.precedence < least) ∨
      ∃ t later o, tokens = t :: later ∧ t.binaryOperator? = some o ∧ least ≤ o.precedence := by
  cases tokens with
  | nil => exact .inl fun t none => by cases none
  | cons t later =>
      by_cases sufficient : ∃ o, t.binaryOperator? = some o ∧ least ≤ o.precedence
      · exact .inr ⟨t,later,sufficient.choose,rfl,sufficient.choose_spec⟩
      · refine .inl fun u first o binary => ?_
        cases first
        exact Int.not_le.mp fun bound => sufficient ⟨o,binary,bound⟩

theorem read_ended (ends : ∀ t ∈ tokens.head?, ∀ o, t.binaryOperator? = some o → o.precedence < least) :
    read least tokens = .accepted [] tokens := by
  cases tokens with
  | nil => rfl
  | cons t later =>
      have done : between least [] t = .done [] := by
        unfold between
        cases binary : t.binaryOperator? with
        | none => rfl
        | some o => exact if_neg (Int.not_le.mpr (ends t rfl o binary))
      simp only [read,Machine.run,machine,step,done]

theorem first_ended (ends : ∀ t ∈ tokens.head?, ∀ o, t.binaryOperator? = some o → o.precedence < least) :
    readFirst least tokens = .accepted [] tokens := by
  cases tokens with
  | nil => rfl
  | cons t later =>
      rw [readFirst]
      cases binary : t.binaryOperator? with
      | none => rfl
      | some o => exact if_neg (Int.not_le.mpr (ends t rfl o binary))

theorem first_taken (binary : t.binaryOperator? = some o) (sufficient : least ≤ o.precedence) (later : List Token) :
    readFirst least (t :: later) = (Primary.read later).andThen fun e rest =>
      (read (o.precedence + 1) rest).map ([(o,e)] ++ ·) := by
  simp only [readFirst,binary,if_pos sufficient]
  rw [run_operand]
  exact Reply.and_then_congr fun e rest _ => run_earlier _ _ rest

theorem read_operator (binary : t.binaryOperator? = some o) (sufficient : least ≤ o.precedence) (later : List Token) :
    read least (t :: later) = (Primary.read later).andThen fun e rest =>
      (read (o.precedence + 1) rest).andThen fun inner rest => (read least rest).map ((o,e) :: inner ++ ·) := by
  have shifted : between least [] t = .shift (.operand [] o .start) := by
    simp only [between,binary,if_pos sufficient]
  have first : read least (t :: later) = (machine least).run (.operand [] o .start) later := by
    simp only [read,Machine.run,machine,step,shifted]
  rw [first,run_operand]
  refine Reply.and_then_congr fun e rest _ => ?_
  rw [run_earlier,run_tighter (Int.le_trans sufficient (Int.le_add_one (Int.le_refl _))) rest,Reply.map_and_then]
  refine Reply.and_then_congr fun inner rest _ => ?_
  cases read least rest <;> rfl

-- The operators that are read, each with its operand and those that bind it more tightly.
inductive Takes : Int → List Token → List (BinaryOperator × Expr) → List Token → Prop where
  | stop {least : Int} {tokens : List Token}
      (ends : ∀ t ∈ tokens.head?, ∀ o, t.binaryOperator? = some o → o.precedence < least) : Takes least tokens [] tokens
  | next {least : Int} {o : BinaryOperator} (binary : t.binaryOperator? = some o) (sufficient : least ≤ o.precedence)
      (operand : Primary.read later = .accepted e rest) (tighter : Takes (o.precedence + 1) rest tight middle)
      (others : Takes least middle more final) : Takes least (t :: later) ((o,e) :: tight ++ more) final

theorem read_takes (accepted : read least tokens = .accepted others rest) : Takes least tokens others rest := by
  induction size : tokens.length using Nat.strong_induction_on generalizing least tokens others rest with
  | _ size ih =>
      subst size
      rcases first_operator least tokens with ends | ⟨t,later,o,rfl,binary,sufficient⟩
      · rw [read_ended ends] at accepted
        cases accepted
        exact .stop ends
      · rw [read_operator binary sufficient] at accepted
        obtain ⟨e,middle,operand,accepted⟩ := Reply.and_then_accepted.mp accepted
        obtain ⟨inner,behind,tighter,accepted⟩ := Reply.and_then_accepted.mp accepted
        obtain ⟨more,final,rfl⟩ := Reply.map_accepted.mp accepted
        have first : middle.length < (t :: later).length := Nat.lt_succ_of_le (Machine.run_shorter operand)
        have second : behind.length < (t :: later).length := Nat.lt_of_le_of_lt (Machine.run_shorter tighter) first
        exact .next binary sufficient operand (ih _ first tighter rfl) (ih _ second final rfl)

theorem Takes.sufficient (takes : Takes least tokens others rest) : ∀ p ∈ others, least ≤ p.1.precedence := by
  induction takes with
  | stop ends => exact fun p none => by cases none
  | @next t later e rest tight middle more final least o binary sufficient operand tighter others tightIh moreIh =>
      intro p member
      rcases List.mem_cons.mp member with rfl | member
      · exact sufficient
      · rcases List.mem_append.mp member with inside | behind
        · exact Int.le_trans sufficient (Int.le_of_lt (Int.lt_of_add_one_le (tightIh p inside)))
        · exact moreIh p behind

theorem Takes.ends (takes : Takes least tokens others rest) :
    ∀ t ∈ rest.head?, ∀ o, t.binaryOperator? = some o → o.precedence < least := by
  induction takes with
  | stop ends => exact ends
  | next _ _ _ _ _ _ moreIh => exact moreIh

theorem Takes.begins (takes : Takes least tokens others rest) :
    ∀ p ∈ others.head?, ∃ t ∈ tokens.head?, t.binaryOperator? = some p.1 := by
  cases takes with
  | stop ends => exact fun p none => by cases none
  | next binary => exact fun p first => ⟨_,rfl,by cases first; exact binary⟩

end Operands

theorem Expression.read_ends (accepted : read tokens = .accepted e rest) : ∀ t ∈ rest.head?, t.binaryOperator? = none := by
  rw [read_first] at accepted
  obtain ⟨first,middle,_,accepted⟩ := Reply.and_then_accepted.mp accepted
  obtain ⟨others,taken,_⟩ := Reply.map_accepted.mp accepted
  intro t head
  cases binary : t.binaryOperator? with
  | none => rfl
  | some o => exact absurd ((Operands.read_takes taken).ends t head o binary) (Int.not_lt.mpr (Int.natCast_nonneg _))

namespace Primary

theorem value_run (e : Expr) (tokens : List Token) : machine.run ⟨.value e,[]⟩ tokens = .accepted e tokens := by
  cases tokens <;> rfl

theorem read_number (number : t.kind = .number) (later : List Token) :
    read (t :: later) = .accepted (numberOf t) later := by
  have shifted : step .start t = .shift ⟨.value (numberOf t),[]⟩ := by
    simp only [State.start,step,begin,number,Move.ofBegin]
  simp only [read,Machine.run,machine,shifted]
  exact value_run (numberOf t) later

theorem read_other (number : t.kind ≠ .number) (opening : t.kind ≠ .openParen) (name : t.kind ≠ .identifier)
    (later : List Token) : read (t :: later) = .refused .notExpression t later := by
  have refused : step .start t = .refuse .notExpression := by
    simp only [State.start,step,begin]
    rfl
  simp only [read,Machine.run,machine,refused]

theorem read_group (opening : t.kind = .openParen) (later : List Token) : read (t :: later) =
    (Expression.read later).andThen fun e rest =>
      (demand .closeParen .groupClosing TokenStream.takeToken rest).andThen fun _ rest => .accepted e rest := by
  have shifted : step .start t = .shift ⟨.operand,[.ofBracket .group]⟩ := by
    simp only [State.start,step,begin,opening,Move.ofBegin]
  have first : read (t :: later) = machine.run ⟨.operand,[.ofBracket .group]⟩ later := by
    simp only [read,Machine.run,machine,shifted]
  rw [first,Expression.run_bracket]
  refine Reply.and_then_congr fun e rest accepted => ?_
  cases rest with
  | nil => rfl
  | cons c behind =>
      have other : c.binaryOperator? = none := Expression.read_ends accepted c rfl
      by_cases closing : c.kind = .closeParen
      · have closed : step ⟨.value e,[.ofBracket .group]⟩ c = .shift ⟨.value e,[]⟩ := close_group closing rfl e []
        simp only [Machine.run,machine,closed,demand,if_pos closing,TokenStream.takeToken,Reply.andThen]
        exact value_run e behind
      · have refused : step ⟨.value e,[.ofBracket .group]⟩ c = .refuse (.unexpected .groupClosing) := by
          simp only [step,after,close,other]
          cases kind : c.kind <;> first | rfl | exact absurd kind closing
        simp only [Machine.run,machine,refused,demand,if_neg closing,Reply.andThen]

theorem read_name (named : t.kind = .identifier) (later : List Token) : read (t :: later) = machine.run ⟨.name t,[]⟩ later := by
  have shifted : step .start t = .shift ⟨.name t,[]⟩ := by
    simp only [State.start,step,begin,named,Move.ofBegin]
  simp only [read,Machine.run,machine,shifted]

theorem reference_run (apart : ∀ o ∈ later.head?, o.kind ≠ .openParen) (n : Token) :
    machine.run ⟨.name n,[]⟩ later = .accepted (referenceTo n) later := by
  cases later with
  | nil => rfl
  | cons o behind => simp only [Machine.run,machine,step,if_neg (apart o rfl),after]

theorem call_run (opening : o.kind = .openParen) (n : Token) (later : List Token) :
    machine.run ⟨.name n,[]⟩ (o :: later) = machine.run ⟨.arguments n,[]⟩ later := by
  simp only [Machine.run,machine,step,if_pos opening]

theorem bare_run (closing : c.kind = .closeParen) (n : Token) (later : List Token) :
    machine.run ⟨.arguments n,[]⟩ (c :: later) = .accepted (callOf n c []) later := by
  simp only [Machine.run,machine,step,if_pos closing]
  exact value_run _ later

theorem arguments_run (some : ∀ t ∈ tokens.head?, t.kind ≠ .closeParen) (n : Token) :
    machine.run ⟨.arguments n,[]⟩ tokens = machine.run ⟨.operand,[.ofBracket (.arguments n [])]⟩ tokens := by
  cases tokens with
  | nil => rfl
  | cons t later => simp only [Machine.run,machine,step,if_neg (some t rfl)]

-- What follows an argument: the next one, the end of the list or nothing that fits.
def behindArgument (n : Token) (es : List Expr) : List Token → Reply Expr
  | [] => .exhausted .argumentsContinuation
  | t :: later =>
      match t.kind with
      | .comma => machine.run ⟨.operand,[.ofBracket (.arguments n es)]⟩ later
      | .closeParen => .accepted (callOf n t es) later
      | _ => .refused (.unexpected .argumentsContinuation) t later

theorem argument_run (n : Token) (es : List Expr) (tokens : List Token) :
    machine.run ⟨.operand,[.ofBracket (.arguments n es)]⟩ tokens =
      (Expression.read tokens).andThen fun e rest => behindArgument n (es ++ [e]) rest := by
  rw [Expression.run_bracket]
  refine Reply.and_then_congr fun e rest accepted => ?_
  cases rest with
  | nil => rfl
  | cons t later =>
      have other : t.binaryOperator? = none := Expression.read_ends accepted t rfl
      simp only [Machine.run,machine,step,after,close,other,behindArgument]
      cases t.kind with
      | closeParen => exact value_run _ later
      | _ => rfl

end Primary

namespace Header

theorem read_demands (tokens : List Token) : read tokens = demand .identifier .functionName read tokens := by
  cases tokens with
  | nil => rfl
  | cons n later =>
      by_cases named : n.kind = .identifier
      · exact (if_pos named).symm
      · simp only [demand,if_neg named,read,Machine.run,machine,step]

theorem read_name (named : n.kind = .identifier) (later : List Token) :
    read (n :: later) = machine.run (.opening n) later := by
  simp only [read,Machine.run,machine,step,if_pos named]

theorem opening_demands (n : Token) (tokens : List Token) :
    machine.run (.opening n) tokens = demand .openParen .parametersOpening (machine.run (.opening n)) tokens := by
  cases tokens with
  | nil => rfl
  | cons o later =>
      by_cases opening : o.kind = .openParen
      · exact (if_pos opening).symm
      · simp only [demand,if_neg opening,Machine.run,machine,step]

theorem opening_run (opening : o.kind = .openParen) (n : Token) (later : List Token) :
    machine.run (.opening n) (o :: later) = machine.run (.parameters n []) later := by
  simp only [Machine.run,machine,step,if_pos opening]

end Header

theorem Primary.read_derives (accepted : read tokens = .accepted e rest) :
    ∃ w, tokens = w ++ rest ∧ Derivation.Operand w e := by
  obtain ⟨w,stopped,left,rfl,consumed,verdict⟩ := Machine.run_exact.mp accepted
  have reached : Reached stopped ([] ++ w) := Machine.consume_invariant step_reached start_reached consumed
  cases verdict with
  | finished value => exact ⟨w,rfl,finish_derives reached value⟩
  | done value => exact ⟨w,rfl,step_derives reached value⟩

theorem Expression.read_derives (accepted : read tokens = .accepted e rest) :
    ∃ w r, tokens = w ++ rest ∧ Derivation.Run w r ∧ e = r.expr := by
  obtain ⟨w,stopped,left,rfl,consumed,verdict⟩ := Machine.run_exact.mp accepted
  have reached : Reached stopped ([] ++ w) := Machine.consume_invariant step_reached (.first Primary.start_reached) consumed
  cases verdict with
  | finished value => exact ⟨w,_,rfl,finish_derives reached value |>.choose_spec⟩
  | done value => exact ⟨w,_,rfl,step_derives reached value |>.choose_spec⟩

theorem Header.read_derives (accepted : read tokens = .accepted p rest) :
    ∃ w, tokens = w ++ rest ∧ Derivation.Heading w p := by
  obtain ⟨w,stopped,left,rfl,consumed,verdict⟩ := Machine.run_exact.mp accepted
  have reached : Reached stopped ([] ++ w) := Machine.consume_invariant step_reached .name consumed
  cases verdict with
  | finished value => exact ⟨w,rfl,finish_derives reached value⟩
  | done value => exact ⟨w,rfl,step_derives reached value⟩

theorem Primary.read_shorter (accepted : read tokens = .accepted e rest) : rest.length < tokens.length := by
  obtain ⟨w,rfl,derived⟩ := read_derives accepted
  have positive := List.length_pos_iff.mpr derived.nonempty
  rw [List.length_append]
  omega

theorem Expression.read_shorter (accepted : read tokens = .accepted e rest) : rest.length < tokens.length := by
  obtain ⟨w,r,rfl,derived,_⟩ := read_derives accepted
  have positive := List.length_pos_iff.mpr derived.nonempty
  rw [List.length_append]
  omega

theorem Primary.read_call (named : n.kind = .identifier) (opening : o.kind = .openParen)
    (accepted : read (n :: o :: later) = .accepted e rest) :
    ∃ w c es, n :: o :: later = w ++ c :: rest ∧ e = callOf n c es := by
  obtain ⟨v,split,derived⟩ := read_derives accepted
  rw [read_name named,call_run opening] at accepted
  have within := Machine.run_shorter accepted
  cases derived with
  | number t kind =>
      obtain ⟨rfl,_⟩ := List.cons.inj split
      rw [named] at kind
      cases kind
  | reference t kind =>
      obtain ⟨_,rfl⟩ := List.cons.inj split
      exact absurd within (Nat.not_succ_le_self _)
  | group t c grouped =>
      obtain ⟨rfl,_⟩ := List.cons.inj split
      rw [named] at grouped
      cases grouped
  | bareCall m p c =>
      obtain ⟨rfl,_⟩ := List.cons.inj split
      exact ⟨[n,p],c,[],split,rfl⟩
  | @call w es m p c =>
      obtain ⟨rfl,_⟩ := List.cons.inj split
      exact ⟨n :: p :: w,c,es,by rw [split,List.append_assoc]; rfl,rfl⟩

namespace TopLevel

theorem header_run (k last : Token) (tokens : List Token) : ∃ w, tokens = w ++ (Header.read tokens).rest ∧
    machine.run (.definition k .name last) tokens = (Header.read tokens).andThen fun p rest =>
      machine.run (.definition k (.closed p) (w.getLastD last)) rest := by
  obtain ⟨w,split,same⟩ := Machine.run_inside (m := Header.machine) machine (fun _ => True) (fun last h => .definition k h last)
    (fun last p => step (.definition k (.closed p) last)) (fun last p => finish (.definition k (.closed p) last))
    (fun _ _ => trivial) (fun _ _ _ => rfl) (fun _ _ => rfl) (s := Header.State.name) trivial last tokens
  exact ⟨w,split,same.trans (Reply.and_then_congr fun p rest _ =>
    (Machine.run_goes machine (.definition k (.closed p) (w.getLastD last)) rest).symm)⟩

theorem external_run (k last : Token) (tokens : List Token) : ∃ w, tokens = w ++ (Header.read tokens).rest ∧
    machine.run (.external k .name last) tokens = (Header.read tokens).map (external k (w.getLastD last)) :=
  Machine.run_recording machine (fun last h => .external k h last) (external k) (fun _ _ _ => rfl) (fun _ _ => rfl)
    Header.State.name last tokens

theorem body_run (k last : Token) (p : Prototype) (tokens : List Token) :
    ∃ w, tokens = w ++ (Expression.read tokens).rest ∧ machine.run (.definition k (.closed p) last) tokens =
      (Expression.read tokens).map (definition k (w.getLastD last) p) := by
  cases tokens with
  | nil => exact ⟨[],rfl,rfl⟩
  | cons t later =>
      have stepped : machine.step (.definition k (.closed p) last) t =
          Move.ofBegin ((Expression.begin t).map fun e => .body k p e t) := rfl
      rw [Expression.read_begins]
      simp only [Machine.run,stepped]
      cases Expression.begin t with
      | error reason => exact ⟨[],rfl,rfl⟩
      | ok e =>
          obtain ⟨w,split,same⟩ := Machine.run_recording (m := Expression.machine) machine (fun last e => .body k p e last)
            (fun last body => definition k last p body) (fun _ _ _ => rfl) (fun _ _ => rfl) e t later
          exact ⟨t :: w,congrArg (t :: ·) split,by rw [List.getLastD_cons]; exact same⟩

theorem anonymous_run (t : Token) (later : List Token) : ∃ w, t :: later = w ++ (Expression.read (t :: later)).rest ∧
    readExpression (t :: later) = (Expression.read (t :: later)).map fun body => .ofExpr body (t.spanTo (w.getLastD t)) := by
  rw [Expression.read_begins]
  simp only [readExpression,beginExpression]
  cases Expression.begin t with
  | error reason => exact ⟨[],rfl,rfl⟩
  | ok e =>
      obtain ⟨w,split,same⟩ := Machine.run_recording (m := Expression.machine) machine (fun last e => .expression t e last)
        (fun last body => .ofExpr body (t.spanTo last)) (fun _ _ _ => rfl) (fun _ _ => rfl) e t later
      exact ⟨t :: w,congrArg (t :: ·) split,by rw [List.getLastD_cons]; exact same⟩

theorem read_kind (t : Token) (later : List Token) : read (t :: later) =
    match t.kind with
    | .definition => machine.run (.definition t .name t) later
    | .external => machine.run (.external t .name t) later
    | _ => readExpression (t :: later) := by
  simp only [read,Machine.run,machine,step,begin,readExpression]
  cases t.kind with
  | definition | external => rfl
  | _ => cases beginExpression t <;> rfl

end TopLevel

end KaleidoscopeFrontEnd

import KaleidoscopeFrontEnd.Proofs.Derivation
import KaleidoscopeFrontEnd.Proofs.Streams
import KaleidoscopeFrontEnd.TokenStream.Calls

namespace KaleidoscopeFrontEnd

variable {σ α β : Type} {reading : List Token → Reply α}

def Reply.leaving (rest : List Token) : Reply α → Reply α
  | .accepted value _ => .accepted value rest
  | .refused reason found _ => .refused reason found rest.tail
  | .exhausted expected => .exhausted expected

-- A reading that looks at the tokens it consumes and at the one behind them, and no further.
def Sighted (reading : List Token → Reply α) : Prop :=
  ∀ tokens, ∃ w, tokens = w ++ (reading tokens).rest ∧
    ∀ other, other.head? = (reading tokens).rest.head? → reading (w ++ other) = (reading tokens).leaving other

theorem Reply.leaving_rest (reply : Reply α) (alike : other.head? = reply.rest.head?) :
    (reply.leaving other).rest = other := by
  cases reply with
  | accepted value rest => rfl
  | refused reason found later =>
      obtain ⟨behind,rfl⟩ := List.head?_eq_some_iff.mp alike
      rfl
  | exhausted expected => exact (List.head?_eq_none_iff.mp alike).symm

theorem Reply.leaving_result (reply : Reply α) (stops : reply.rest = [] → stop = final) :
    (reply.leaving other).result stop = reply.result final := by
  cases reply with
  | accepted value rest => rfl
  | refused reason found later => rfl
  | exhausted expected => simp only [leaving,result,stops rfl]

theorem Reply.leaving_self (reply : Reply α) (rest : reply.rest = []) : reply = reply.leaving [] := by
  cases reply with
  | accepted value later => cases rest; rfl
  | refused reason found later => cases rest
  | exhausted expected => rfl

theorem Reply.map_leaving (f : α → β) (reply : Reply α) :
    (reply.map f).leaving other = (reply.leaving other).map f := by
  cases reply <;> rfl

theorem head_append (alike : other.head? = rest.head?) (w : List Token) : (w ++ other).head? = (w ++ rest).head? := by
  rw [List.head?_append,List.head?_append,alike]

theorem Machine.Verdict.leaving {m : Machine σ α} (verdict : Verdict m s rest reply)
    (alike : other.head? = rest.head?) : Verdict m s other (reply.leaving other) := by
  cases verdict with
  | finished value =>
      rw [List.head?_eq_none_iff.mp alike]
      exact .finished value
  | exhausted wanted =>
      rw [List.head?_eq_none_iff.mp alike]
      exact .exhausted wanted
  | done value =>
      obtain ⟨behind,rfl⟩ := List.head?_eq_some_iff.mp alike
      exact .done value
  | refused refusal =>
      obtain ⟨behind,rfl⟩ := List.head?_eq_some_iff.mp alike
      exact .refused refusal

namespace Sighted

theorem suffix (sighted : Sighted reading) (tokens : List Token) : (reading tokens).rest <:+ tokens := by
  obtain ⟨w,split,_⟩ := sighted tokens
  exact ⟨w,split.symm⟩

theorem run (m : Machine σ α) (s : σ) : Sighted (m.run s) := by
  intro tokens
  obtain ⟨w,stopped,rest,split,consumed,verdict⟩ := m.run_verdict s tokens
  rw [verdict.rest_exact]
  refine ⟨w,split,fun other alike => ?_⟩
  rw [Machine.run_consume consumed]
  exact (verdict.leaving alike).run

theorem map (sighted : Sighted reading) (f : α → β) : Sighted fun tokens => (reading tokens).map f := by
  intro tokens
  obtain ⟨w,split,alike⟩ := sighted tokens
  rw [Reply.map_rest]
  refine ⟨w,split,fun other same => ?_⟩
  rw [Reply.map_leaving,← alike other same]

-- A reading consumes its first token, or goes on as another one in front of it, or is complete there, or refuses it.
inductive Opens (reading : List Token → Reply α) (t : Token) : Prop where
  | consumed (behind : List Token → Reply α) (sighted : Sighted behind)
      (goes : ∀ later, reading (t :: later) = behind later) : Opens reading t
  | passed (other : List Token → Reply α) (sighted : Sighted other)
      (goes : ∀ later, reading (t :: later) = other (t :: later)) : Opens reading t
  | complete (value : α) (stays : ∀ later, reading (t :: later) = .accepted value (t :: later)) : Opens reading t
  | refused (reason : Refusal) (refuses : ∀ later, reading (t :: later) = .refused reason t later) : Opens reading t

theorem of_opens (none : (reading []).rest = []) (opens : ∀ t, Opens reading t) : Sighted reading := by
  intro tokens
  cases tokens with
  | nil =>
      rw [none]
      refine ⟨[],rfl,fun other alike => ?_⟩
      rw [List.head?_eq_none_iff.mp alike]
      exact (reading []).leaving_self none
  | cons t later =>
      cases opens t with
      | consumed behind sighted goes =>
          obtain ⟨w,split,alike⟩ := sighted later
          rw [goes]
          refine ⟨t :: w,congrArg (t :: ·) split,fun other same => ?_⟩
          rw [List.cons_append,goes]
          exact alike other same
      | passed other sighted goes =>
          obtain ⟨w,split,alike⟩ := sighted (t :: later)
          rw [goes]
          refine ⟨w,split,fun rest same => ?_⟩
          have first := (head_append same w).trans (congrArg List.head? split).symm
          obtain ⟨behind,whole⟩ := List.head?_eq_some_iff.mp first
          rw [← alike rest same,whole,goes]
      | complete value stays =>
          rw [stays]
          refine ⟨[],rfl,fun other same => ?_⟩
          obtain ⟨behind,rfl⟩ := List.head?_eq_some_iff.mp same
          exact stays behind
      | refused reason refuses =>
          rw [refuses]
          refine ⟨[],rfl,fun other same => ?_⟩
          obtain ⟨behind,rfl⟩ := List.head?_eq_some_iff.mp same
          exact refuses behind

theorem demanded (sighted : Sighted reading) (kind : TokenKind) (expected : Expectation) :
    Sighted (demand kind expected reading) := by
  refine of_opens rfl fun t => ?_
  by_cases fits : t.kind = kind
  · exact .passed reading sighted fun _ => if_pos fits
  · exact .refused (.unexpected expected) fun _ => if_neg fits

theorem read_expression : Sighted TopLevel.readExpression := by
  refine of_opens rfl fun t => ?_
  cases begun : TopLevel.beginExpression t with
  | ok s => exact .consumed _ (run TopLevel.machine s) fun _ => by simp only [TopLevel.readExpression,begun]
  | error reason => exact .refused reason fun _ => by simp only [TopLevel.readExpression,begun]

theorem read_first (least : Int) : Sighted (Operands.readFirst least) := by
  refine of_opens rfl fun t => ?_
  cases binary : t.binaryOperator? with
  | none => exact .complete [] fun _ => by simp only [Operands.readFirst,binary]
  | some operator =>
      by_cases sufficient : least ≤ operator.precedence
      · refine .consumed _ (run (Operands.machine (operator.precedence + 1)) (.operand [] operator .start)) fun _ => ?_
        simp only [Operands.readFirst,binary,if_pos sufficient]
      · exact .complete [] fun _ => by simp only [Operands.readFirst,binary,if_neg sufficient]

theorem take_token : Sighted TokenStream.takeToken :=
  of_opens rfl fun t => .consumed (.accepted t) (fun _ => ⟨[],rfl,fun _ _ => rfl⟩) fun _ => rfl

end Sighted

namespace TokenStream

variable {α : Type} {s t : TokenStream}

inductive Call.Asks (c : Call) : Prop where
  | reading {α : Type} (reading : List Token → Reply α) (answer : Except SyntaxFault α → Answer)
      (sighted : Sighted reading) (faults : ∀ r f, answer r = .error (.reading f) ↔ r = .error f)
      (asked : ∀ s : TokenStream, s.call c = (answer (s.apply reading).1,(s.apply reading).2)) : Asks c
  | look (answer : Token → Value) (asked : ∀ s : TokenStream, s.call c = (.ok (answer s.peek),s)) : Asks c
  | back (previous : c = .previous) : Asks c

theorem Call.asks_reading {c : Call} {reading : List Token → Reply α} (sighted : Sighted reading) (value : α → Value)
    (asked : ∀ s : TokenStream, s.call c = answered value (s.apply reading)) : c.Asks := by
  refine .reading reading (fun r => (r.map value).mapError .reading) sighted (fun r f => ?_) asked
  cases r <;> simp [Except.map,Except.mapError]

theorem Call.asks_operands (least : Int) (left : Node) : (Call.operands least left).Asks := by
  cases spanned : left.hasSpan with
  | true =>
      have sighted : Sighted fun tokens => (Operands.read least tokens).map left.join :=
        .map (.run (Operands.machine least) (.between [])) left.join
      refine .reading _ (fun r => (r.mapError .reading).map .node) sighted (fun r f => ?_) fun s => ?_
      · cases r <;> simp [Except.map,Except.mapError]
      · simp only [call,TokenStream.operands,spanned,if_true]
  | false =>
      let settle (taken : List (BinaryOperator × Expr)) : Except OperandFault Node :=
        if taken.isEmpty then .ok left else .error (.node (.lacking left.kind "span"))
      refine .reading _ (fun r => ((r.mapError OperandFault.reading).bind settle).map .node) (.read_first least)
        (fun r f => ?_) fun s => ?_
      · cases r with
        | error fault => simp [Except.map,Except.mapError,Except.bind]
        | ok taken => cases taken <;> simp [Except.map,Except.mapError,Except.bind,settle]
      · simp only [call,TokenStream.operands,spanned,Bool.false_eq_true,if_false,settle]

theorem precedence_peek (s : TokenStream) :
    s.precedence = s.peek.binaryOperator?.elim (-1) fun o => (o.precedence : Int) := by
  unfold precedence operator?
  cases s.peek.binaryOperator? <;> rfl

theorem Call.asks (c : Call) : c.Asks := by
  cases c with
  | item => exact asks_reading (.run TopLevel.machine .start) .item fun _ => rfl
  | definition => exact asks_reading (.demanded (.run TopLevel.machine .start) _ _) .item fun _ => rfl
  | external => exact asks_reading (.demanded (.run TopLevel.machine .start) _ _) .item fun _ => rfl
  | bareExpression => exact asks_reading .read_expression .item fun _ => rfl
  | program => exact asks_reading (.run Program.machine (.between [])) .items fun _ => rfl
  | header => exact asks_reading (.run Header.machine .name) .header fun _ => rfl
  | expression => exact asks_reading (.run Expression.machine Expression.start) .expr fun _ => rfl
  | primary => exact asks_reading (.run Primary.machine .start) .expr fun _ => rfl
  | number => exact asks_reading (.demanded (.run Primary.machine .start) _ _) .expr fun _ => rfl
  | group => exact asks_reading (.demanded (.run Primary.machine .start) _ _) .expr fun _ => rfl
  | name => exact asks_reading (.demanded (.run Primary.machine .start) _ _) .expr fun _ => rfl
  | arguments => exact asks_reading (.demanded (.map (.run Primary.machine _) _) _ _) .exprs fun _ => rfl
  | operands least left => exact asks_operands least left
  | precedence =>
      refine .look (fun t => .number (t.binaryOperator?.elim (-1) fun o => o.precedence)) fun s => ?_
      rw [← precedence_peek]
      rfl
  | peek => exact .look .token fun _ => rfl
  | previous => exact .back rfl
  | isAtEnd => exact .look (fun t => .truth t.isEnd) fun _ => rfl
  | check kind => exact .look (fun t => .truth (decide (t.kind = kind))) fun _ => rfl
  | advance => exact asks_reading .take_token .token fun _ => rfl
  | expect kind expected => exact asks_reading (.demanded .take_token kind expected) .token fun _ => rfl

theorem split_alike {w v z : List Token} (alike : ∀ i ≤ w.length, v[i]? = (w ++ z)[i]?) :
    ∃ y, v = w ++ y ∧ y.head? = z.head? := by
  induction w generalizing v with
  | nil =>
      have first := alike 0 (Nat.le_refl 0)
      rw [List.nil_append,← List.head?_eq_getElem?,← List.head?_eq_getElem?] at first
      exact ⟨v,rfl,first⟩
  | cons u w ih =>
      have first := alike 0 (Nat.zero_le _)
      rw [← List.head?_eq_getElem?] at first
      obtain ⟨v,rfl⟩ := List.head?_eq_some_iff.mp first
      have later : ∀ i ≤ w.length, v[i]? = (w ++ z)[i]? := fun i bound => alike (i + 1) (Nat.succ_le_succ bound)
      obtain ⟨y,rfl,head⟩ := ih later
      exact ⟨y,rfl,head⟩

theorem head_alike {other rest : List Token} (alike : other.head? = rest.head?) (stop : rest = [] → final = first) :
    other.headD final = rest.headD first := by
  rw [List.headD_eq_head?_getD,List.headD_eq_head?_getD,alike]
  cases rest with
  | nil => exact stop rfl
  | cons u rest => rfl

theorem unread_alike (same : t.place = s.place) (split : s.unread = w ++ rest)
    (alike : ∀ i, s.place ≤ i → i ≤ s.place + w.length → t.tokens[i]? = s.tokens[i]?) :
    ∃ other, t.unread = w ++ other ∧ other.head? = rest.head? ∧ (rest = [] → t.stop = s.stop) := by
  have here : s.ahead = w ++ (rest ++ s.beyond) := by rw [ahead_split,split,List.append_assoc]
  have ahead : ∀ i ≤ w.length, t.ahead[i]? = (w ++ (rest ++ s.beyond))[i]? := by
    intro i bound
    rw [← here,TokenStream.ahead,TokenStream.ahead,List.getElem?_drop,List.getElem?_drop,same]
    exact alike (s.place + i) (Nat.le_add_right _ _) (Nat.add_le_add_left bound _)
  have endless := s.unread_endless
  rw [split] at endless
  obtain ⟨inner,others⟩ := List.forall_mem_append.mp endless
  obtain ⟨y,there,head⟩ := split_alike ahead
  cases rest with
  | nil =>
      have ended : ∀ u ∈ y.head?, u.isEnd = true := head ▸ s.beyond_ended
      have unread : t.unread = w := by
        rw [TokenStream.unread,there]
        exact content_until inner ended
      have parts := t.ahead_split
      rw [there,unread] at parts
      refine ⟨[],by rw [unread,List.append_nil],rfl,fun _ => ?_⟩
      rw [stop_beyond,stop_beyond,← List.append_cancel_left parts]
      exact head_alike head fun _ => rfl
  | cons u rest =>
      obtain ⟨y,rfl⟩ := List.head?_eq_some_iff.mp head
      refine ⟨u :: content y,?_,rfl,fun impossible => by cases impossible⟩
      rw [TokenStream.unread,there]
      exact content_through inner (others u List.mem_cons_self) y

theorem before_place (inside : s.place ≤ s.tokens.length) (split : s.unread = w ++ rest) :
    (s.before rest).place = s.place + w.length := by
  change s.body.length - rest.length = s.place + w.length
  rw [body,split,← List.append_assoc,List.length_append,Nat.add_sub_cancel,List.length_append,List.length_take,
    Nat.min_eq_left inside]

theorem call_alike {call : Call} (looks : call ≠ .previous) (inside : s.place < s.tokens.length)
    (same : t.place = s.place)
    (alike : ∀ i, s.place ≤ i → i ≤ (s.call call).2.place → t.tokens[i]? = s.tokens[i]?) :
    (t.call call).1 = (s.call call).1 ∧ (t.call call).2.place = (s.call call).2.place := by
  cases call.asks with
  | back previous => exact absurd previous looks
  | look answer asked =>
      rw [asked] at alike
      obtain ⟨other,unread,head,stop⟩ := unread_alike (w := []) same rfl alike
      have peek : t.peek = s.peek := by
        rw [TokenStream.peek,TokenStream.peek,unread]
        exact head_alike head stop
      rw [asked,asked,peek]
      exact ⟨rfl,same⟩
  | reading reading answer sighted _ asked =>
      obtain ⟨w,split,seen⟩ := sighted s.unread
      have ends : (s.call call).2.place = s.place + w.length := by
        rw [asked]
        exact before_place inside.le split
      rw [ends] at alike
      obtain ⟨other,unread,head,stop⟩ := unread_alike same split alike
      have first := alike s.place (Nat.le_refl _) (Nat.le_add_right _ _)
      obtain ⟨within,_⟩ := List.getElem?_eq_some_iff.mp (first.trans (List.getElem?_eq_getElem inside))
      rw [← same] at within
      have replied : reading t.unread = (reading s.unread).leaving other := by rw [unread,seen other head]
      have left : (reading t.unread).rest = other := by rw [replied,Reply.leaving_rest _ head]
      rw [ends,asked,asked,apply_exact,apply_exact,left,replied,Reply.leaving_result _ stop]
      refine ⟨rfl,?_⟩
      rw [← same]
      exact before_place within.le unread

-- A call depends on nothing but the tokens from its place through the one it stops at: those in front of them and
-- behind them can be exchanged.
theorem call_lookahead {call : Call} (looks : call ≠ .previous) (inside : s.place < s.tokens.length) :
    (∀ t : TokenStream, t.place = s.place →
      (∀ i, s.place ≤ i → i ≤ (s.call call).2.place → t.tokens[i]? = s.tokens[i]?) →
      (t.call call).1 = (s.call call).1 ∧ (t.call call).2.place = (s.call call).2.place) ∧
    ((s.call call).2.place < s.tokens.length → ∀ earlier later : List Token, earlier.length = s.place →
      let t : TokenStream := ⟨earlier ++ (s.tokens.take ((s.call call).2.place + 1)).drop s.place ++ later,s.place⟩
      (t.call call).1 = (s.call call).1 ∧ (t.call call).2.place = (s.call call).2.place) := by
  refine ⟨fun t same alike => call_alike looks inside same alike,fun found earlier later before => ?_⟩
  refine call_alike looks inside rfl fun i above below => ?_
  have bound : i - s.place < ((s.tokens.take ((s.call call).2.place + 1)).drop s.place).length := by
    rw [List.length_drop,List.length_take]
    omega
  rw [List.append_assoc,List.getElem?_append_right (by omega),List.getElem?_append_left (by omega),List.getElem?_drop,
    List.getElem?_take_of_lt (by omega)]
  congr 1
  omega

theorem call_lookahead_item :
    let s : TokenStream := { ofTokens [.ofName "a",.ofSymbol ";",.ofName "f",.opening,.ofName "x",.closing,.ofSymbol ";",
      .ofName "b"] with place := 2 }
    let t : TokenStream := ⟨[.ofSymbol "+",.ofSymbol "+",.ofName "f",.opening,.ofName "x",.closing,.ofSymbol ";",
      .closing],2⟩
    Call.item ≠ .previous ∧ s.place < s.tokens.length ∧
      (s.call .item).1 = .ok (.item (.ofExpr (.call "f" [.reference "x" none] none) none)) ∧
      (t.call .item).1 = (s.call .item).1 ∧ (t.call .item).2.place = 6 := by
  intro s t
  have looks : Call.item ≠ .previous := fun same => by cases same
  have inside : s.place < s.tokens.length := by decide
  have ends : (s.call .item).2.place = 6 := rfl
  obtain ⟨answer,place⟩ := (call_lookahead looks inside).2 (by decide) [.ofSymbol "+",.ofSymbol "+"] [.closing] rfl
  exact ⟨looks,inside,rfl,answer,place.trans ends⟩

end TokenStream

end KaleidoscopeFrontEnd

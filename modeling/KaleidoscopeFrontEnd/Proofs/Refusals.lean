import KaleidoscopeFrontEnd.Proofs.Printing
import KaleidoscopeFrontEnd.Proofs.StreamCalls
import KaleidoscopeFrontEnd.Proofs.Viability

namespace KaleidoscopeFrontEnd

variable {σ α β γ : Type}

def Expectation.Native : Expectation → Prop
  | .other _ => False
  | _ => True

def Shifts (look : Token → Move σ α) (kind : TokenKind) : Prop := ∃ t next, t.kind = kind ∧ look t = .shift next

-- What a reason says about the kinds that would have been consumed instead of the token found.
def Refusal.Tells (consumed : TokenKind → Prop) (found : Token) : Refusal → Prop
  | .notExpression => consumed .number
  | .commaInParameters =>
      ¬ consumed .number ∧ found.kind = .comma ∧ consumed .identifier ∧ consumed .closeParen
  | .unexpected expected => expected.Native ∧ ¬ consumed .number ∧
      ¬ (found.kind = .comma ∧ consumed .identifier ∧ consumed .closeParen)

theorem Refusal.Tells.congr {reason : Refusal} (tells : reason.Tells consumed t)
    (same : ∀ kind, kind ≠ .openParen → kind ≠ .endOfInput → (consumed kind ↔ other kind)) : reason.Tells other t := by
  have number := same .number (by decide) (by decide)
  have identifier := same .identifier (by decide) (by decide)
  have closing := same .closeParen (by decide) (by decide)
  cases reason <;> simpa only [Tells,number,identifier,closing] using tells

-- The first part is what the law is about, the second carries it from a machine to the one around it.
structure Candid (look : Token → Move σ α) : Prop where
  tells : ∀ {t reason}, look t = .refuse reason → reason.Tells (Shifts look) t
  waits : ∀ {t reason}, look t = .refuse reason → ∀ u value, look u ≠ .done value

namespace Candid

variable {look : Token → Move σ α}

theorem settled (never : ∀ t reason, look t ≠ .refuse reason) : Candid look :=
  ⟨fun refused => absurd refused (never _ _),fun refused => absurd refused (never _ _)⟩

theorem begins (number : look Token.zero = .shift next)
    (refuses : ∀ {t reason}, look t = .refuse reason → reason = .notExpression)
    (waits : ∀ t value, look t ≠ .done value) : Candid look := by
  refine ⟨?_,fun _ => waits⟩
  intro t reason refused
  cases refuses refused
  exact ⟨Token.zero,next,rfl,number⟩

theorem expects (refuses : ∀ {t reason}, look t = .refuse reason → ∃ e, reason = .unexpected e ∧ e.Native)
    (number : ¬ Shifts look .number) (other : ¬ Shifts look .identifier ∨ ¬ Shifts look .closeParen)
    (waits : ∀ t value, look t ≠ .done value) : Candid look := by
  refine ⟨?_,fun _ => waits⟩
  intro t reason refused
  obtain ⟨e,rfl,native⟩ := refuses refused
  refine ⟨native,number,?_⟩
  intro ⟨_,identifier,closing⟩
  exact other.elim (fun none => none identifier) (fun none => none closing)

-- A single kind cannot be both of those that a parameter list offers.
theorem awaits (kind : TokenKind) (moved : Token → σ) (native : Expectation.Native expected) (other : kind ≠ .number) :
    Candid fun t => (if t.kind = kind then .shift (moved t) else .refuse (.unexpected expected) : Move σ α) := by
  have only : ∀ {k}, Shifts (fun t => (if t.kind = kind then .shift (moved t) else .refuse (.unexpected expected) : Move σ α)) k →
      k = kind := by
    intro k ⟨t,next,known,shifted⟩
    by_cases here : t.kind = kind
    · exact known.symm.trans here
    · simp [here] at shifted
  refine .expects ?_ (fun number => other (only number).symm) ?_ ?_
  · intro t reason refused
    split at refused <;> cases refused
    exact ⟨expected,rfl,native⟩
  · by_cases named : kind = .identifier
    · right
      intro closing
      cases named.symm.trans (only closing).symm
    · left
      intro identifier
      exact named (only identifier).symm
  · intro t value done
    split at done <;> cases done

theorem opened (candid : Candid look) (moved : Token → σ) :
    Candid fun t => if t.kind = .openParen then .shift (moved t) else look t := by
  have refuses : ∀ {t reason}, (if t.kind = .openParen then .shift (moved t) else look t) = .refuse reason →
      look t = .refuse reason := by
    intro t reason refused
    split at refused
    · cases refused
    · exact refused
  constructor
  · intro t reason refused
    refine (candid.tells (refuses refused)).congr ?_
    intro kind other _
    constructor
    · intro ⟨u,next,known,shifted⟩
      exact ⟨u,next,known,(if_neg (known ▸ other)).trans shifted⟩
    · intro ⟨u,next,known,shifted⟩
      exact ⟨u,next,known,(if_neg (known ▸ other)).symm.trans shifted⟩
  · intro t reason refused u value done
    split at done
    · cases done
    · exact candid.waits (refuses refused) u value done

theorem and_then (candid : Candid look) (shifted : Token → σ → β) (after : Token → α → Move β γ)
    (behind : (∀ t v reason, after t v ≠ .refuse reason) ∨
      ∀ t v, (t.kind = .number → ∃ next, after t v = .shift next) ∧
        (∀ reason, after t v = .refuse reason → reason = .notExpression) ∧ ∀ result, after t v ≠ .done result) :
    Candid fun t => (look t).andThen (shifted t) (after t) := by
  have shift : ∀ {t s}, look t = .shift s → (look t).andThen (shifted t) (after t) = .shift (shifted t s) :=
    Move.and_then_of_shift
  constructor
  · intro t reason refused
    cases seen : look t with
    | shift s => simp [seen,Move.andThen] at refused
    | refuse first =>
        simp only [seen,Move.andThen] at refused
        cases refused
        -- Nothing is done here, so what is consumed is what the first look consumes.
        refine (candid.tells seen).congr ?_
        intro kind _ _
        constructor
        · intro taken
          obtain ⟨u,next,known,moved⟩ := taken
          exact ⟨u,_,known,shift moved⟩
        · intro taken
          obtain ⟨u,next,known,moved⟩ := taken
          rcases Move.and_then_shift.mp moved with ⟨s,here,_⟩ | ⟨v,done,_⟩
          · exact ⟨u,s,known,here⟩
          · exact absurd done (candid.waits seen u v)
    | done v =>
        simp only [seen,Move.andThen] at refused
        cases behind with
        | inl never => exact absurd refused (never t v reason)
        | inr opens =>
            cases (opens t v).2.1 reason refused
            cases first : look Token.zero with
            | shift s => exact ⟨Token.zero,_,rfl,shift first⟩
            | refuse r => exact absurd seen (candid.waits first t v)
            | done w =>
                obtain ⟨next,moved⟩ := (opens Token.zero w).1 rfl
                have begun : (look Token.zero).andThen (shifted Token.zero) (after Token.zero) = .shift next := by
                  rw [first]
                  exact moved
                exact ⟨Token.zero,next,rfl,begun⟩
  · intro t reason refused u result ended
    obtain ⟨v,done,rest⟩ := Move.and_then_done.mp ended
    cases seen : look t with
    | shift s => simp [seen,Move.andThen] at refused
    | refuse first => exact absurd done (candid.waits seen u v)
    | done w =>
        simp only [seen,Move.andThen] at refused
        cases behind with
        | inl never => exact absurd refused (never t w reason)
        | inr opens => exact absurd rest ((opens u v).2.2 result)

end Candid

namespace Primary

theorem begin_refuses (refused : begin levels t = .error reason) : reason = .notExpression := by
  unfold begin at refused
  split at refused
  all_goals cases refused
  rfl

theorem begin_number (levels : List Level) (number : t.kind = .number) :
    begin levels t = .ok ⟨.value (numberOf t),levels⟩ := by
  simp only [begin,number]

theorem close_candid (e : Expr) (level : Level) (outer : List Level) : Candid (close e level outer) := by
  have closed : ∀ kind, kind = .number ∨ kind = .identifier → ¬ Shifts (close e level outer) kind := by
    intro kind other ⟨t,next,known,shifted⟩
    have silent : t.binaryOperator? = none := Token.not_binary known (by rcases other with rfl | rfl <;> decide)
    cases bracket : level.bracket <;> rcases other with rfl | rfl <;>
      simp [close,silent,bracket,known] at shifted
  refine .expects ?_ (closed _ (.inl rfl)) (.inl (closed _ (.inr rfl))) ?_
  · intro t reason refused
    unfold close at refused
    dsimp only at refused
    split at refused
    · cases refused
    · split at refused <;> cases refused <;> exact ⟨_,rfl,trivial⟩
  · intro t value done
    unfold close at done
    dsimp only at done
    split at done
    · cases done
    · split at done <;> cases done

theorem after_candid (e : Expr) (levels : List Level) : Candid (after e levels) := by
  cases levels with
  | nil => exact .settled (by intro t reason refused; cases refused)
  | cons level outer => exact close_candid e level outer

theorem candid (s : State) : Candid (machine.step s) := by
  obtain ⟨focus,levels⟩ := s
  cases focus with
  | value e => exact after_candid e levels
  | name n => exact (after_candid (referenceTo n) levels).opened fun _ => ⟨.arguments n,levels⟩
  | operand =>
      refine .begins rfl ?_ ?_
      · intro t reason refused
        exact begin_refuses (Move.of_begin_refuse.mp refused)
      · intro t value
        exact Move.of_begin_not_done
  | arguments n =>
      refine .begins rfl ?_ ?_
      · intro t reason refused
        simp only [machine,step] at refused
        split at refused
        · cases refused
        · exact begin_refuses (Move.of_begin_refuse.mp refused)
      · intro t value done
        simp only [machine,step] at done
        split at done
        · cases done
        · exact Move.of_begin_not_done done

end Primary

namespace Header

theorem candid (s : State) : Candid (machine.step s) := by
  cases s with
  | name =>
      have native : Expectation.Native .functionName := trivial
      exact Candid.awaits .identifier State.opening native (by decide)
  | opening n =>
      have native : Expectation.Native .parametersOpening := trivial
      exact Candid.awaits .openParen (fun _ => State.parameters n []) native (by decide)
  | parameters n names =>
      have number : ¬ Shifts (machine.step (.parameters n names)) .number := by
        intro ⟨t,next,known,shifted⟩
        simp [machine,step,known] at shifted
      constructor
      · intro t reason refused
        simp only [machine,step] at refused
        split at refused <;> cases refused
        · rename_i comma
          exact ⟨number,comma,⟨Token.ofName "x",_,rfl,rfl⟩,⟨Token.closing,_,rfl,rfl⟩⟩
        · rename_i other
          exact ⟨trivial,number,fun both => other both.1⟩
      · intro t reason _ u value done
        simp only [machine,step] at done
        split at done <;> cases done
  | closed p => exact .settled (by intro t reason refused; cases refused)

end Header

namespace Operands

theorem between_settled (least : Int) (read : List (BinaryOperator × Expr)) (t : Token) (reason : Refusal) :
    between least read t ≠ .refuse reason := by
  intro refused
  unfold between at refused
  split at refused
  · split at refused <;> cases refused
  · cases refused

theorem candid (least : Int) (s : State) : Candid ((machine least).step s) := by
  cases s with
  | between read => exact .settled (between_settled least read)
  | operand read o p =>
      exact (Primary.candid p).and_then _ _ (.inl fun t e reason => between_settled least _ t reason)

end Operands

namespace Expression

theorem behind_settled {m : Move Operands.State (List (BinaryOperator × Expr))} (settled : m ≠ .refuse reason)
    (first : Expr) : behind first m ≠ .refuse reason := by
  intro refused
  cases m with
  | shift | done => cases refused
  | refuse other =>
      cases refused
      exact settled rfl

theorem candid (s : State) : Candid (machine.step s) := by
  cases s with
  | first p =>
      refine (Primary.candid p).and_then _ _ (.inl ?_)
      intro t e reason
      exact behind_settled (Operands.between_settled 0 [] t reason) e
  | operands first o =>
      refine (Operands.candid 0 o).and_then _ _ (.inl ?_)
      intro t others reason refused
      cases refused

theorem begin_refuses (refused : begin t = .error reason) : reason = .notExpression :=
  Primary.begin_refuses (map_error.mp refused)

theorem begin_number (number : t.kind = .number) : ∃ s, begin t = .ok s :=
  ⟨_,map_ok.mpr ⟨_,Primary.begin_number [] number,rfl⟩⟩

end Expression

namespace TopLevel

theorem begin_refuses (refused : begin t = .error reason) : reason = .notExpression := by
  unfold begin at refused
  split at refused
  · cases refused
  · cases refused
  · exact Expression.begin_refuses (map_error.mp refused)

theorem begin_number (number : t.kind = .number) : ∃ s, begin t = .ok s := by
  obtain ⟨e,begun⟩ := Expression.begin_number number
  refine ⟨.expression t e t,?_⟩
  simp only [begin,number]
  exact map_ok.mpr ⟨e,begun,rfl⟩

theorem candid (s : State) : Candid (machine.step s) := by
  cases s with
  | start =>
      refine .begins rfl ?_ ?_
      · intro t reason refused
        exact begin_refuses (Move.of_begin_refuse.mp refused)
      · intro t value
        exact Move.of_begin_not_done
  | definition k h last =>
      refine (Header.candid h).and_then _ _ (.inr ?_)
      intro t p
      refine ⟨?_,?_,?_⟩
      · intro number
        obtain ⟨e,begun⟩ := Expression.begin_number number
        exact ⟨_,Move.of_begin_shift.mpr (map_ok.mpr ⟨e,begun,rfl⟩)⟩
      · intro reason refused
        exact Expression.begin_refuses (map_error.mp (Move.of_begin_refuse.mp refused))
      · intro result
        exact Move.of_begin_not_done
  | external k h last =>
      refine (Header.candid h).and_then _ _ (.inl ?_)
      intro t p reason refused
      cases refused
  | body k p e last =>
      refine (Expression.candid e).and_then _ _ (.inl ?_)
      intro t body reason refused
      cases refused
  | expression first e last =>
      refine (Expression.candid e).and_then _ _ (.inl ?_)
      intro t body reason refused
      cases refused

end TopLevel

namespace Program

theorem begin_refuses (refused : begin items t = .refuse reason) : reason = .notExpression := by
  unfold begin at refused
  split at refused
  · cases refused
  · exact TopLevel.begin_refuses (map_error.mp (Move.of_begin_refuse.mp refused))

theorem begin_number (items : List Item) (number : t.kind = .number) : ∃ next, begin items t = .shift next := by
  obtain ⟨s,begun⟩ := TopLevel.begin_number number
  unfold begin
  split
  · exact ⟨_,rfl⟩
  · exact ⟨_,Move.of_begin_shift.mpr (map_ok.mpr ⟨s,begun,rfl⟩)⟩

theorem candid (s : State) : Candid (machine.step s) := by
  obtain ⟨items,current⟩ := s
  by_cases started : current = .start
  · subst started
    refine .begins rfl ?_ ?_
    · intro t reason refused
      exact begin_refuses refused
    · intro t value
      exact begin_not_done items t
  · have inside : machine.step ⟨items,current⟩ = fun t =>
        (TopLevel.machine.step current t).andThen (⟨items,·⟩) fun i => begin (items ++ [i]) t :=
      funext (step_inside started items)
    rw [inside]
    refine (TopLevel.candid current).and_then _ _ (.inr ?_)
    intro t i
    refine ⟨begin_number (items ++ [i]),?_,?_⟩
    · intro reason refused
      exact begin_refuses refused
    · intro result
      exact begin_not_done (items ++ [i]) t

end Program

-- A kind of token that could stand next: one of that kind behind the tokens before, and more behind
-- that, make a program.
def Possible (before : List Token) (kind : TokenKind) : Prop := ∃ t, t.kind = kind ∧ Viable (before ++ [t])

theorem possible_exact (endless : ∀ t ∈ w, t.isEnd = false)
    (consumed : Program.machine.consume (.between []) w = some s) (inner : kind ≠ .endOfInput) :
    Possible w kind ↔ Shifts (Program.machine.step s) kind := by
  have token : ∀ t : Token, t.kind = kind → t.isEnd = false := by
    intro t known
    exact decide_eq_false (known ▸ inner)
  constructor
  · intro ⟨t,known,viable⟩
    cases moved : Program.machine.step s t with
    | shift next => exact ⟨t,next,known,moved⟩
    | done value => exact absurd moved (Program.step_not_done s t)
    | refuse reason => exact absurd viable (refused_not_viable consumed moved endless (token t known) [])
  · intro ⟨t,next,known,moved⟩
    refine ⟨t,known,consumed_viable ?_ ((Machine.consume_append consumed).trans (Machine.consume_single moved))⟩
    exact List.forall_mem_append.mpr ⟨endless,List.forall_mem_singleton.mpr (token t known)⟩

theorem refused_tells (consumed : Program.machine.consume (.between []) w = some s)
    (refusal : Program.machine.step s t = .refuse reason) (endless : ∀ u ∈ w, u.isEnd = false) :
    reason.Tells (Possible w) t := by
  refine ((Program.candid s).tells refusal).congr ?_
  intro kind _ inner
  exact (possible_exact endless consumed inner).symm

def Token.Lexed (t : Token) : Prop := ∃ c : Cursor, c.next.1 = .ok t

theorem Token.Lexed.lexical {t : Token} (lexed : t.Lexed) (inner : t.isEnd = false) : t.Lexical := by
  obtain ⟨c,delivered⟩ := lexed
  obtain ⟨event,after,pull⟩ := Cursor.pull_exists c
  rw [pull.next] at delivered
  cases pull with
  | last final => cases delivered; cases inner
  | malformed split layout broken => cases delivered
  | token split layout lexeme => cases delivered; exact ⟨_,_,lexeme⟩

theorem Cursor.Drains.lexed {c : Cursor} (drains : c.Drains all stop) :
    (∀ t, .ok t ∈ all → Token.Lexed t) ∧ stop.Lexed := by
  induction drains with
  | @last c stop after pulled ended => exact ⟨fun t member => absurd member List.not_mem_nil,c,by rw [pulled]⟩
  | @event c e after all stop pulled more later ih =>
      refine ⟨?_,ih.2⟩
      intro t member
      rcases List.mem_cons.mp member with rfl | behind
      · exact ⟨c,by rw [pulled]⟩
      · exact ih.1 t behind

theorem complete_lexed (complete : (Lexing.ofText file text).complete = .ok tokens) : ∀ t ∈ tokens, t.Lexed := by
  obtain ⟨w,stop,drains,rfl⟩ := lexes_complete.mp complete
  obtain ⟨inner,last⟩ := drains.lexed
  intro t member
  rcases List.mem_append.mp member with before | ended
  · exact inner t (List.mem_map_of_mem before)
  · exact List.mem_singleton.mp ended ▸ last

theorem symbol_exact (c : Char) :
    BinaryOperator.ofSymbol? (String.ofList [c]) = none ↔ c ∉ SyntaxFault.binarySymbols := by
  have same : ∀ o : BinaryOperator, o.symbol = String.ofList [c] ↔ o.symbol.toList = [c] := by
    intro o
    rw [← String.toList_inj,String.toList_ofList]
  unfold BinaryOperator.ofSymbol?
  rw [List.find?_eq_none]
  simp only [beq_iff_eq,same]
  simp [BinaryOperator.all,BinaryOperator.symbol,SyntaxFault.binarySymbols,eq_comm]

-- The list of symbols is a second table of operators. It agrees with the first one on what is read from a text.
theorem suggests_exact {t : Token} (lexical : t.Lexical) :
    SyntaxFault.suggestsOperators t = true ↔ t.kind = .operator ∧ t.binaryOperator? = none := by
  by_cases kind : t.kind = .operator
  · obtain ⟨w,rest,lexeme⟩ := lexical
    rw [kind] at lexeme
    generalize value : t.value = v at lexeme
    cases lexeme with
    | @operator c rest solid letter digit other =>
        have word : t.word = String.ofList [c] := by rw [Token.word,value]
        have listed : SyntaxFault.occursIn [c] SyntaxFault.binarySymbols = true ↔ c ∈ SyntaxFault.binarySymbols := by
          simp [SyntaxFault.occursIn,SyntaxFault.binarySymbols,List.isPrefixOf]
        have symbol : t.binaryOperator? = BinaryOperator.ofSymbol? (String.ofList [c]) := by
          simp only [Token.binaryOperator?,kind,value]
        simp only [SyntaxFault.suggestsOperators,kind,decide_true,Bool.true_and,word,String.toList_ofList,
          Bool.not_eq_true',← Bool.not_eq_true,listed,symbol,symbol_exact,true_and]
  · simp [SyntaxFault.suggestsOperators,kind]

namespace TokenStream

variable {tokens : List Token} {s : TokenStream}

theorem precedence_exact (s : TokenStream) : s.precedence = -1 ↔ s.peek.binaryOperator? = none := by
  unfold precedence operator?
  cases s.peek.binaryOperator? with
  | none => simp
  | some o => cases o <;> simp [BinaryOperator.precedence]

theorem read_fault_found (failed : (ofTokens tokens).apply Program.read = (.error fault,s)) :
    fault.found = s.peek ∧ (fault.isIncomplete = true ↔ s.peek.isEnd = true) ∧
      (ofTokens tokens).tokens[s.place]? = some s.peek := by
  have left : (Program.read (ofTokens tokens).unread).rest <:+ (ofTokens tokens).unread :=
    Machine.run_rest_suffix _ _ _
  have endless : ∀ t ∈ (Program.read (ofTokens tokens).unread).rest, t.isEnd = false :=
    fun t member => unread_endless _ t (left.subset member)
  rw [apply_exact] at failed
  obtain ⟨result,rfl⟩ := Prod.mk.inj failed
  obtain ⟨found,incomplete⟩ := Reply.result_fault result endless (stop_end _)
  rw [← before_peek left] at found incomplete
  refine ⟨found,incomplete,?_⟩
  exact peek_found (by rw [before_body _ left]; exact of_tokens_within tokens)

end TokenStream

theorem read_fault_parts (failed : (TokenStream.ofTokens tokens).apply Program.read = (.error fault,s)) :
    (∃ stopped expected last, Program.machine.consume (.between []) (content tokens) = some stopped ∧
      Program.machine.finish stopped = .error expected ∧ fault = .incomplete expected last) ∨
    ∃ stopped t reason,
      Program.machine.consume (.between []) (tokens.take s.place) = some stopped ∧
      Program.machine.step stopped t = .refuse reason ∧ fault = reason.fault t ∧ t ∈ content tokens ∧
      ∀ u ∈ tokens.take s.place, u.isEnd = false := by
  obtain ⟨w,stopped,rest,split,consumed,verdict⟩ := Machine.run_verdict Program.machine (.between []) (content tokens)
  generalize replied : Program.machine.run (.between []) (content tokens) = reply at verdict
  have reading : Program.read (content tokens) = reply := replied
  cases verdict with
  | finished value =>
      rw [TokenStream.apply_exact,TokenStream.of_tokens_unread,reading] at failed
      cases failed
  | done value => exact absurd value (Program.step_not_done stopped _)
  | exhausted wanted =>
      rw [TokenStream.apply_exact,TokenStream.of_tokens_unread,reading] at failed
      cases failed
      rw [List.append_nil] at split
      exact .inl ⟨stopped,_,_,split ▸ consumed,wanted,rfl⟩
  | @refused t reason later refusal =>
      rw [refused_apply consumed refusal split] at failed
      cases failed
      obtain ⟨behind,whole⟩ := content_prefix tokens
      have before : tokens.take w.length = w := by
        rw [← whole,split,List.append_assoc,List.take_left]
      have endless : ∀ u ∈ w ++ t :: later, u.isEnd = false := split ▸ content_endless tokens
      refine .inr ⟨stopped,t,reason,?_⟩
      dsimp only
      rw [before,split]
      refine ⟨consumed,refusal,rfl,List.mem_append_right w List.mem_cons_self,?_⟩
      intro u member
      exact endless u (List.mem_append_left _ member)

theorem incomplete_code (fault : SyntaxFault) : fault.code = "P010" ↔ fault.isIncomplete = true := by
  cases fault <;> simp [SyntaxFault.code,SyntaxFault.isIncomplete]

theorem refused_code {reason : Refusal} (tells : reason.Tells possible t) :
    ((reason.fault t).code = "P005" ↔ possible .number) ∧
      (¬ possible .number →
        ((reason.fault t).code = "P008" ↔ t.kind = .comma ∧ possible .identifier ∧ possible .closeParen) ∧
        (¬ (t.kind = .comma ∧ possible .identifier ∧ possible .closeParen) → (reason.fault t).code = "P001")) := by
  cases reason with
  | notExpression =>
      have code : (Refusal.fault t .notExpression).code = "P005" := rfl
      refine ⟨⟨fun _ => tells,fun _ => code⟩,?_⟩
      intro none
      exact absurd tells none
  | commaInParameters =>
      have code : (Refusal.fault t .commaInParameters).code = "P008" := rfl
      obtain ⟨number,both⟩ := tells
      rw [code]
      simp [number,both]
  | unexpected expected =>
      have code : (Refusal.fault t (.unexpected expected)).code = "P001" := rfl
      obtain ⟨_,number,other⟩ := tells
      rw [code]
      simp only [number,other]
      decide

-- The code of a fault tells what could have stood where it is reported. The suggestion is made for operators that have
-- no precedence, and for nothing else.
theorem code_tells_next (lexed : ∀ t ∈ tokens, t.Lexed)
    (failed : (TokenStream.ofTokens tokens).apply Program.read = (.error fault,s)) :
    let found := fault.found
    let possible := Possible (tokens.take s.place)
    let separates := found.kind = .comma ∧ possible .identifier ∧ possible .closeParen
    (TokenStream.ofTokens tokens).tokens[s.place]? = some found ∧
    (fault.code = "P010" ↔ found.isEnd = true) ∧
    (found.isEnd = false → (fault.code = "P005" ↔ possible .number) ∧
      (¬ possible .number → (fault.code = "P008" ↔ separates) ∧ (¬ separates → fault.code = "P001"))) ∧
    (fault.code = "P001" →
      (fault.suggestions = some ["Only '<', '+', '-' and '*' are binary operators"] ↔
        found.kind = .operator ∧ s.precedence = -1)) := by
  intro found possible separates
  obtain ⟨here,incomplete,listed⟩ := TokenStream.read_fault_found failed
  have ended : fault.code = "P010" ↔ found.isEnd = true := by
    rw [incomplete_code,incomplete,← here]
  refine ⟨by rw [listed,← here],ended,?_⟩
  rcases read_fault_parts failed with ⟨_,expected,last,_,_,rfl⟩ | ⟨stopped,t,reason,consumed,refusal,rfl,inside,endless⟩
  · have code := (incomplete_code (.incomplete expected last)).mpr rfl
    refine ⟨fun inner => absurd (ended.mp code) (by rw [inner]; exact Bool.false_ne_true),?_⟩
    intro unexpected
    rw [code] at unexpected
    exact absurd unexpected (by decide)
  · have same : found = t := (fault_found reason t).1
    refine ⟨fun _ => ?_,?_⟩
    · simp only [separates,same]
      exact refused_code (refused_tells consumed refusal endless)
    · intro unexpected
      rw [TokenStream.precedence_exact,← here]
      cases reason with
      | notExpression => exact absurd unexpected (by simp [Refusal.fault,SyntaxFault.code])
      | commaInParameters => exact absurd unexpected (by simp [Refusal.fault,SyntaxFault.code])
      | unexpected expected =>
          have inner := content_endless tokens t inside
          have front := content_prefix tokens
          have lexical := (lexed t (front.subset inside)).lexical inner
          have suggests := suggests_exact lexical
          simp only [Refusal.fault,SyntaxFault.suggestions,SyntaxFault.found,found]
          rw [← suggests]
          cases SyntaxFault.suggestsOperators t <;> simp

theorem code_tells_next_comma : ∃ tokens fault s,
    (Lexing.ofText inputName "def f(a, b) a".toList).complete = .ok tokens ∧
    (TokenStream.ofTokens tokens).apply Program.read = (.error fault,s) ∧ s.place = 4 ∧ fault.code = "P008" ∧
      ¬ Possible (tokens.take 4) .number ∧ Possible (tokens.take 4) .identifier ∧
      Possible (tokens.take 4) .closeParen := by
  have computed : ((Lexing.ofText inputName "def f(a, b) a".toList).complete.toOption.map fun tokens =>
      let read := (TokenStream.ofTokens tokens).apply Program.read
      (match read.1 with
        | .error fault => fault.code
        | .ok _ => "",read.2.place)) = some ("P008",4) := by decide +kernel
  obtain ⟨tokens,complete,shown⟩ := Option.map_eq_some_iff.mp computed
  have lexed := of_to_option complete
  cases failed : (TokenStream.ofTokens tokens).apply Program.read with
  | mk result s =>
      cases result with
      | ok items => simp [failed] at shown
      | error fault =>
          simp only [failed,Prod.mk.injEq] at shown
          obtain ⟨code,place⟩ := shown
          have told := code_tells_next (complete_lexed lexed) failed
          simp only [place,code] at told
          obtain ⟨_,ended,next,_⟩ := told
          have inner : fault.found.isEnd = false := by
            rw [← Bool.not_eq_true,← ended]
            decide
          have number : ¬ Possible (tokens.take 4) .number := by
            rw [← (next inner).1]
            decide
          obtain ⟨_,identifier,closing⟩ := ((next inner).2 number).1.mp trivial
          exact ⟨tokens,fault,s,lexed,failed,place,code,number,identifier,closing⟩

end KaleidoscopeFrontEnd

import KaleidoscopeFrontEnd.Proofs.Acceptance

namespace KaleidoscopeFrontEnd

variable {σ τ α β : Type}

namespace Machine

-- Some word leads from the state to a complete reading.
def Completable (m : Machine σ α) (s : σ) : Prop :=
  ∃ w next value, (∀ t ∈ w, t.isEnd = false) ∧ m.consume s w = some next ∧ m.finish next = .ok value

variable {m : Machine σ α}

theorem Completable.here (finished : m.finish s = .ok value) : m.Completable s :=
  ⟨[],s,value,by simp,rfl,finished⟩

theorem Completable.shift (t : Token) (inner : t.isEnd = false) (shifted : m.step s t = .shift next)
    (later : m.Completable next) : m.Completable s := by
  obtain ⟨w,last,value,endless,consumed,finished⟩ := later
  exact ⟨t :: w,last,value,List.forall_mem_cons.mpr ⟨inner,endless⟩,(consume_cons shifted).trans consumed,finished⟩

theorem Completable.inside {outer : Machine τ β} (inner : m.Completable s) (inside : Token → σ → τ)
    (shifts : ∀ {last s t next}, m.step s t = .shift next → outer.step (inside last s) t = .shift (inside t next))
    (behind : ∀ last {s value}, m.finish s = .ok value → outer.Completable (inside last s)) (last : Token) :
    outer.Completable (inside last s) := by
  obtain ⟨w,next,value,endless,consumed,finished⟩ := inner
  obtain ⟨v,final,result,more,rest,ended⟩ := behind (w.getLastD last) finished
  refine ⟨w ++ v,final,result,List.forall_mem_append.mpr ⟨endless,more⟩,?_,ended⟩
  rw [consume_append (consume_inside inside shifts last consumed)]
  exact rest

theorem Completable.within {outer : Machine τ β} {after : Token → σ → Token → α → Move τ β}
    {result : Token → σ → α → β} (inner : m.Completable s) (inside : Token → σ → τ)
    (steps : ∀ last s t, outer.step (inside last s) t = (m.step s t).andThen (inside t) (after last s t))
    (finishes : ∀ last s, outer.finish (inside last s) = (m.finish s).map (result last s)) (last : Token) :
    outer.Completable (inside last s) := by
  refine inner.inside inside ?_ ?_ last
  · intro last s t next shifted
    rw [steps]
    exact Move.and_then_of_shift shifted
  · intro last s value finished
    exact .here ((finishes last s).trans (map_ok.mpr ⟨value,finished,rfl⟩))

end Machine

namespace Primary

theorem value_completable (e : Expr) (levels : List Level) : machine.Completable ⟨.value e,levels⟩ := by
  induction levels generalizing e with
  | nil => exact .here rfl
  | cons level outer ih =>
      cases bracket : level.bracket with
      | group =>
          have closed : close e level outer Token.closing = _ := close_group rfl bracket e outer
          exact .shift Token.closing rfl closed (ih _)
      | arguments n earlier =>
          have closed : close e level outer Token.closing = _ := close_arguments rfl bracket e outer
          exact .shift Token.closing rfl closed (ih _)

theorem completable (s : State) : machine.Completable s := by
  obtain ⟨focus,levels⟩ := s
  cases focus with
  | value e => exact value_completable e levels
  | operand => exact .shift Token.zero rfl rfl (value_completable _ levels)
  | arguments n => exact .shift Token.closing rfl rfl (value_completable _ levels)
  | name n => exact .shift Token.opening rfl rfl (.shift Token.closing rfl rfl (value_completable _ levels))

end Primary

namespace Operands

theorem completable (least : Int) (s : State) : (machine least).Completable s := by
  cases s with
  | between read => exact .here rfl
  | operand read o p =>
      exact (Primary.completable p).within (fun _ => State.operand read o) (fun _ _ _ => rfl) (fun _ _ => rfl) Token.zero

end Operands

namespace Expression

theorem completable (s : State) : machine.Completable s := by
  cases s with
  | first p =>
      refine (Primary.completable p).inside (fun _ => State.first) ?_ (fun _ _ _ finished => .here finished) Token.zero
      exact Move.and_then_of_shift
  | operands first o =>
      exact (Operands.completable 0 o).within (fun _ => State.operands first) (fun _ _ _ => rfl) (fun _ _ => rfl) Token.zero

end Expression

namespace Header

theorem parameters_completable (n : Token) (names : List String) : machine.Completable (.parameters n names) :=
  .shift Token.closing rfl rfl (.here rfl)

theorem completable (s : State) : machine.Completable s := by
  cases s with
  | name => exact .shift (Token.ofName "f") rfl rfl (.shift Token.opening rfl rfl (parameters_completable _ _))
  | opening n => exact .shift Token.opening rfl rfl (parameters_completable n _)
  | parameters n names => exact parameters_completable n names
  | closed p => exact .here rfl

end Header

namespace TopLevel

theorem expression_completable (t last : Token) (e : Expression.State) : machine.Completable (.expression t e last) :=
  (Expression.completable e).within (fun last e => State.expression t e last) (fun _ _ _ => rfl) (fun _ _ => rfl) last

theorem body_completable (k last : Token) (p : Prototype) (e : Expression.State) :
    machine.Completable (.body k p e last) :=
  (Expression.completable e).within (fun last e => State.body k p e last) (fun _ _ _ => rfl) (fun _ _ => rfl) last

theorem completable (s : State) : machine.Completable s := by
  cases s with
  | start => exact .shift Token.zero rfl rfl (expression_completable _ _ _)
  | definition k h last =>
      refine (Header.completable h).inside (fun last h => State.definition k h last) ?_ ?_ last
      · exact Move.and_then_of_shift
      · intro last h p finished
        cases h with
        | name | opening | parameters => cases finished
        | closed => exact .shift Token.zero rfl rfl (body_completable _ _ _ _)
  | external k h last =>
      exact (Header.completable h).within (fun last h => State.external k h last) (fun _ _ _ => rfl) (fun _ _ => rfl) last
  | body k p e last => exact body_completable k last p e
  | expression t e last => exact expression_completable t last e

end TopLevel

namespace Program

-- Nothing that was consumed is a dead end, so whatever rules a program out is a token that no state shifts.
theorem completable (s : State) : machine.Completable s := by
  obtain ⟨items,current⟩ := s
  refine (TopLevel.completable current).inside (fun _ current => State.mk items current) ?_ ?_ Token.zero
  · exact fun shifted => item_shift shifted items
  · intro last current i finished
    have started : current ≠ .start := by
      rintro rfl
      cases finished
    exact .here ((item_finish finished started items).trans rfl)

-- No reading of the grammar, greedy or not, gets past a refused token.
theorem refused_run (consumed : machine.consume (.between []) w = some s) (refusal : machine.step s t = .refuse reason)
    (later : List Token) : read (w ++ t :: later) = .refused reason t later :=
  Machine.run_exact.mpr ⟨w,s,t :: later,rfl,consumed,.refused refusal⟩

theorem refused_underivable (consumed : machine.consume (.between []) w = some s)
    (refusal : machine.step s t = .refuse reason) (later : List Token) : ¬ Language.Program (w ++ t :: later) := by
  intro derived
  obtain ⟨items,accepted⟩ := Language.read_exact.mpr derived
  rw [refused_run consumed refusal] at accepted
  cases accepted

end Program

def Viable (tokens : List Token) : Prop := ∃ more, Accepts (tokens ++ more)

theorem consumed_viable (endless : ∀ t ∈ w, t.isEnd = false)
    (consumed : Program.machine.consume (.between []) w = some s) : Viable w := by
  obtain ⟨more,next,items,others,rest,finished⟩ := Program.completable s
  refine ⟨more,accepts_read.mpr ⟨items,?_⟩⟩
  rw [content_self (List.forall_mem_append.mpr ⟨endless,others⟩)]
  refine Machine.run_exact.mpr ⟨w ++ more,next,[],(List.append_nil _).symm,?_,.finished finished⟩
  rw [Machine.consume_append consumed]
  exact rest

theorem refused_apply (consumed : Program.machine.consume (.between []) w = some stopped)
    (refusal : Program.machine.step stopped t = .refuse reason) (split : content tokens = w ++ t :: later) :
    (TokenStream.ofTokens tokens).apply Program.read =
      (.error (reason.fault t),{ TokenStream.ofTokens tokens with place := w.length }) := by
  have place : (content tokens).length - (t :: later).length = w.length := by
    rw [split,List.length_append,Nat.add_sub_cancel]
  rw [TokenStream.apply_exact,TokenStream.of_tokens_unread,split,Program.refused_run consumed refusal,
    TokenStream.before,TokenStream.of_tokens_body]
  simp only [Reply.result,Reply.rest,place]

theorem refused_not_viable (consumed : Program.machine.consume (.between []) w = some stopped)
    (refusal : Program.machine.step stopped t = .refuse reason) (endless : ∀ u ∈ w, u.isEnd = false)
    (inner : t.isEnd = false) (later : List Token) : ¬ Viable (w ++ t :: later) := by
  rintro ⟨more,accepted⟩
  have derived := Language.read_exact.mp (accepts_read.mp accepted)
  rw [List.append_assoc,List.cons_append,content_through endless inner] at derived
  exact Program.refused_underivable consumed refusal _ derived

theorem refused_earliest (consumed : Program.machine.consume (.between []) w = some stopped)
    (refusal : Program.machine.step stopped t = .refuse reason) (split : content tokens = w ++ t :: later) :
    tokens[w.length]? = some t ∧ Viable (tokens.take w.length) ∧ ¬ Viable (tokens.take (w.length + 1)) ∧
      ¬ Viable tokens ∧ ∀ more, (TokenStream.ofTokens (tokens ++ more)).apply Program.read =
        (.error (reason.fault t),{ TokenStream.ofTokens (tokens ++ more) with place := w.length }) := by
  obtain ⟨endless,others⟩ := List.forall_mem_append.mp (split ▸ content_endless tokens)
  have inner := others t List.mem_cons_self
  obtain ⟨behind,whole⟩ := content_prefix tokens
  rw [split,List.append_assoc,List.cons_append] at whole
  subst whole
  refine ⟨?_,?_,?_,refused_not_viable consumed refusal endless inner _,?_⟩
  · rw [List.getElem?_append_right (Nat.le_refl _),Nat.sub_self,List.getElem?_cons_zero]
  · rw [List.take_left]
    exact consumed_viable endless consumed
  · rw [List.take_length_add_append]
    exact refused_not_viable consumed refusal endless inner []
  · intro more
    have continued := content_through endless inner (later ++ behind ++ more)
    rw [← List.cons_append,← List.append_assoc] at continued
    exact refused_apply consumed refusal continued

-- A failed reading ran out of tokens, which can then be continued, or stopped at the first that rules a program out.
theorem fault_earliest (failed : (TokenStream.ofTokens tokens).apply Program.read = (.error fault,s)) :
    (fault.isIncomplete = true → Viable (content tokens) ∧ ¬ Accepts tokens) ∧
    (fault.isIncomplete = false → tokens[s.place]? = some fault.found ∧ Viable (tokens.take s.place) ∧
      ¬ Viable (tokens.take (s.place + 1)) ∧ ¬ Viable tokens ∧ ∀ more,
        (TokenStream.ofTokens (tokens ++ more)).apply Program.read =
          (.error fault,{ TokenStream.ofTokens (tokens ++ more) with place := s.place })) := by
  have unaccepted : ¬ Accepts tokens := by
    rintro ⟨items,accepted⟩
    rw [failed] at accepted
    cases accepted
  obtain ⟨w,stopped,rest,split,consumed,verdict⟩ := Machine.run_verdict Program.machine (.between []) (content tokens)
  generalize replied : Program.machine.run (.between []) (content tokens) = reply at verdict
  have reading : Program.read (content tokens) = reply := replied
  cases verdict with
  | finished value => exact absurd (accepts_read.mpr ⟨_,reading⟩) unaccepted
  | done value => exact absurd value (Program.step_not_done stopped _)
  | exhausted wanted =>
      rw [List.append_nil] at split
      rw [TokenStream.apply_exact,TokenStream.of_tokens_unread,reading] at failed
      cases failed
      have viable : Viable (content tokens) := consumed_viable (content_endless tokens) (split ▸ consumed)
      exact ⟨fun _ => ⟨viable,unaccepted⟩,by simp [SyntaxFault.isIncomplete]⟩
  | @refused t reason later refusal =>
      rw [refused_apply consumed refusal split] at failed
      cases failed
      obtain ⟨found,complete⟩ := fault_found reason t
      rw [found,complete]
      exact ⟨by simp,fun _ => refused_earliest consumed refusal split⟩

theorem fault_earliest_header :
    let header := [Token.ofKind .definition "def",.ofName "f",.opening,.ofName "x"]
    let comma := Token.ofKind .comma ","
    let tokens := header ++ [comma,.ofName "y",.closing]
    (Viable header ∧ ¬ Accepts header) ∧ tokens[4]? = some comma ∧ Viable (tokens.take 4) ∧
      ¬ Viable (tokens.take 5) ∧ ¬ Viable tokens := by
  intro header comma tokens
  have short : (TokenStream.ofTokens header).apply Program.read =
    (.error (.incomplete .parameter (.endOfInput none)),{ TokenStream.ofTokens header with place := 4 }) := rfl
  have long : (TokenStream.ofTokens tokens).apply Program.read =
    (.error (.commaInParameters comma),{ TokenStream.ofTokens tokens with place := 4 }) := rfl
  obtain ⟨found,before,through,unviable,_⟩ := (fault_earliest long).2 rfl
  exact ⟨(fault_earliest short).1 rfl,found,before,through,unviable⟩

end KaleidoscopeFrontEnd

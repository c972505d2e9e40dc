import KaleidoscopeFrontEnd.Proofs.StreamCalls

namespace KaleidoscopeFrontEnd

variable {α β : Type} {f : Token → Token}

def SyntaxFault.map (f : Token → Token) : SyntaxFault → SyntaxFault
  | .unexpected expected t => .unexpected expected (f t)
  | .notExpression t => .notExpression (f t)
  | .commaInParameters t => .commaInParameters (f t)
  | .incomplete expected t => .incomplete expected (f t)

theorem Refusal.fault_map (f : Token → Token) (reason : Refusal) (t : Token) :
    reason.fault (f t) = (reason.fault t).map f := by
  cases reason <;> rfl

namespace Reply

theorem image_result (reply : Reply α) (value : α → α) (f : Token → Token) (stop : Token) :
    (reply.image value f).result (f stop) = ((reply.result stop).map value).mapError (.map f) := by
  cases reply with
  | refused reason found later => exact congrArg Except.error (reason.fault_map f found)
  | accepted | exhausted => rfl

theorem image_rest (reply : Reply α) (value : α → α) (f : Token → Token) :
    (reply.image value f).rest = reply.rest.map f := by
  cases reply <;> rfl

end Reply

-- Other tokens are read as what is read of these, seen in another way. Readings never meet an end token.
def Kept (f : Token → Token) (value : α → α) (reading : List Token → Reply α) : Prop :=
  ∀ tokens, (∀ t ∈ tokens, t.isEnd = false) → reading (tokens.map f) = (reading tokens).image value f

namespace Kept

theorem demanded {value : α → α} {reading : List Token → Reply α} (kept : Kept f value reading)
    (same : ∀ t, (f t).kind = t.kind) (kind : TokenKind) (expected : Expectation) :
    Kept f value (demand kind expected reading) := by
  intro tokens inner
  cases tokens with
  | nil => rfl
  | cons t later =>
      simp only [List.map_cons,demand,same]
      split
      · exact kept (t :: later) inner
      · rfl

theorem mapped {value : α → α} {seen : β → β} {shown : α → β} {reading : List Token → Reply α}
    (kept : Kept f value reading) (same : ∀ a, shown (value a) = seen (shown a)) :
    Kept f seen fun tokens => (reading tokens).map shown := by
  intro tokens inner
  dsimp only
  rw [kept tokens inner]
  cases reading tokens with
  | accepted a rest => exact congrArg (Reply.accepted · _) (same a)
  | refused | exhausted => rfl

theorem taken (f : Token → Token) : Kept f f TokenStream.takeToken := by
  intro tokens _
  cases tokens <;> rfl

end Kept

namespace TokenStream

variable {s : TokenStream}

def map (f : Token → Token) (s : TokenStream) : TokenStream := { s with tokens := s.tokens.map f }

section Places

variable (ends : ∀ t, (f t).isEnd = t.isEnd)
include ends

theorem map_content (tokens : List Token) : content (tokens.map f) = (content tokens).map f := by
  rw [content,List.takeWhile_map]
  simp only [Function.comp_def,ends,content]

theorem map_beyond (s : TokenStream) : (s.map f).beyond = s.beyond.map f := by
  rw [beyond,ahead,map,← List.map_drop,List.dropWhile_map]
  simp only [Function.comp_def,ends]
  rfl

theorem map_unread (s : TokenStream) : (s.map f).unread = s.unread.map f := by
  have ahead : (s.map f).ahead = s.ahead.map f := List.map_drop.symm
  rw [unread,ahead]
  exact map_content ends s.ahead

theorem map_body (s : TokenStream) : (s.map f).body = s.body.map f := by
  rw [body,map_unread ends,map,← List.map_take,← List.map_append]
  rfl

theorem map_before (s : TokenStream) (rest : List Token) : (s.map f).before (rest.map f) = (s.before rest).map f := by
  rw [before,map_body ends,List.length_map,List.length_map]
  rfl

theorem map_stop (ended : s.beyond ≠ []) : (s.map f).stop = f s.stop := by
  obtain ⟨stop,later,beyond⟩ := List.exists_cons_of_ne_nil ended
  rw [stop_beyond,stop_beyond,map_beyond ends,beyond]
  rfl

theorem map_peek (ended : s.beyond ≠ []) : (s.map f).peek = f s.peek := by
  rw [peek,peek,map_unread ends,map_stop ends ended]
  cases s.unread <;> rfl

theorem map_previous (ended : s.beyond ≠ []) : (s.map f).previous = f s.previous := by
  have here : (s.map f).tokens[(s.map f).place - 1]? = s.tokens[s.place - 1]?.map f := List.getElem?_map
  rw [previous,previous,map_stop ends ended,here]
  cases s.tokens[s.place - 1]? <;> rfl

theorem map_apply {reading seen : List Token → Reply α} {value : α → α} (ended : s.beyond ≠ [])
    (kept : seen (s.unread.map f) = (reading s.unread).image value f) : (s.map f).apply seen =
      (((s.apply reading).1.map value).mapError (.map f),(s.apply reading).2.map f) := by
  rw [apply_exact,apply_exact,map_unread ends,map_stop ends ended,kept,Reply.image_result,Reply.image_rest,
    map_before ends]

end Places

theorem of_tokens_beyond (tokens : List Token) : (ofTokens tokens).beyond ≠ [] := by
  have within := of_tokens_within tokens
  intro nothing
  rw [tokens_split,nothing,List.append_nil] at within
  exact Nat.lt_irrefl _ within

theorem call_beyond (s : TokenStream) (call : Call) : (s.call call).2.beyond = s.beyond := by
  cases call.asks with
  | reading reading answer sighted _ asked =>
      rw [asked]
      exact before_beyond s (sighted.suffix s.unread)
  | look answer asked => rw [asked]
  | back previous => rw [previous]; rfl

end TokenStream

-- Tokens in the places of others, and what becomes of all that is read of them. Kinds and operators stay as they are.
structure Guise where
  token : Token → Token
  header : Prototype → Prototype
  expr : Expr → Expr
  item : Item → Item
  node : Node → Node
  kind (t : Token) : (token t).kind = t.kind
  binary (t : Token) : (token t).binaryOperator? = t.binaryOperator?
  items : Kept token (List.map item) Program.read
  topLevel : Kept token item TopLevel.read
  bareExpression : Kept token item TopLevel.readExpression
  heading : Kept token header Header.read
  expression : Kept token expr Expression.read
  primary : Kept token expr Primary.read
  arguments : Kept token (List.map expr) Primary.readArguments
  operands (least : Int) : Kept token (List.map (Prod.map id expr)) (Operands.read least)
  first (least : Int) : Kept token (List.map (Prod.map id expr)) (Operands.readFirst least)
  hasSpan (n : Node) : (node n).hasSpan = n.hasSpan
  join (left : Node) (others : List (BinaryOperator × Expr)) :
    (node left).join (others.map (Prod.map id expr)) = node (left.join others)

namespace Guise

open TokenStream

variable (g : Guise) {s : TokenStream}

theorem ends (t : Token) : (g.token t).isEnd = t.isEnd := by
  rw [Token.isEnd,Token.isEnd,g.kind]

def value : Value → Value
  | .item i => .item (g.item i)
  | .items all => .items (all.map g.item)
  | .header p => .header (g.header p)
  | .expr e => .expr (g.expr e)
  | .exprs all => .exprs (all.map g.expr)
  | .node n => .node (g.node n)
  | .token t => .token (g.token t)
  | .number n => .number n
  | .truth b => .truth b

def fault : OperandFault → OperandFault
  | .reading f => .reading (f.map g.token)
  | .node f => .node f

def answer (a : Answer) : Answer := (a.map g.value).mapError g.fault

def call : Call → Call
  | .operands least left => .operands least (g.node left)
  | other => other

theorem answered_seen {reading : List Token → Reply α} {inner : α → α} (kept : Kept g.token inner reading)
    (shown : α → Value) (same : ∀ a, g.value (shown a) = shown (inner a)) (ended : s.beyond ≠ []) :
    answered shown ((s.map g.token).apply reading) =
      (g.answer (answered shown (s.apply reading)).1,(answered shown (s.apply reading)).2.map g.token) := by
  rw [map_apply g.ends ended (kept s.unread s.unread_endless)]
  rcases s.apply reading with ⟨fault | a,after⟩
  · rfl
  · exact congrArg (fun v => (Except.ok v,after.map g.token)) (same a).symm

theorem operands_seen (least : Int) (left : Node) (ended : s.beyond ≠ [])
    (named : left.hasSpan = false → (g.node left).kind = left.kind) :
    (s.map g.token).operands least (g.node left) =
      (((s.operands least left).1.map g.node).mapError g.fault,(s.operands least left).2.map g.token) := by
  cases spanned : left.hasSpan with
  | true =>
      let reading (tokens : List Token) := (Operands.read least tokens).map left.join
      let seen (tokens : List Token) := (Operands.read least tokens).map (g.node left).join
      have joined : seen (s.unread.map g.token) = (reading s.unread).image g.node g.token := by
        simp only [seen,reading]
        rw [g.operands least s.unread s.unread_endless]
        cases Operands.read least s.unread with
        | accepted others rest => exact congrArg (Reply.accepted · _) (g.join left others)
        | refused | exhausted => rfl
      have applied := map_apply g.ends ended joined
      simp only [seen,reading] at applied
      simp only [TokenStream.operands,g.hasSpan,spanned,if_true,applied]
      rcases s.apply (fun tokens => (Operands.read least tokens).map left.join) with ⟨fault | n,after⟩ <;> rfl
  | false =>
      have applied := map_apply g.ends ended (g.first least s.unread s.unread_endless)
      simp only [TokenStream.operands,g.hasSpan,spanned,Bool.false_eq_true,if_false,named spanned,applied]
      rcases s.apply (Operands.readFirst least) with ⟨fault | taken,after⟩
      · rfl
      · cases taken <;> rfl

def Names : Call → Prop
  | .operands _ left => left.hasSpan = false → (g.node left).kind = left.kind
  | _ => True

theorem call_seen (ended : s.beyond ≠ []) {c : Call} (named : g.Names c) : (s.map g.token).call (g.call c) =
    (g.answer (s.call c).1,(s.call c).2.map g.token) := by
  cases c with
  | item => exact g.answered_seen g.topLevel .item (fun _ => rfl) ended
  | definition => exact g.answered_seen (g.topLevel.demanded g.kind _ _) .item (fun _ => rfl) ended
  | external => exact g.answered_seen (g.topLevel.demanded g.kind _ _) .item (fun _ => rfl) ended
  | bareExpression => exact g.answered_seen g.bareExpression .item (fun _ => rfl) ended
  | program => exact g.answered_seen g.items .items (fun _ => rfl) ended
  | header => exact g.answered_seen g.heading .header (fun _ => rfl) ended
  | expression => exact g.answered_seen g.expression .expr (fun _ => rfl) ended
  | primary => exact g.answered_seen g.primary .expr (fun _ => rfl) ended
  | number => exact g.answered_seen (g.primary.demanded g.kind _ _) .expr (fun _ => rfl) ended
  | group => exact g.answered_seen (g.primary.demanded g.kind _ _) .expr (fun _ => rfl) ended
  | name => exact g.answered_seen (g.primary.demanded g.kind _ _) .expr (fun _ => rfl) ended
  | arguments => exact g.answered_seen g.arguments .exprs (fun _ => rfl) ended
  | operands least left =>
      have seen := g.operands_seen least left ended named
      simp only [call,TokenStream.call,seen]
      rcases s.operands least left with ⟨fault | n,after⟩ <;> rfl
  | precedence =>
      have same : (s.map g.token).precedence = s.precedence := by
        rw [precedence_peek,precedence_peek,map_peek g.ends ended,g.binary]
      exact congrArg (fun n => (Except.ok (Value.number n),s.map g.token)) same
  | peek => exact congrArg (fun t => (Except.ok (Value.token t),s.map g.token)) (map_peek g.ends ended)
  | previous => exact congrArg (fun t => (Except.ok (Value.token t),s.map g.token)) (map_previous g.ends ended)
  | isAtEnd =>
      have same : (s.map g.token).isAtEnd = s.isAtEnd := by
        rw [isAtEnd,isAtEnd,map_peek g.ends ended,g.ends]
      exact congrArg (fun b => (Except.ok (Value.truth b),s.map g.token)) same
  | check kind =>
      have same : (s.map g.token).check kind = s.check kind := by
        rw [check,check,map_peek g.ends ended,g.kind]
      exact congrArg (fun b => (Except.ok (Value.truth b),s.map g.token)) same
  | advance => exact g.answered_seen (.taken g.token) .token (fun _ => rfl) ended
  | expect kind expected => exact g.answered_seen ((Kept.taken g.token).demanded g.kind _ _) .token (fun _ => rfl) ended

-- Calls answer about the other tokens what they answer about these, seen in the other way.
theorem calls_seen (ended : s.beyond ≠ []) {calls : List Call} (named : ∀ c ∈ calls, g.Names c) :
    (s.map g.token).calls (calls.map g.call) = ((s.calls calls).1.map g.answer,(s.calls calls).2.map g.token) := by
  induction calls generalizing s with
  | nil => rfl
  | cons c later ih =>
      have moved : (s.call c).2.beyond ≠ [] := by
        rw [call_beyond]
        exact ended
      obtain ⟨first,others⟩ := List.forall_mem_cons.mp named
      simp only [List.map_cons,TokenStream.calls,g.call_seen ended first,ih moved others]

end Guise

end KaleidoscopeFrontEnd

import KaleidoscopeFrontEnd.Proofs.Ranges
import KaleidoscopeFrontEnd.Proofs.Returns

namespace KaleidoscopeFrontEnd

variable {α β : Type}

-- Numbers, names and operators make one node each in an expression; parentheses and commas make none.
def Token.bears (t : Token) : Bool :=
  match t.kind with
  | .number | .identifier | .operator => true
  | _ => false

namespace Node

def expressions (n : Node) : Nat := n.walk.countP isExpression

def allExpressions (ns : List Node) : Nat := (walkAll ns).countP isExpression

theorem all_expressions_cons (n : Node) (later : List Node) :
    allExpressions (n :: later) = n.expressions + allExpressions later := List.countP_append

theorem all_expressions_append (ns more : List Node) :
    allExpressions (ns ++ more) = allExpressions ns + allExpressions more := by
  rw [allExpressions,walk_all,List.flatMap_append,List.countP_append,← walk_all,← walk_all]
  rfl

theorem all_expressions_single (n : Node) : allExpressions [n] = n.expressions := all_expressions_cons n []

theorem expressions_binary (l r : Node) : (binary l symbol r s).expressions = l.expressions + r.expressions + 1 := by
  simp only [expressions,walk,List.countP_cons,List.countP_append,isExpression,if_true]

theorem expressions_call (arguments : List Node) :
    (call callee arguments s).expressions = allExpressions arguments + 1 := by
  simp only [expressions,walk,List.countP_cons,isExpression,if_true,allExpressions]

theorem expressions_positive (e : Expr) : 0 < e.toNode.expressions := by
  cases e with
  | number | reference => exact Nat.one_pos
  | binary => rw [Expr.toNode,expressions_binary]; exact Nat.succ_pos _
  | call => rw [Expr.toNode,expressions_call]; exact Nat.succ_pos _

theorem expressions_item (i : Item) :
    i.toNode.expressions = (i.body.map fun e => e.toNode.expressions).getD 0 := by
  obtain ⟨prototype,body,span⟩ := i
  cases body with
  | none => rfl
  | some e =>
      have present : e.toNode.isAbsent = false := by cases e <;> rfl
      simp [Item.toNode,expressions,walk,present,Prototype.toNode,isExpression]

theorem expressions_tree (t : OperatorTree Node) : (ofTree t).expressions = t.flatten.first.expressions +
    (t.flatten.others.length + allExpressions (t.flatten.others.map Prod.snd)) := by
  induction t with
  | leaf operand => rfl
  | node left operator right leftIh rightIh =>
      rw [ofTree,expressions_binary,leftIh,rightIh]
      simp only [OperatorTree.flatten,List.map_append,List.map_cons,List.length_append,List.length_cons,
        all_expressions_append,all_expressions_cons]
      omega

theorem expressions_join (left : Node) (others : List (BinaryOperator × Expr)) : (left.join others).expressions =
    left.expressions + (others.length + allExpressions (others.map fun next => next.2.toNode)) := by
  rw [join,expressions_tree,OperandRun.tree_flatten,List.map_map,List.length_map]
  rfl

end Node

def Expr.total (es : List Expr) : Nat := Node.allExpressions (Expr.toNodes es)

theorem Expr.total_add (es : List Expr) (e : Expr) : total (es ++ [e]) = total es + e.toNode.expressions := by
  simp only [total,to_nodes_map,List.map_append,List.map_singleton,Node.all_expressions_append,
    Node.all_expressions_single]

def Item.total (is : List Item) : Nat := Node.allExpressions (is.map Item.toNode)

theorem Item.total_add (is : List Item) (i : Item) : total (is ++ [i]) = total is + i.toNode.expressions := by
  simp only [total,List.map_append,List.map_singleton,Node.all_expressions_append,Node.all_expressions_single]

theorem bearing_compositional : Derivation.Compositional (fun w e => e.toNode.expressions = w.countP Token.bears)
    (fun w es => Expr.total es = w.countP Token.bears) where
  number t kind := by simp [Token.bears,kind,Primary.numberOf,Expr.toNode,Node.expressions,Node.walk,Node.isExpression]
  reference t kind := by
    simp [Token.bears,kind,Primary.referenceTo,Expr.toNode,Node.expressions,Node.walk,Node.isExpression]
  binary {w v l r t o} left operator right _ := by
    have symbol : t.bears = true := by simp [Token.bears,Token.binary_operator_kind operator]
    rw [Expr.toNode,Node.expressions_binary,left,right,List.countP_append,List.countP_cons_of_pos symbol]
    omega
  group o c opening closing inside := by simp [Token.bears,opening,closing,inside]
  call n o c named opening closing _ inside := by
    have total : Node.allExpressions (Expr.toNodes _) = _ := inside
    rw [Primary.callOf,Expr.toNode,Node.expressions_call,total]
    simp [Token.bears,named,opening,closing]
  none := rfl
  single argument := (Node.all_expressions_single _).trans argument
  add before t comma argument := by
    rw [Expr.total_add,before,argument]
    simp [Token.bears,comma]

theorem Derivation.Run.expressions (run : Run w r) : r.expr.toNode.expressions = w.countP Token.bears :=
  bearing_compositional.expr run

theorem Derivation.TopItem.expressions (derived : TopItem w i) : i.toNode.expressions ≤ w.length := by
  rw [Node.expressions_item]
  cases derived with
  | external => exact Nat.zero_le _
  | definition k keyword heading body =>
      have bound := body.expressions.trans_le List.countP_le_length
      rw [List.length_append]
      exact Nat.le_add_left_of_le bound
  | expression t body => exact body.expressions.trans_le List.countP_le_length

theorem Derivation.Items.lengths (derived : Items w is) :
    is.length ≤ w.length ∧ Item.total is ≤ w.length := by
  induction derived with
  | nil => exact ⟨Nat.le_refl _,Nat.le_refl _⟩
  | terminator before t terminator ih =>
      rw [List.length_append]
      exact ⟨Nat.le_add_right_of_le ih.1,Nat.le_add_right_of_le ih.2⟩
  | @item w is v i before next ih =>
      have positive := List.length_pos_iff.mpr next.nonempty
      have bound := next.expressions
      rw [Item.total_add,List.length_append,List.length_append,List.length_singleton]
      omega

-- What a reading accepts has cost at least as many tokens as this.
def Spends (cost : α → Nat) (reading : List Token → Reply α) : Prop :=
  ∀ ⦃tokens v rest⦄, reading tokens = .accepted v rest → cost v + rest.length ≤ tokens.length

namespace Spends

variable {reading : List Token → Reply α} {cost : α → Nat}

theorem of_kind {kind : TokenKind} {expected : Expectation}
    (spends : ∀ ⦃t later v rest⦄, t.kind = kind → reading (t :: later) = .accepted v rest →
      cost v + rest.length ≤ (t :: later).length) : Spends cost (demand kind expected reading) := by
  intro tokens v rest accepted
  cases tokens with
  | nil => cases accepted
  | cons t later =>
      by_cases fits : t.kind = kind
      · exact spends fits ((if_pos fits).symm.trans accepted)
      · cases (if_neg fits).symm.trans accepted

theorem demanded (spends : Spends cost reading) (kind : TokenKind) (expected : Expectation) :
    Spends cost (demand kind expected reading) := of_kind fun _ _ _ _ _ accepted => spends accepted

theorem weaken {least : α → Nat} (spends : Spends cost reading) (below : ∀ v, least v ≤ cost v) : Spends least reading :=
  fun _ v _ accepted => (Nat.add_le_add_right (below v) _).trans (spends accepted)

theorem positive {reading : List Token → Reply Expr} (spends : Spends (fun e => e.toNode.expressions) reading) :
    Spends (fun e => max 1 e.toNode.expressions) reading :=
  spends.weaken fun e => (Nat.max_eq_right (Node.expressions_positive e)).le

theorem primary : Spends (fun e => e.toNode.expressions) Primary.read := by
  intro tokens e rest accepted
  obtain ⟨w,rfl,derived⟩ := Primary.read_derives accepted
  have bound := (bearing_compositional.operand derived).trans_le List.countP_le_length
  rw [List.length_append]
  exact Nat.add_le_add_right bound _

theorem expression : Spends (fun e => e.toNode.expressions) Expression.read := by
  intro tokens e rest accepted
  obtain ⟨w,r,rfl,run,rfl⟩ := Expression.read_derives accepted
  have bound := run.expressions.trans_le List.countP_le_length
  rw [List.length_append]
  exact Nat.add_le_add_right bound _

theorem operands (takes : Operands.Takes least tokens others rest) :
    others.length + Node.allExpressions (others.map fun next => next.2.toNode) + rest.length ≤ tokens.length := by
  induction takes with
  | stop => exact Nat.le_of_eq (Nat.zero_add _)
  | next _ _ operand _ _ tightIh moreIh =>
      have taken := primary operand
      simp only [List.map_append,List.map_cons,List.length_append,List.length_cons,List.cons_append,
        Node.all_expressions_cons,Node.all_expressions_append] at *
      omega

theorem joined (least : Int) (left : Node) :
    Spends (fun n => n.expressions - left.expressions) fun tokens => (Operands.read least tokens).map left.join := by
  intro tokens n rest accepted
  obtain ⟨others,read,rfl⟩ := Reply.map_accepted.mp accepted
  have taken := operands (Operands.read_takes read)
  change (left.join others).expressions - left.expressions + _ ≤ _
  rw [Node.expressions_join,Nat.add_sub_cancel_left]
  exact taken

theorem further_arguments (accepted : Primary.machine.run ⟨.operand,[.ofBracket (.arguments n es)]⟩ tokens =
    .accepted e rest) : Expr.total e.arguments + rest.length < Expr.total es + tokens.length := by
  induction size : tokens.length using Nat.strong_induction_on generalizing es tokens with
  | _ size ih =>
      subst size
      rw [Primary.argument_run] at accepted
      obtain ⟨argument,behind,first,accepted⟩ := Reply.and_then_accepted.mp accepted
      have bound : argument.toNode.expressions + behind.length ≤ tokens.length := expression first
      have grown := Expr.total_add es argument
      cases behind with
      | nil => cases accepted
      | cons t later =>
          rw [List.length_cons] at bound
          simp only [Primary.behindArgument] at accepted
          cases kind : t.kind with
          | comma =>
              rw [kind] at accepted
              have more := ih later.length (by omega) accepted rfl
              omega
          | closeParen =>
              rw [kind] at accepted
              cases accepted
              change Expr.total (es ++ [argument]) + _ < _
              omega
          | definition | external | identifier | number | openParen | operator | endOfInput =>
              rw [kind] at accepted
              cases accepted

theorem arguments : Spends (fun es => Expr.total es + 1) Primary.readArguments := by
  refine of_kind fun o later es rest opening accepted => ?_
  obtain ⟨e,whole,rfl⟩ := Reply.map_accepted.mp accepted
  rw [Primary.call_run opening] at whole
  rw [List.length_cons]
  by_cases closing : ∃ c ∈ later.head?, c.kind = .closeParen
  · obtain ⟨c,first,closes⟩ := closing
    obtain ⟨behind,rfl⟩ := List.head?_eq_some_iff.mp first
    rw [Primary.bare_run closes] at whole
    cases whole
    rw [List.length_cons]
    change 0 + 1 + rest.length ≤ _
    omega
  · rw [Primary.arguments_run fun c first closes => closing ⟨c,first,closes⟩] at whole
    have taken := further_arguments whole
    change Expr.total e.arguments + _ < 0 + _ at taken
    omega

theorem header : Spends (fun _ => 1) Header.read := by
  intro tokens p rest accepted
  obtain ⟨w,rfl,heading⟩ := Header.read_derives accepted
  cases heading
  simp only [List.length_append,List.length_cons]
  omega

theorem item : Spends (fun i => max 1 i.toNode.expressions) TopLevel.read := by
  intro tokens i rest accepted
  obtain ⟨w,rfl,derived⟩ := TopLevel.read_derives accepted
  have bound := Nat.max_le.mpr ⟨List.length_pos_iff.mpr derived.nonempty,derived.expressions⟩
  rw [List.length_append]
  exact Nat.add_le_add_right bound _

theorem bare_expression : Spends (fun i => max 1 i.toNode.expressions) TopLevel.readExpression := by
  intro tokens i rest accepted
  cases tokens with
  | nil => cases accepted
  | cons t later =>
      obtain ⟨_,_,ran⟩ := TopLevel.anonymous_run t later
      obtain ⟨e,read,rfl⟩ := Reply.map_accepted.mp (ran.symm.trans accepted)
      have positive := Node.expressions_positive e
      have bound : e.toNode.expressions + rest.length ≤ (t :: later).length := expression read
      change max 1 (Item.toNode _).expressions + _ ≤ _
      rw [Node.expressions_item]
      change max 1 e.toNode.expressions + _ ≤ _
      omega

theorem program : Spends (fun is => max is.length (Item.total is)) Program.read := by
  intro tokens items rest accepted
  obtain ⟨rfl,derived⟩ := Program.read_derives accepted
  exact Nat.max_le.mpr derived.lengths

theorem take_token : Spends (fun _ => 1) TokenStream.takeToken := by
  intro tokens t rest accepted
  cases tokens with
  | nil => cases accepted
  | cons u later =>
      cases accepted
      exact Nat.le_of_eq (Nat.add_comm _ _)

theorem place (spends : Spends cost reading) {s : TokenStream} (placed : s.Placed)
    (done : (s.apply reading).1 = .ok v) : cost v + s.place ≤ (s.apply reading).2.place := by
  obtain ⟨rest,accepted⟩ := Reply.result_ok.mp done
  have enough := spends accepted
  have here : s.body.length - s.unread.length = s.place := congrArg TokenStream.place (s.placed_before placed)
  have within : s.unread.length ≤ s.body.length := by
    rw [TokenStream.body,List.length_append]
    exact Nat.le_add_left _ _
  change _ ≤ s.body.length - (reading s.unread).rest.length
  rw [accepted,Reply.rest]
  omega

end Spends

namespace TokenStream

variable {s after : TokenStream}

def Value.expressions : Value → Nat
  | .item i => i.toNode.expressions
  | .items all => Item.total all
  | .header p => p.toNode.expressions
  | .expr e => e.toNode.expressions
  | .exprs es => Expr.total es
  | .node n => n.expressions
  | .token _ | .number _ | .truth _ => 0

def Call.supplied : Call → Nat
  | .operands _ left => left.expressions
  | _ => 0

-- Calls that take a token whenever they succeed. A program may be empty, and behind an operand there need be none.
def Call.consumes : Call → Bool
  | .program | .operands .. | .precedence | .peek | .previous | .isAtEnd | .check _ => false
  | _ => true

structure Call.Earns (call : Call) (s after : TokenStream) (v : Value) : Prop where
  forward : call.consumes = true → s.place < after.place
  expressions : v.expressions + s.place ≤ call.supplied + after.place
  items : ∀ items, v = .items items → items.length + s.place ≤ after.place

theorem answered_ok {value : α → Value} {asked : Except SyntaxFault α × TokenStream}
    (done : (answered value asked).1 = .ok v) : ∃ x, asked.1 = .ok x ∧ v = value x := by
  obtain ⟨outcome,after⟩ := asked
  cases outcome with
  | error fault => cases done
  | ok x => exact ⟨x,rfl,(Except.ok.inj done).symm⟩

theorem Call.Earns.of_reading {value : α → Value} {reading : List Token → Reply α} {call : Call} (placed : s.Placed)
    (spends : Spends (fun x => max 1 (value x).expressions) reading) (apart : ∀ x items, value x ≠ .items items)
    (done : (answered value (s.apply reading)).1 = .ok v) :
    call.Earns s (answered value (s.apply reading)).2 v := by
  obtain ⟨x,read,rfl⟩ := answered_ok done
  have bound : max 1 (value x).expressions + s.place ≤ (s.apply reading).2.place := spends.place placed read
  refine ⟨fun _ => ?_,?_,fun items same => absurd same (apart x items)⟩
  · change s.place < (s.apply reading).2.place
    omega
  · change _ ≤ _ + (s.apply reading).2.place
    omega

theorem Call.Earns.of_stay {call : Call} (stays : call.consumes = false) (plain : v.expressions = 0)
    (apart : ∀ items, v ≠ .items items) : call.Earns s s v where
  forward consumes := absurd (stays.symm.trans consumes) Bool.false_ne_true
  expressions := by rw [plain]; omega
  items all same := absurd same (apart all)

theorem operands_earn (placed : s.Placed) (least : Int) (left : Node)
    (done : (s.call (.operands least left)).1 = .ok v) :
    (Call.operands least left).Earns s (s.call (.operands least left)).2 v := by
  have forward := (call_advances placed (.operands least left)).forward
  suffices bound : ∃ n, v = .node n ∧ n.expressions + s.place ≤ left.expressions + (s.call (.operands least left)).2.place by
    obtain ⟨n,rfl,bound⟩ := bound
    exact ⟨fun none => absurd none Bool.false_ne_true,bound,fun _ => Value.noConfusion⟩
  cases spanned : left.hasSpan with
  | true =>
      simp only [call,operands,spanned,if_true] at done ⊢
      cases read : (s.apply fun tokens => (Operands.read least tokens).map left.join).1 with
      | error fault => rw [read] at done; cases done
      | ok n =>
          rw [read] at done
          cases done
          have bound := (Spends.joined least left).place placed read
          exact ⟨n,rfl,by omega⟩
  | false =>
      -- Nothing is joined to such a node, so an answer is the node itself.
      simp only [call,operands,spanned,Bool.false_eq_true,if_false] at done forward ⊢
      cases read : (s.apply (Operands.readFirst least)).1 with
      | error fault => rw [read] at done; cases done
      | ok taken =>
          rw [read] at done
          cases taken with
          | nil => cases done; exact ⟨left,rfl,by omega⟩
          | cons first more => cases done

theorem call_earns (placed : s.Placed) (call : Call) (done : (s.call call).1 = .ok v) :
    call.Earns s (s.call call).2 v := by
  cases call with
  | item => exact .of_reading placed .item (fun _ _ => Value.noConfusion) done
  | definition | external => exact .of_reading placed (Spends.item.demanded _ _) (fun _ _ => Value.noConfusion) done
  | bareExpression => exact .of_reading placed .bare_expression (fun _ _ => Value.noConfusion) done
  | header => exact .of_reading placed .header (fun _ _ => Value.noConfusion) done
  | expression => exact .of_reading placed Spends.expression.positive (fun _ _ => Value.noConfusion) done
  | primary => exact .of_reading placed Spends.primary.positive (fun _ _ => Value.noConfusion) done
  | number | group | name =>
      exact .of_reading placed (Spends.primary.positive.demanded _ _) (fun _ _ => Value.noConfusion) done
  | arguments =>
      refine .of_reading placed (.weaken .arguments fun es => ?_) (fun _ _ => Value.noConfusion) done
      exact Nat.max_le.mpr ⟨Nat.le_add_left _ _,Nat.le_succ _⟩
  | advance => exact .of_reading placed .take_token (fun _ _ => Value.noConfusion) done
  | expect kind expected => exact .of_reading placed (Spends.take_token.demanded _ _) (fun _ _ => Value.noConfusion) done
  | operands least left => exact operands_earn placed least left done
  | program =>
      obtain ⟨items,read,rfl⟩ := answered_ok done
      have bound := Spends.program.place placed read
      refine ⟨fun none => absurd none Bool.false_ne_true,?_,fun all same => ?_⟩
      · change Item.total items + s.place ≤ 0 + (s.apply Program.read).2.place
        omega
      · cases same
        change _ ≤ (s.apply Program.read).2.place
        omega
  | precedence | peek | previous | isAtEnd | check =>
      cases done
      exact .of_stay rfl rfl (fun _ => Value.noConfusion)

theorem of_tokens_inner (tokens : List Token) :
    (ofTokens tokens).tokens.countP (fun t => !t.isEnd) = tokens.countP fun t => !t.isEnd := by
  have ended (l : Option Location) : (Token.endOfInput l).isEnd = true := rfl
  unfold ofTokens
  split
  · rename_i empty
    rw [List.getLast?_eq_none_iff.mp empty]
    rfl
  · split
    · rfl
    · simp [List.countP_append,ended]

theorem unread_inner (s : TokenStream) : s.unread.length ≤ s.tokens.countP fun t => !t.isEnd := by
  have whole : s.unread.countP (fun t => !t.isEnd) = s.unread.length :=
    List.countP_eq_length.mpr fun t member => by rw [s.unread_endless t member]; rfl
  rw [← whole]
  exact ((List.takeWhile_sublist _).trans (List.drop_sublist _ _)).countP_le

-- The procedures call one another no deeper than three times for every unread token and a few times more. A call that
-- succeeds has taken a token, unless it need not, and has made no more expressions than it has taken tokens.
theorem call_finishes (tokens : List Token) (place : Nat) (inside : place < (ofTokens tokens).tokens.length) (call : Call) :
    let here : TokenStream := { ofTokens tokens with place := place }
    let there := (here.call call).2
    (∀ depth, 3 * here.unread.length + 4 ≤ depth → Descent.call depth here call = some (here.call call)) ∧
      ∀ v, (here.call call).1 = .ok v → (call.consumes = true → place < there.place) ∧
        v.expressions + place ≤ call.supplied + there.place ∧
        ∀ items, v = .items items → items.length + place ≤ there.place ∧ items.length ≤ tokens.length := by
  intro here there
  have placed : here.Placed := placed_inside.mpr (Nat.le_of_lt inside)
  refine ⟨fun depth deep => Descent.call_settled placed call deep,fun v done => ?_⟩
  have earns := call_earns placed call done
  refine ⟨earns.forward,earns.expressions,fun items same => ⟨earns.items items same,?_⟩⟩
  have moved := call_advances placed call
  have final : there.place ≤ here.body.length := moved.body ▸ moved.placed
  have body : here.body.length ≤ place + here.unread.length := by
    rw [TokenStream.body,List.length_append,List.length_take]
    exact Nat.add_le_add_right (Nat.min_le_left _ _) _
  have count := earns.items items same
  calc items.length ≤ here.unread.length := by
        change _ + place ≤ there.place at count
        omega
    _ ≤ (ofTokens tokens).tokens.countP fun t => !t.isEnd := here.unread_inner
    _ = tokens.countP fun t => !t.isEnd := of_tokens_inner tokens
    _ ≤ tokens.length := List.countP_le_length

theorem call_finishes_group :
    let tokens := [Token.opening,.ofName "a",.ofSymbol "+",.zero,.closing]
    let start := ofTokens tokens
    let e : Expr := .binary (.reference "a" none) .plus (.number .zero none) none
    let i : Item := .ofExpr e none
    0 < start.tokens.length ∧ 3 * start.unread.length + 4 ≤ 19 ∧
      Descent.call 19 start .group = some (start.call .group) ∧ (start.call .group).1 = .ok (.expr e) ∧
      0 < (start.call .group).2.place ∧ (Value.expr e).expressions + 0 ≤ 0 + (start.call .group).2.place ∧
      (start.call .program).1 = .ok (.items [i]) ∧ [i].length + 0 ≤ (start.call .program).2.place ∧
      [i].length ≤ tokens.length := by
  intro tokens start e i
  have inside : 0 < start.tokens.length := by decide
  have deep : 3 * start.unread.length + 4 ≤ 19 := by decide
  have grouped : (start.call .group).1 = .ok (.expr e) := rfl
  have listed : (start.call .program).1 = .ok (.items [i]) := rfl
  obtain ⟨returns,gains⟩ := call_finishes tokens 0 inside .group
  obtain ⟨forward,bound,_⟩ := gains _ grouped
  obtain ⟨count,total⟩ := ((call_finishes tokens 0 inside .program).2 _ listed).2.2 _ rfl
  exact ⟨inside,deep,returns 19 deep,grouped,forward rfl,bound,listed,count,total⟩

end TokenStream

end KaleidoscopeFrontEnd

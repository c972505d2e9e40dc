import KaleidoscopeFrontEnd.Proofs.Guises
import KaleidoscopeFrontEnd.Proofs.Meaning

namespace KaleidoscopeFrontEnd

-- Equal things are those that look the same to any two observers. An observer sees neither spans nor the sign of a
-- zero. A NaN and a node of unknown kind are equal to nothing, so each observer may take them for what it likes.
structure Observer where
  nan : Binary64
  stranger : String

namespace Observer

instance : Inhabited Observer := ⟨⟨.nan,""⟩⟩

def number (o : Observer) : Binary64 → Binary64
  | .nan => o.nan
  | .signed negative magnitude => if magnitude = .zero then .zero else .signed negative magnitude

def view (o : Observer) : View where
  token t := ⟨t.kind,"",t.value.map (.seen o.number),none⟩
  number := o.number
  zero := rfl
  kind _ := rfl
  value _ := rfl
  location _ := rfl

mutual

def node (o : Observer) : Node → Node
  | .number x _ => .number (o.number x) none
  | .reference name _ => .reference name none
  | .binary left operator right _ => .binary (o.node left) operator (o.node right) none
  | .call callee arguments _ => .call callee (o.nodes arguments) none
  | .header name parameters _ => .header name parameters none
  | .item heading body _ => .item (o.node heading) (o.node body) none
  | .foreign _ => .foreign o.stranger
  | .absent => .absent

def nodes (o : Observer) : List Node → List Node
  | [] => []
  | n :: later => o.node n :: o.nodes later

end

end Observer

theorem Observer.number_zero (o : Observer) (a : Bool) : o.number (.signed a .zero) = .zero := by
  rw [number,if_pos rfl]

theorem Observer.number_other (o : Observer) (other : m ≠ .zero) : o.number (.signed a m) = .signed a m := if_neg other

theorem Observer.signed_number (o : Observer) (a : Bool) (m : Magnitude) : o.number (.signed a m) ≠ .nan := by
  by_cases zero : m = .zero
  · rw [zero,number_zero]
    exact Binary64.noConfusion
  · rw [number_other o zero]
    exact Binary64.noConfusion

theorem signed_same (o p : Observer) :
    (Binary64.signed a m == .signed b n) = true ↔ o.number (.signed a m) = p.number (.signed b n) := by
  have compared : (Binary64.signed a m == .signed b n) = true ↔ m = n ∧ (a = b ∨ m = .zero) := by
    simp [BEq.beq,Binary64.same]
  rw [compared]
  by_cases zero : m = .zero <;> by_cases other : n = .zero
  · rw [zero,other,o.number_zero,p.number_zero]
    exact ⟨fun _ => rfl,fun _ => ⟨rfl,.inr rfl⟩⟩
  · rw [zero,o.number_zero,p.number_other other]
    exact ⟨fun alike => absurd alike.1.symm other,fun alike => absurd (Binary64.signed.inj alike).2.symm other⟩
  · rw [other,p.number_zero,o.number_other zero]
    exact ⟨fun alike => absurd alike.1 zero,fun alike => absurd (Binary64.signed.inj alike).2 zero⟩
  · rw [o.number_other zero,p.number_other other,Binary64.signed.injEq,and_comm]
    simp only [zero,or_false]

theorem number_same : (x == y) = true ↔ ∀ o p : Observer, o.number x = p.number y := by
  cases x with
  | nan =>
      refine ⟨nofun,fun alike => ?_⟩
      cases y with
      | nan => exact absurd (alike ⟨.nan,""⟩ ⟨.zero,""⟩) (by decide)
      | signed b n => exact absurd (alike ⟨.nan,""⟩ ⟨.nan,""⟩).symm (Observer.signed_number _ b n)
  | signed a m =>
      cases y with
      | nan => exact ⟨nofun,fun alike => absurd (alike ⟨.nan,""⟩ ⟨.nan,""⟩) (Observer.signed_number _ a m)⟩
      | signed b n => exact ⟨fun same o p => (signed_same o p).mp same,fun alike => (signed_same ⟨.nan,""⟩ ⟨.nan,""⟩).mpr (alike _ _)⟩

theorem strangers_apart : ¬ ∀ o p : Observer, o.stranger = p.stranger := fun alike =>
  absurd (alike ⟨.nan,"a"⟩ ⟨.nan,"b"⟩) (by decide)

theorem trees_same : (∀ a b : Node, a.same b = true ↔ ∀ o p : Observer, o.node a = p.node b) ∧
    ∀ xs ys, Node.sameAll xs ys = true ↔ ∀ o p : Observer, o.nodes xs = p.nodes ys := by
  refine Node.same.mutual_induct (fun a b => a.same b = true ↔ ∀ o p : Observer, o.node a = p.node b)
    (fun xs ys => Node.sameAll xs ys = true ↔ ∀ o p : Observer, o.nodes xs = p.nodes ys)
    ?number ?reference ?binary ?call ?header ?item ?absent ?other ?nil ?cons ?uneven
  case number =>
    intro x _ y _
    simp only [Node.same,Observer.node,Node.number.injEq,and_true]
    exact number_same
  case reference | header => simp [Node.same,Observer.node]
  case absent | nil => simp [Node.same,Node.sameAll,Observer.node,Observer.nodes]
  case binary =>
    intro l o r _ l' o' r' _ left right
    simp only [Node.same,Observer.node,Node.binary.injEq,Bool.and_eq_true,beq_iff_eq,left,right,forall_and,forall_const,
      and_true,and_assoc]
  case call =>
    intro a xs _ b ys _ arguments
    simp only [Node.same,Observer.node,Node.call.injEq,Bool.and_eq_true,beq_iff_eq,arguments,forall_and,forall_const,
      and_true]
  case item =>
    intro h b _ h' b' _ heading body
    simp only [Node.same,Observer.node,Node.item.injEq,Bool.and_eq_true,heading,body,forall_and,and_true]
  case cons =>
    intro x xs y ys first later
    simp only [Node.sameAll,Observer.nodes,List.cons.injEq,Bool.and_eq_true,first,later,forall_and]
  case other =>
    intro a b numbers references operations calls headers items _
    cases a <;> cases b
    case number.number => exact (numbers _ _ _ _ rfl rfl).elim
    case reference.reference => exact (references _ _ _ _ rfl rfl).elim
    case binary.binary => exact (operations _ _ _ _ _ _ _ _ rfl rfl).elim
    case call.call => exact (calls _ _ _ _ _ _ rfl rfl).elim
    case header.header => exact (headers _ _ _ _ _ _ rfl rfl).elim
    case item.item => exact (items _ _ _ _ _ _ rfl rfl).elim
    all_goals simp [Node.same,Observer.node,strangers_apart]
  case uneven =>
    intro xs ys _ both
    cases xs <;> cases ys
    case cons.cons => exact (both _ _ _ _ rfl rfl).elim
    all_goals simp [Node.sameAll,Observer.nodes]

theorem node_same : Node.same a b = true ↔ ∀ o p : Observer, o.node a = p.node b := trees_same.1 a b

theorem value_same {x y : Option TokenValue} :
    (x == y) = true ↔ ∀ o p : Observer, x.map (TokenValue.seen o.number) = y.map (TokenValue.seen p.number) := by
  cases x with
  | none => cases y <;> simp
  | some x =>
      cases y with
      | none => simp
      | some y =>
          have compared : (some x == some y) = x.same y := rfl
          rw [compared]
          cases x <;> cases y
          case number.number x y =>
            simp only [TokenValue.same,Option.map_some,TokenValue.seen,Option.some.injEq,TokenValue.number.injEq]
            exact number_same
          all_goals simp [TokenValue.seen,TokenValue.same]

theorem token_same {t u : Token} : (t == u) = true ↔ ∀ o p : Observer, o.view.token t = p.view.token u := by
  have compared : (t == u) = true ↔ t.kind = u.kind ∧ (t.value == u.value) = true := by
    simp [BEq.beq,Token.same]
  rw [compared,value_same]
  simp only [Observer.view,Token.mk.injEq,true_and,and_true,forall_and,forall_const]

namespace Observer

variable (o : Observer)

mutual

theorem node_expr : ∀ e : Expr, o.node e.toNode = (o.view.expr e).toNode
  | .number _ _ | .reference _ _ => rfl
  | .binary left operator right _ => by simp only [Expr.toNode,node,View.expr,node_expr left,node_expr right]
  | .call callee arguments _ => by simp only [Expr.toNode,node,View.expr,nodes_exprs arguments]

theorem nodes_exprs : ∀ es : List Expr, o.nodes (Expr.toNodes es) = Expr.toNodes (o.view.exprs es)
  | [] => rfl
  | e :: later => by simp only [Expr.toNodes,nodes,View.exprs,node_expr e,nodes_exprs later]

end

theorem nodes_map (all : List Node) : o.nodes all = all.map o.node := by
  induction all with
  | nil => rfl
  | cons n all ih => rw [nodes,ih,List.map_cons]

theorem node_item (i : Item) : o.node i.toNode = (o.view.item i).toNode := by
  obtain ⟨p,body,span⟩ := i
  cases body with
  | none => rfl
  | some e => exact congrArg (Node.item _ · none) (o.node_expr e)

theorem node_span (n : Node) : (o.node n).hasSpan = n.hasSpan ∧ (o.node n).span = none := by
  cases n <;> exact ⟨rfl,rfl⟩

theorem node_tree (t : OperatorTree Node) : Node.ofTree (t.map o.node) = o.node (Node.ofTree t) := by
  induction t with
  | leaf operand => rfl
  | node left operator right leftIh rightIh =>
      simp only [OperatorTree.map,Node.ofTree,leftIh,rightIh,node,(o.node_span _).2]
      rfl

theorem node_join (left : Node) (others : List (BinaryOperator × Expr)) :
    (o.node left).join (others.map (Prod.map id o.view.expr)) = o.node (left.join others) := by
  have seen := o.node_tree (OperandRun.tree ⟨left,others.map fun next => (next.1,next.2.toNode)⟩)
  rw [← OperandRun.map_tree,OperandRun.map,List.map_map] at seen
  rw [Node.join,Node.join,← seen,List.map_map]
  simp only [Function.comp_def,Prod.map,id,node_expr]

theorem kept_run {σ α : Type} {m : Machine σ α} {state : σ → σ} {value : α → α} {s : σ}
    (step : ∀ s t, m.step (state s) (o.view.token t) = (m.step s t).andThen state fun v => .done (value v))
    (finish : ∀ s, m.finish (state s) = (m.finish s).map value) (fixed : state s = s) : Kept o.view.token value (m.run s) := by
  intro tokens _
  have seen := Machine.run_image state value o.view.token step finish s tokens
  rwa [fixed] at seen

theorem expr_arguments (e : Expr) : (o.view.expr e).arguments = e.arguments.map o.view.expr := by
  cases e with
  | call callee es span => exact o.view.exprs_map es
  | number | reference | binary => rfl

theorem kept_arguments : Kept o.view.token (List.map o.view.expr) Primary.readArguments := by
  have inside : Kept o.view.token o.view.expr (Primary.machine.run ⟨.name (.endOfInput none),[]⟩) :=
    o.kept_run o.view.primary_step o.view.primary_finish rfl
  exact (inside.mapped o.expr_arguments).demanded (fun _ => rfl) _ _

theorem kept_expression : Kept o.view.token o.view.item TopLevel.readExpression := by
  intro tokens inner
  cases tokens with
  | nil => rfl
  | cons t later =>
      have begun : TopLevel.beginExpression (o.view.token t) = (TopLevel.beginExpression t).map o.view.top := by
        simp only [TopLevel.beginExpression,o.view.expression_begin]
        cases Expression.begin t <;> rfl
      simp only [List.map_cons,TopLevel.readExpression,begun]
      cases TopLevel.beginExpression t with
      | error reason => rfl
      | ok s => exact Machine.run_image o.view.top o.view.item o.view.token o.view.top_step o.view.top_finish s later

theorem kept_first (least : Int) : Kept o.view.token (List.map (Prod.map id o.view.expr)) (Operands.readFirst least) := by
  intro tokens inner
  cases tokens with
  | nil => rfl
  | cons t later =>
      simp only [List.map_cons,Operands.readFirst,o.view.binary_operator]
      cases t.binaryOperator? with
      | none => rfl
      | some operator =>
          dsimp only
          split
          · exact Machine.run_image o.view.operands o.view.others o.view.token (o.view.operands_step _)
              o.view.operands_finish (.operand [] operator .start) later
          · rfl

def guise : Guise where
  token := o.view.token
  header := .unspanned
  expr := o.view.expr
  item := o.view.item
  node := o.node
  kind _ := rfl
  binary := o.view.binary_operator
  items tokens _ := o.view.read_seen tokens
  topLevel := o.kept_run o.view.top_step o.view.top_finish rfl
  bareExpression := o.kept_expression
  heading := o.kept_run o.view.header_step o.view.header_finish rfl
  expression := o.kept_run o.view.expression_step o.view.expression_finish rfl
  primary := o.kept_run o.view.primary_step o.view.primary_finish rfl
  arguments := o.kept_arguments
  operands least := o.kept_run (o.view.operands_step least) o.view.operands_finish rfl
  first := o.kept_first
  hasSpan n := (o.node_span n).1
  join := o.node_join

theorem of_tokens_seen (tokens : List Token) :
    TokenStream.ofTokens (tokens.map o.view.token) = (TokenStream.ofTokens tokens).map o.view.token := by
  have ends (t : Token) : (o.view.token t).isEnd = t.isEnd := rfl
  unfold TokenStream.ofTokens
  rw [List.getLast?_map]
  cases tokens.getLast? with
  | none => rfl
  | some last =>
      simp only [Option.map_some,ends]
      split
      · rfl
      · simp only [TokenStream.map,List.map_append]
        rfl

end Observer

end KaleidoscopeFrontEnd

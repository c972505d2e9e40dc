import KaleidoscopeFrontEnd.Proofs.Completeness
import KaleidoscopeFrontEnd.Tree.Sexpr

namespace KaleidoscopeFrontEnd

variable {σ τ α β γ : Type}

namespace OperatorTree

def map (f : α → β) : OperatorTree α → OperatorTree β
  | .leaf operand => .leaf (f operand)
  | .node left operator right => .node (left.map f) operator (right.map f)

theorem map_graft (f : α → β) (operator : BinaryOperator) (operand : α) (t : OperatorTree α) :
    (t.graft operator operand).map f = (t.map f).graft operator (f operand) := by
  induction t with
  | leaf only => rfl
  | node left root right _ ih =>
      simp only [graft,map]
      split
      · rw [map,ih]
      · rfl

end OperatorTree

namespace OperandRun

def map (f : α → β) (run : OperandRun α) : OperandRun β := ⟨f run.first,run.others.map fun next => (next.1,f next.2)⟩

theorem map_tree (f : α → β) (run : OperandRun α) : (run.map f).tree = run.tree.map f := by
  obtain ⟨first,others⟩ := run
  simp only [map,tree,List.foldl_map]
  have grown : ∀ t : OperatorTree α, others.foldl (fun grouped next => grouped.graft next.1 (f next.2)) (t.map f) =
      (others.foldl (fun grouped next => grouped.graft next.1 next.2) t).map f := by
    intro t
    induction others generalizing t with
    | nil => rfl
    | cons next others ih =>
        rw [List.foldl_cons,List.foldl_cons,← OperatorTree.map_graft]
        exact ih _
  exact grown (.leaf first)

theorem map_add (f : α → β) (run : OperandRun α) (operator : BinaryOperator) (operand : α) :
    (run.add operator operand).map f = (run.map f).add operator (f operand) := by
  simp only [add,map,List.map_append,List.map_cons,List.map_nil]

end OperandRun

def TokenValue.seen (number : Binary64 → Binary64) : TokenValue → TokenValue
  | .text s => .text s
  | .number x => .number (number x)

-- A way to look at tokens that keeps all the grammar goes by: kinds, and values up to a map of the
-- numbers. Places are not kept.
structure View where
  token : Token → Token
  number : Binary64 → Binary64
  zero : number .zero = .zero
  kind (t : Token) : (token t).kind = t.kind
  value (t : Token) : (token t).value = t.value.map (.seen number)
  location (t : Token) : (token t).location = none

namespace View

variable (v : View)

theorem word (t : Token) : (v.token t).word = t.word := by
  simp only [Token.word,v.value]
  cases t.value with
  | none => rfl
  | some value => cases value <;> rfl

theorem amount (t : Token) : (v.token t).amount = v.number t.amount := by
  simp only [Token.amount,v.value]
  cases t.value with
  | none => exact v.zero.symm
  | some value =>
      cases value with
      | text s => exact v.zero.symm
      | number x => rfl

theorem binary_operator (t : Token) : (v.token t).binaryOperator? = t.binaryOperator? := by
  simp only [Token.binaryOperator?,v.kind,v.value]
  cases t.value with
  | none => cases t.kind <;> rfl
  | some value => cases value <;> cases t.kind <;> rfl

theorem terminator (t : Token) : (v.token t).isTerminator = t.isTerminator := by
  simp only [Token.isTerminator,Token.isOperator,v.kind,v.value]
  cases t.value with
  | none => rfl
  | some value => cases value <;> rfl

theorem span (first last : Token) : (v.token first).spanTo (v.token last) = none := by
  simp only [Token.spanTo,v.location,Span.between]

end View

def Prototype.unspanned (p : Prototype) : Prototype := ⟨p.name,p.parameters,none⟩

namespace View

variable (v : View)

mutual

def expr : Expr → Expr
  | .number x _ => .number (v.number x) none
  | .reference name _ => .reference name none
  | .binary left operator right _ => .binary (expr left) operator (expr right) none
  | .call callee arguments _ => .call callee (exprs arguments) none

def exprs : List Expr → List Expr
  | [] => []
  | e :: later => expr e :: exprs later

end

theorem exprs_map (es : List Expr) : v.exprs es = es.map v.expr := by
  induction es with
  | nil => rfl
  | cons e es ih => rw [exprs,ih,List.map_cons]

theorem expr_span (e : Expr) : (v.expr e).span = none := by
  cases e <;> simp only [expr,Expr.span]

theorem expr_tree (t : OperatorTree Expr) : Expr.ofTree (t.map v.expr) = v.expr (Expr.ofTree t) := by
  induction t with
  | leaf operand => rfl
  | node left operator right leftIh rightIh =>
      simp only [OperatorTree.map,Expr.ofTree,leftIh,rightIh,expr_span,expr]
      rfl

theorem run_expr (run : OperandRun Expr) : (run.map v.expr).expr = v.expr run.expr := by
  rw [OperandRun.expr,OperandRun.map_tree,expr_tree]
  rfl

def item (i : Item) : Item := ⟨i.prototype.unspanned,i.body.map v.expr,none⟩

-- The states of the machines as they are seen. A state stands for the same reading of other tokens.

def bracket : Primary.Bracket → Primary.Bracket
  | .group => .group
  | .arguments name read => .arguments (v.token name) (read.map v.expr)

def level (l : Primary.Level) : Primary.Level :=
  ⟨v.bracket l.bracket,l.before.map fun before => (before.1.map v.expr,before.2)⟩

def focus : Primary.Focus → Primary.Focus
  | .operand => .operand
  | .arguments name => .arguments (v.token name)
  | .name name => .name (v.token name)
  | .value e => .value (v.expr e)

def primary (s : Primary.State) : Primary.State := ⟨v.focus s.focus,s.levels.map v.level⟩

def others (read : List (BinaryOperator × Expr)) : List (BinaryOperator × Expr) :=
  read.map fun next => (next.1,v.expr next.2)

def operands : Operands.State → Operands.State
  | .between read => .between (v.others read)
  | .operand read operator p => .operand (v.others read) operator (v.primary p)

def expression : Expression.State → Expression.State
  | .first p => .first (v.primary p)
  | .operands first o => .operands (v.expr first) (v.operands o)

def header : Header.State → Header.State
  | .name => .name
  | .opening name => .opening (v.token name)
  | .parameters name read => .parameters (v.token name) read
  | .closed p => .closed p.unspanned

def top : TopLevel.State → TopLevel.State
  | .start => .start
  | .definition keyword h last => .definition (v.token keyword) (v.header h) (v.token last)
  | .external keyword h last => .external (v.token keyword) (v.header h) (v.token last)
  | .body keyword p e last => .body (v.token keyword) p.unspanned (v.expression e) (v.token last)
  | .expression first e last => .expression (v.token first) (v.expression e) (v.token last)

def program (s : Program.State) : Program.State := ⟨s.items.map v.item,v.top s.current⟩

end View

namespace Move

theorem and_then_seen {m : Move σ α} {inside : σ → τ} {after : α → Move τ β} {seen : σ → σ} {value : α → α}
    {outer : τ → τ} {result : β → β} {entered : σ → τ} {behind : α → Move τ β}
    (shifts : ∀ s, entered (seen s) = outer (inside s))
    (ends : ∀ a, behind (value a) = (after a).andThen outer fun b => .done (result b)) :
    (m.andThen seen fun a => .done (value a)).andThen entered behind =
      (m.andThen inside after).andThen outer fun b => .done (result b) := by
  cases m with
  | shift s => exact congrArg Move.shift (shifts s)
  | done a => exact ends a
  | refuse reason => rfl

theorem of_begin_seen {begun : Except Refusal σ} {outer : σ → τ} {result : α → β} :
    (ofBegin (begun.map outer) : Move τ β) = (ofBegin begun).andThen outer fun b => .done (result b) := by
  cases begun <;> rfl

end Move

namespace View

variable (v : View)

theorem number_seen (t : Token) : Primary.numberOf (v.token t) = v.expr (Primary.numberOf t) := by
  simp only [Primary.numberOf,v.amount,v.span,expr]

theorem reference_seen (t : Token) : Primary.referenceTo (v.token t) = v.expr (Primary.referenceTo t) := by
  simp only [Primary.referenceTo,v.word,v.span,expr]

theorem call_seen (name closing : Token) (read : List Expr) :
    Primary.callOf (v.token name) (v.token closing) (read.map v.expr) = v.expr (Primary.callOf name closing read) := by
  simp only [Primary.callOf,v.word,v.span,expr,exprs_map]

theorem begin_seen (levels : List Primary.Level) (t : Token) :
    Primary.begin (levels.map v.level) (v.token t) = (Primary.begin levels t).map v.primary := by
  unfold Primary.begin
  rw [v.kind]
  split
  · rw [number_seen]; rfl
  · rfl
  · rfl
  · rfl

theorem level_run (l : Primary.Level) (e : Expr) : (v.level l).run (v.expr e) = (l.run e).map v.expr := by
  obtain ⟨bracket,before⟩ := l
  cases before with
  | none => rfl
  | some before => exact (OperandRun.map_add v.expr before.1 before.2 e).symm

theorem close_seen (e : Expr) (l : Primary.Level) (outer : List Primary.Level) (t : Token) :
    Primary.close (v.expr e) (v.level l) (outer.map v.level) (v.token t) =
      (Primary.close e l outer t).andThen v.primary fun e => .done (v.expr e) := by
  have same : (v.level l).bracket = v.bracket l.bracket := rfl
  simp only [Primary.close,v.binary_operator,v.kind,level_run,run_expr,same]
  cases t.binaryOperator? with
  | some operator => rfl
  | none =>
      cases l.bracket with
      | group => cases t.kind <;> rfl
      | arguments name read =>
          have grown : read.map v.expr ++ [v.expr (l.run e).expr] = (read ++ [(l.run e).expr]).map v.expr := by
            rw [List.map_append,List.map_singleton]
          cases t.kind with
          | comma => simp only [bracket,grown]; rfl
          | closeParen => simp only [bracket,grown,call_seen]; rfl
          | _ => rfl

theorem after_seen (e : Expr) (levels : List Primary.Level) (t : Token) :
    Primary.after (v.expr e) (levels.map v.level) (v.token t) =
      (Primary.after e levels t).andThen v.primary fun e => .done (v.expr e) := by
  cases levels with
  | nil => rfl
  | cons l outer => exact v.close_seen e l outer t

theorem primary_step (s : Primary.State) (t : Token) : Primary.step (v.primary s) (v.token t) =
    (Primary.step s t).andThen v.primary fun e => .done (v.expr e) := by
  obtain ⟨focus,levels⟩ := s
  cases focus with
  | operand =>
      simp only [primary,View.focus,Primary.step,begin_seen]
      exact Move.of_begin_seen
  | arguments name =>
      have opened : Primary.begin (.ofBracket (.arguments (v.token name) []) :: levels.map v.level) (v.token t) = _ :=
        v.begin_seen (.ofBracket (.arguments name []) :: levels) t
      simp only [primary,View.focus,Primary.step,v.kind,opened]
      split
      · simp only [Move.andThen,primary,View.focus,← call_seen,List.map_nil]
      · exact Move.of_begin_seen
  | name name =>
      simp only [primary,View.focus,Primary.step,v.kind,reference_seen,after_seen]
      split <;> rfl
  | value e => exact v.after_seen e levels t

theorem finish_inside_seen (e : Expr) (levels : List Primary.Level) :
    Primary.finishInside (v.expr e) (levels.map v.level) = (Primary.finishInside e levels).map v.expr := by
  cases levels with
  | nil => rfl
  | cons l outer =>
      obtain ⟨bracket,before⟩ := l
      cases bracket <;> rfl

theorem primary_finish (s : Primary.State) : Primary.finish (v.primary s) = (Primary.finish s).map v.expr := by
  obtain ⟨focus,levels⟩ := s
  cases focus with
  | operand | arguments => rfl
  | name name =>
      simp only [primary,View.focus,Primary.finish,reference_seen]
      exact v.finish_inside_seen _ levels
  | value e => exact v.finish_inside_seen e levels

theorem others_add (read : List (BinaryOperator × Expr)) (operator : BinaryOperator) (e : Expr) :
    v.others read ++ [(operator,v.expr e)] = v.others (read ++ [(operator,e)]) := by
  rw [others,others,List.map_append,List.map_singleton]

theorem between_seen (least : Int) (read : List (BinaryOperator × Expr)) (t : Token) :
    Operands.between least (v.others read) (v.token t) =
      (Operands.between least read t).andThen v.operands fun read => .done (v.others read) := by
  simp only [Operands.between,v.binary_operator]
  cases t.binaryOperator? with
  | none => rfl
  | some operator =>
      simp only
      split <;> rfl

theorem operands_step (least : Int) (s : Operands.State) (t : Token) :
    Operands.step least (v.operands s) (v.token t) =
      (Operands.step least s t).andThen v.operands fun read => .done (v.others read) := by
  cases s with
  | between read => exact v.between_seen least read t
  | operand read operator p =>
      simp only [operands,Operands.step,primary_step]
      refine Move.and_then_seen (fun _ => rfl) fun e => ?_
      rw [others_add]
      exact v.between_seen least _ t

theorem operands_finish (s : Operands.State) : Operands.finish (v.operands s) = (Operands.finish s).map v.others := by
  cases s with
  | between read => rfl
  | operand read operator p =>
      simp only [operands,Operands.finish,primary_finish]
      cases Primary.finish p with
      | error expected => rfl
      | ok e => exact congrArg Except.ok (v.others_add read operator e)

theorem join_seen (first : Expr) (read : List (BinaryOperator × Expr)) :
    Expression.join (v.expr first) (v.others read) = v.expr (Expression.join first read) :=
  v.run_expr ⟨first,read⟩

theorem behind_seen {m seen : Move Operands.State (List (BinaryOperator × Expr))} (first : Expr)
    (same : seen = m.andThen v.operands fun read => .done (v.others read)) :
    Expression.behind (v.expr first) seen =
      (Expression.behind first m).andThen v.expression fun e => .done (v.expr e) := by
  rw [same]
  refine Move.and_then_seen (fun _ => rfl) fun read => ?_
  rw [join_seen]
  rfl

theorem expression_step (s : Expression.State) (t : Token) : Expression.step (v.expression s) (v.token t) =
    (Expression.step s t).andThen v.expression fun e => .done (v.expr e) := by
  cases s with
  | first p =>
      simp only [expression,Expression.step,primary_step]
      refine Move.and_then_seen (fun _ => rfl) fun e => ?_
      exact v.behind_seen e (v.between_seen 0 [] t)
  | operands first o => exact v.behind_seen first (v.operands_step 0 o t)

theorem expression_finish (s : Expression.State) : Expression.finish (v.expression s) = (Expression.finish s).map v.expr := by
  cases s with
  | first p => exact v.primary_finish p
  | operands first o =>
      simp only [expression,Expression.finish,operands_finish]
      cases Operands.finish o with
      | error expected => rfl
      | ok read => exact congrArg Except.ok (v.join_seen first read)

theorem expression_begin (t : Token) : Expression.begin (v.token t) = (Expression.begin t).map v.expression := by
  have begun : Primary.begin [] (v.token t) = _ := v.begin_seen [] t
  simp only [Expression.begin,begun]
  cases Primary.begin [] t <;> rfl

theorem header_step (s : Header.State) (t : Token) : Header.step (v.header s) (v.token t) =
    (Header.step s t).andThen v.header fun p => .done p.unspanned := by
  cases s with
  | name | opening =>
      simp only [header,Header.step,v.kind]
      split <;> rfl
  | parameters name read =>
      have closed : Header.close (v.token name) (v.token t) read = (Header.close name t read).unspanned := by
        simp only [Header.close,v.word,v.span,Prototype.unspanned]
      simp only [header,Header.step,v.kind,closed,v.word]
      cases t.kind <;> rfl
  | closed p => rfl

theorem header_finish (s : Header.State) : Header.finish (v.header s) = (Header.finish s).map .unspanned := by
  cases s <;> rfl

theorem top_begin (t : Token) : TopLevel.begin (v.token t) = (TopLevel.begin t).map v.top := by
  have expression : TopLevel.beginExpression (v.token t) = (TopLevel.beginExpression t).map v.top := by
    simp only [TopLevel.beginExpression,expression_begin]
    cases Expression.begin t <;> rfl
  simp only [TopLevel.begin,v.kind]
  cases t.kind <;> first | rfl | exact expression

theorem external_seen (keyword last : Token) (p : Prototype) :
    TopLevel.external (v.token keyword) (v.token last) p.unspanned = v.item (TopLevel.external keyword last p) := by
  simp only [TopLevel.external,v.span,item,Option.map_none]

theorem definition_seen (keyword last : Token) (p : Prototype) (body : Expr) :
    TopLevel.definition (v.token keyword) (v.token last) p.unspanned (v.expr body) =
      v.item (TopLevel.definition keyword last p body) := by
  simp only [TopLevel.definition,v.span,item,Option.map_some]

theorem anonymous_seen (first last : Token) (body : Expr) :
    Item.ofExpr (v.expr body) ((v.token first).spanTo (v.token last)) = v.item (.ofExpr body (first.spanTo last)) := by
  simp only [Item.ofExpr,v.span,expr_span,item,Option.map_some,Prototype.unspanned]

theorem top_step (s : TopLevel.State) (t : Token) : TopLevel.step (v.top s) (v.token t) =
    (TopLevel.step s t).andThen v.top fun i => .done (v.item i) := by
  cases s with
  | start =>
      simp only [top,TopLevel.step,top_begin]
      exact Move.of_begin_seen
  | definition keyword h last =>
      simp only [top,TopLevel.step,header_step,expression_begin]
      refine Move.and_then_seen (fun _ => rfl) fun p => ?_
      cases Expression.begin t <;> rfl
  | external keyword h last =>
      simp only [top,TopLevel.step,header_step]
      refine Move.and_then_seen (fun _ => rfl) fun p => ?_
      rw [external_seen]
      rfl
  | body keyword p e last =>
      simp only [top,TopLevel.step,expression_step]
      refine Move.and_then_seen (fun _ => rfl) fun body => ?_
      rw [definition_seen]
      rfl
  | expression first e last =>
      simp only [top,TopLevel.step,expression_step]
      refine Move.and_then_seen (fun _ => rfl) fun body => ?_
      rw [anonymous_seen]
      rfl

theorem top_finish (s : TopLevel.State) : TopLevel.finish (v.top s) = (TopLevel.finish s).map v.item := by
  cases s with
  | start => rfl
  | definition keyword h last =>
      simp only [top,TopLevel.finish,header_finish]
      cases Header.finish h <;> rfl
  | external keyword h last =>
      simp only [top,TopLevel.finish,header_finish]
      cases Header.finish h with
      | error expected => rfl
      | ok p => exact congrArg Except.ok (v.external_seen keyword last p)
  | body keyword p e last =>
      simp only [top,TopLevel.finish,expression_finish]
      cases Expression.finish e with
      | error expected => rfl
      | ok body => exact congrArg Except.ok (v.definition_seen keyword last p body)
  | expression first e last =>
      simp only [top,TopLevel.finish,expression_finish]
      cases Expression.finish e with
      | error expected => rfl
      | ok body => exact congrArg Except.ok (v.anonymous_seen first last body)

theorem items_add (items : List Item) (i : Item) : items.map v.item ++ [v.item i] = (items ++ [i]).map v.item := by
  rw [List.map_append,List.map_singleton]

theorem program_begin (items : List Item) (t : Token) : Program.begin (items.map v.item) (v.token t) =
    (Program.begin items t).andThen v.program fun items => .done (items.map v.item) := by
  simp only [Program.begin,v.terminator,top_begin]
  cases t.isTerminator with
  | true => rfl
  | false => cases TopLevel.begin t <;> rfl

theorem top_started (started : s ≠ .start) : v.top s ≠ .start := by
  cases s with
  | start => exact absurd rfl started
  | definition | external | body | expression => exact TopLevel.State.noConfusion

theorem program_step (s : Program.State) (t : Token) : Program.step (v.program s) (v.token t) =
    (Program.step s t).andThen v.program fun items => .done (items.map v.item) := by
  obtain ⟨items,current⟩ := s
  by_cases start : current = .start
  · subst start
    exact v.program_begin items t
  · simp only [program,Program.step_inside start,Program.step_inside (v.top_started start),top_step]
    refine Move.and_then_seen (fun _ => rfl) fun i => ?_
    rw [items_add]
    exact v.program_begin _ t

theorem program_finish (s : Program.State) :
    Program.finish (v.program s) = (Program.finish s).map fun items => items.map v.item := by
  obtain ⟨items,current⟩ := s
  by_cases start : current = .start
  · subst start
    rfl
  · simp only [program,Program.finish_inside start,Program.finish_inside (v.top_started start),top_finish]
    cases TopLevel.finish current with
    | error expected => rfl
    | ok i => exact congrArg Except.ok (v.items_add items i)

theorem read_seen (tokens : List Token) :
    Program.read (tokens.map v.token) = (Program.read tokens).image (fun items => items.map v.item) v.token :=
  Machine.run_image v.program _ v.token v.program_step v.program_finish (.between []) tokens

end View

def View.unplaced : View where
  token t := { t with location := none }
  number := id
  zero := rfl
  kind _ := rfl
  value t := by
    cases t.value with
    | none => rfl
    | some value => cases value <;> rfl
  location _ := rfl

-- What is printed of a tree is its meaning: no place has a part in it.

mutual

theorem expr_unplaced : ∀ e, Expr.sexpr (View.unplaced.expr e) = e.sexpr
  | .number _ _ | .reference _ _ => rfl
  | .binary left operator right _ => by
      simp only [View.expr,Expr.sexpr,expr_unplaced left,expr_unplaced right]
  | .call callee arguments _ => by
      simp only [View.expr,Expr.sexpr,exprs_unplaced arguments]

theorem exprs_unplaced : ∀ es, Expr.sexprs (View.unplaced.exprs es) = Expr.sexprs es
  | [] => rfl
  | e :: later => by simp only [View.exprs,Expr.sexprs,expr_unplaced e,exprs_unplaced later]

end

theorem item_unplaced (i : Item) : (View.unplaced.item i).sexpr = i.sexpr := by
  obtain ⟨p,body,span⟩ := i
  cases body with
  | none => rfl
  | some e => simp only [View.item,Option.map_some,Item.sexpr,expr_unplaced]; rfl

theorem read_unplaced {w v : List Token} (same : w.map View.unplaced.token = v.map View.unplaced.token)
    (accepted : Program.read w = .accepted items []) :
    ∃ others, Program.read v = .accepted others [] ∧ others.map Item.sexpr = items.map Item.sexpr := by
  have seen := View.unplaced.read_seen w
  rw [same,View.read_seen,accepted] at seen
  cases read : Program.read v with
  | refused | exhausted => rw [read] at seen; cases seen
  | accepted others rest =>
      rw [read] at seen
      obtain ⟨alike,left⟩ := Reply.accepted.inj seen
      rw [List.map_eq_nil_iff.mp left]
      refine ⟨others,rfl,?_⟩
      have printed := congrArg (List.map Item.sexpr) alike
      simpa only [List.map_map,Function.comp_def,item_unplaced] using printed

end KaleidoscopeFrontEnd

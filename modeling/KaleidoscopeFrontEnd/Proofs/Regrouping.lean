import KaleidoscopeFrontEnd.Proofs.Meaning
import KaleidoscopeFrontEnd.Proofs.Recursion
import KaleidoscopeFrontEnd.Proofs.Spans

namespace KaleidoscopeFrontEnd

variable {α β : Type}

namespace OperandRun

variable (value : OperatorTree α → β)

theorem graft_all_tight (binds : o.precedence < p.1.precedence)
    (others : List (BinaryOperator × α)) (l r : OperatorTree α) :
    graftAll (p :: others) (.node l o r) = graftAll others (.node l o (r.graft p.1 p.2)) :=
  congrArg (graftAll others) (if_pos binds)

theorem graft_all_loose (apart : ¬ o.precedence < p.1.precedence) (others : List (BinaryOperator × α))
    (l r : OperatorTree α) :
    graftAll (p :: others) (.node l o r) = graftAll others (.node (.node l o r) p.1 (.leaf p.2)) :=
  congrArg (graftAll others) (if_neg apart)

-- What stands to the left of the root is not taken apart again.
theorem graft_all_left (law : ∀ {l k : OperatorTree α} {o r}, value l = value k → value (.node l o r) = value (.node k o r))
    (others : List (BinaryOperator × α)) {l k : OperatorTree α} (same : value l = value k) (r : OperatorTree α) :
    value (graftAll others (.node l o r)) = value (graftAll others (.node k o r)) := by
  induction others generalizing l k o r with
  | nil => exact law same
  | cons next others ih =>
      by_cases binds : o.precedence < next.1.precedence
      · rw [graft_all_tight binds,graft_all_tight binds]
        exact ih same _
      · rw [graft_all_loose binds,graft_all_loose binds]
        exact ih (law same) _

theorem graft_all_operation
    (law : ∀ {l k : OperatorTree α} {o r}, value l = value k → value (.node l o r) = value (.node k o r))
    {inner others : List (BinaryOperator × α)} (tight : ∀ p ∈ inner, o.precedence < p.1.precedence)
    (loose : ∀ p ∈ others.head?, p.1.precedence ≤ o.precedence)
    (same : value (.node (.leaf left) o (graftAll inner (.leaf right))) = value (.leaf whole)) :
    value (graftAll ((o,right) :: inner ++ others) (.leaf left)) = value (graftAll others (.leaf whole)) := by
  have grouped : graftAll ((o,right) :: inner ++ others) (.leaf left) =
      graftAll others (.node (.leaf left) o (graftAll inner (.leaf right))) := by
    rw [← graft_all_right tight]
    exact graft_all_append _ _ _
  rw [grouped]
  cases others with
  | nil => exact same
  | cons next others =>
      rw [graft_all_loose (Nat.not_lt.mpr (loose next rfl))]
      exact graft_all_left value law others same _

end OperandRun

theorem Expression.join_operation {inner others : List (BinaryOperator × Expr)}
    (tight : ∀ p ∈ inner, o.precedence < p.1.precedence) (loose : ∀ p ∈ others.head?, p.1.precedence ≤ o.precedence)
    (left e : Expr) : join left ((o,e) :: inner ++ others) =
      join (.binary left o (join e inner) (Span.join left.span (join e inner).span)) others := by
  refine OperandRun.graft_all_operation Expr.ofTree (fun {l k o r} same => ?_) tight loose rfl
  simp only [Expr.ofTree,same]

theorem Node.tree_node (t : OperatorTree Expr) : Node.ofTree (t.map Expr.toNode) = (Expr.ofTree t).toNode := by
  induction t with
  | leaf operand => rfl
  | node left operator right leftIh rightIh =>
      simp only [OperatorTree.map,Node.ofTree,Expr.ofTree,Expr.toNode,leftIh,rightIh,Expr.node_span]

theorem Node.join_operation {inner others : List (BinaryOperator × Expr)}
    (tight : ∀ p ∈ inner, o.precedence < p.1.precedence) (loose : ∀ p ∈ others.head?, p.1.precedence ≤ o.precedence)
    (left : Node) (e : Expr) : left.join ((o,e) :: inner ++ others) =
      (Node.binary left o.symbol (Expression.join e inner).toNode
        (Span.join left.span (Expression.join e inner).toNode.span)).join others := by
  let nodes (others : List (BinaryOperator × Expr)) := others.map fun next => (next.1,next.2.toNode)
  have seen : Node.ofTree (OperandRun.graftAll (nodes inner) (.leaf e.toNode)) = (Expression.join e inner).toNode := by
    have mapped := OperandRun.map_tree Expr.toNode ⟨e,inner⟩
    exact (congrArg Node.ofTree mapped).trans (tree_node _)
  have all : nodes ((o,e) :: inner ++ others) = (o,e.toNode) :: nodes inner ++ nodes others := by
    simp only [nodes,List.cons_append,List.map_cons,List.map_append]
  have binds : ∀ p ∈ nodes inner, o.precedence < p.1.precedence := by
    intro p member
    obtain ⟨q,found,rfl⟩ := List.mem_map.mp member
    exact tight q found
  have follow : ∀ p ∈ (nodes others).head?, p.1.precedence ≤ o.precedence := by
    cases others with
    | nil => exact fun p none => by cases none
    | cons next others => exact fun p first => by cases first; exact loose next rfl
  let whole := Node.binary left o.symbol (Expression.join e inner).toNode
    (Span.join left.span (Expression.join e inner).toNode.span)
  have joined : Node.ofTree (OperandRun.graftAll ((o,e.toNode) :: nodes inner ++ nodes others) (.leaf left)) =
      Node.ofTree (OperandRun.graftAll (nodes others) (.leaf whole)) := by
    refine OperandRun.graft_all_operation Node.ofTree (fun {l k o r} same => ?_) binds follow ?_
    · simp only [Node.ofTree,same]
    · simp only [Node.ofTree,seen]
      rfl
  rw [← all] at joined
  exact joined

namespace Operands

def tightened (o : BinaryOperator) (tokens : List Token) : Reply Expr :=
  (Primary.read tokens).andThen fun e rest => (read (o.precedence + 1) rest).map (Expression.join e)

theorem tightened_suffix (accepted : tightened o tokens = .accepted e rest) : rest <:+ tokens := by
  obtain ⟨first,middle,operand,accepted⟩ := Reply.and_then_accepted.mp accepted
  obtain ⟨inner,tighter,_⟩ := Reply.map_accepted.mp accepted
  exact (Machine.run_suffix tighter).trans (Machine.run_suffix operand)

theorem tightened_shorter (accepted : tightened o tokens = .accepted e rest) : rest.length < tokens.length := by
  obtain ⟨first,middle,operand,accepted⟩ := Reply.and_then_accepted.mp accepted
  obtain ⟨inner,tighter,_⟩ := Reply.map_accepted.mp accepted
  exact Nat.lt_of_le_of_lt (Machine.run_shorter tighter) (Primary.read_shorter operand)

-- Joining everything to what stands in front is joining the first operator's operand, and then the others to that.
theorem read_joined {least : Int} {joined : List (BinaryOperator × Expr) → α} {later : Expr → List (BinaryOperator × Expr) → α}
    (law : ∀ {e : Expr} {inner others : List (BinaryOperator × Expr)}, (∀ p ∈ inner, o.precedence < p.1.precedence) →
      (∀ p ∈ others.head?, p.1.precedence ≤ o.precedence) →
        joined ((o,e) :: inner ++ others) = later (Expression.join e inner) others)
    (binary : t.binaryOperator? = some o) (sufficient : least ≤ o.precedence) (tokens : List Token) :
    (read least (t :: tokens)).map joined =
      (tightened o tokens).andThen fun right rest => (read least rest).map (later right) := by
  rw [read_operator binary sufficient,tightened,Reply.map_and_then]
  cases Primary.read tokens with
  | refused | exhausted => rfl
  | accepted e rest =>
      simp only [Reply.andThen]
      cases inner : read (o.precedence + 1) rest with
      | refused | exhausted => rfl
      | accepted tight behind =>
          have takes := read_takes inner
          have binds : ∀ p ∈ tight, o.precedence < p.1.precedence := fun p member => by
            have bound := takes.sufficient p member
            omega
          simp only [Reply.map]
          cases others : read least behind with
          | refused | exhausted => rfl
          | accepted more final =>
              have loose : ∀ p ∈ more.head?, p.1.precedence ≤ o.precedence := fun p first => by
                obtain ⟨u,head,operator⟩ := (read_takes others).begins p first
                have bound := takes.ends u head p.1 operator
                omega
              simp only [law binds loose]

end Operands

end KaleidoscopeFrontEnd

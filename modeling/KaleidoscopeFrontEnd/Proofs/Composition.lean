import KaleidoscopeFrontEnd.Proofs.Completeness
import KaleidoscopeFrontEnd.Proofs.Grouping
import Mathlib.Data.List.Induction

namespace KaleidoscopeFrontEnd.Derivation

variable {Q : List Token → Expr → Prop} {A : List Token → List Expr → Prop}

inductive Chain (Q : List Token → Expr → Prop) : List Token → OperandRun Expr → Prop where
  | single (operand : Q w e) : Chain Q w (.single e)
  | add (before : Chain Q w r) (t : Token) (binary : t.binaryOperator? = some o) (operand : Q v e) :
      Chain Q (w ++ t :: v) (r.add o e)

theorem Chain.only (chain : Chain Q w ⟨e,[]⟩) : Q w e := by
  generalize whole : (⟨e,[]⟩ : OperandRun Expr) = r at chain
  cases chain with
  | single operand => cases whole; exact operand
  | add => exact absurd (congrArg OperandRun.others whole) (by simp [OperandRun.add])

theorem Chain.split (chain : Chain Q w ⟨first,left ++ (o,next) :: right⟩) : ∃ u t v, w = u ++ t :: v ∧
    t.binaryOperator? = some o ∧ Chain Q u ⟨first,left⟩ ∧ Chain Q v ⟨next,right⟩ := by
  induction right using List.reverseRecOn generalizing w with
  | nil =>
      generalize whole : (⟨first,left ++ [(o,next)]⟩ : OperandRun Expr) = r at chain
      cases chain with
      | single => exact absurd (congrArg OperandRun.others whole) (by simp [OperandRun.single])
      | @add u r o' v e before t binary operand =>
          obtain ⟨rfl,same⟩ := OperandRun.mk.inj whole
          obtain ⟨rfl,last⟩ := List.append_inj' same rfl
          cases last
          exact ⟨u,t,v,rfl,binary,before,.single operand⟩
  | append_singleton right last ih =>
      generalize whole : (⟨first,left ++ (o,next) :: (right ++ [last])⟩ : OperandRun Expr) = r at chain
      cases chain with
      | single => exact absurd (congrArg OperandRun.others whole) (by simp [OperandRun.single])
      | @add u r p v e before t binary operand =>
          obtain ⟨_,earlier⟩ := r
          rw [← List.cons_append,← List.append_assoc] at whole
          obtain ⟨rfl,same⟩ := OperandRun.mk.inj whole
          obtain ⟨rfl,final⟩ := List.append_inj' same rfl
          cases final
          obtain ⟨x,s,y,rfl,operator,front,back⟩ := ih before
          exact ⟨x,s,y ++ t :: v,by rw [List.append_assoc,List.cons_append],operator,front,.add back t binary operand⟩

theorem Chain.run (chain : Chain (fun w e => Operand w e ∧ Q w e) w r) : Run w r := by
  induction chain with
  | single operand => exact .single operand.1
  | add before t binary operand ih => exact .add ih t binary operand.1

def Derives (w : List Token) (e : Expr) : Prop := ∃ r, Run w r ∧ r.expr = e

-- What holds of all operands of a chain and passes on to operations holds of every grouped tree over it.
theorem Chain.tree (binary : ∀ {w v : List Token} {l r t o}, Q w l → t.binaryOperator? = some o → Q v r →
      Derives (w ++ t :: v) (.binary l o r (Span.join l.span r.span)) →
        Q (w ++ t :: v) (.binary l o r (Span.join l.span r.span)))
    (grouped : t.Grouped) (chain : Chain (fun w e => Operand w e ∧ Q w e) w t.flatten) : Q w (.ofTree t) := by
  induction grouped generalizing w with
  | leaf operand => exact chain.only.2
  | @node l r o left right leftBinds rightBinds leftIh rightIh =>
      have whole : Derives w (.ofTree (.node l o r)) :=
        ⟨_,chain.run,congrArg Expr.ofTree (OperandRun.flatten_tree (.node left right leftBinds rightBinds))⟩
      obtain ⟨u,t,v,rfl,operator,front,back⟩ := chain.split
      exact binary (leftIh front) operator (rightIh back) whole

-- Parentheses grow the word and leave the tree, so a property can tell the two apart.
structure Compositional (Q : List Token → Expr → Prop) (A : List Token → List Expr → Prop) : Prop where
  number (t : Token) (kind : t.kind = .number) : Q [t] (Primary.numberOf t)
  reference (t : Token) (kind : t.kind = .identifier) : Q [t] (Primary.referenceTo t)
  binary {w v : List Token} {l r : Expr} {t : Token} {o : BinaryOperator} (left : Q w l)
    (operator : t.binaryOperator? = some o) (right : Q v r)
    (derived : Derives (w ++ t :: v) (.binary l o r (Span.join l.span r.span))) :
    Q (w ++ t :: v) (.binary l o r (Span.join l.span r.span))
  group {w : List Token} {e : Expr} (o c : Token) (opening : o.kind = .openParen) (closing : c.kind = .closeParen)
    (inside : Q w e) : Q (o :: w ++ [c]) e
  call {w : List Token} {es : List Expr} (n o c : Token) (named : n.kind = .identifier) (opening : o.kind = .openParen)
    (closing : c.kind = .closeParen) (derived : Operand (n :: o :: w ++ [c]) (Primary.callOf n c es)) (inside : A w es) :
    Q (n :: o :: w ++ [c]) (Primary.callOf n c es)
  none : A [] []
  single {w : List Token} {e : Expr} (argument : Q w e) : A w [e]
  add {w v : List Token} {es : List Expr} {e : Expr} (before : A w es) (t : Token) (comma : t.kind = .comma)
    (argument : Q v e) : A (w ++ t :: v) (es ++ [e])

namespace Compositional

theorem joined (laws : Compositional Q A) (chain : Chain (fun w e => Operand w e ∧ Q w e) w r) : Q w r.expr := by
  rw [← r.tree_flatten] at chain
  exact chain.tree laws.binary r.tree_grouped

mutual

theorem operand (laws : Compositional Q A) : Operand w e → Q w e
  | .number t kind => laws.number t kind
  | .reference t kind => laws.reference t kind
  | .group o c opening inside closing => laws.group o c opening closing (laws.joined (laws.chain inside))
  | .bareCall n o c named opening closing =>
      laws.call (w := []) n o c named opening closing (.bareCall n o c named opening closing) laws.none
  | .call n o c named opening inside closing =>
      laws.call n o c named opening closing (.call n o c named opening inside closing) (laws.arguments inside)

theorem chain (laws : Compositional Q A) : Run w r → Chain (fun w e => Operand w e ∧ Q w e) w r
  | .single operand => .single ⟨operand,laws.operand operand⟩
  | .add before t binary operand => .add (laws.chain before) t binary ⟨operand,laws.operand operand⟩

theorem arguments (laws : Compositional Q A) : Arguments w es → A w es
  | .single argument => laws.single (laws.joined (laws.chain argument))
  | .add before t comma argument => laws.add (laws.arguments before) t comma (laws.joined (laws.chain argument))

end

theorem expr (laws : Compositional Q A) (run : Run w r) : Q w r.expr := laws.joined (laws.chain run)

end Compositional

end KaleidoscopeFrontEnd.Derivation

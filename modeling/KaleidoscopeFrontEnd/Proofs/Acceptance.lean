import KaleidoscopeFrontEnd.Proofs.Language
import KaleidoscopeFrontEnd.Proofs.Streams
import Mathlib.Data.List.Basic

namespace KaleidoscopeFrontEnd

namespace Language

theorem closed_not_named (w : List Token) (closing : c.kind = .closeParen) (last : n ∈ (w ++ [c]).getLast?) :
    n.kind ≠ .identifier := by
  rw [List.getLast?_concat] at last
  cases last
  rw [closing]
  decide

theorem Primary.last_name (operand : Primary w) (last : n ∈ w.getLast?) (named : n.kind = .identifier) :
    w = [n] := by
  cases operand with
  | number t kind | name t kind =>
      obtain rfl : t = n := by simpa using last
      rfl
  | group o c opening inside closing => exact absurd named (closed_not_named _ closing last)
  | bareCall m o c _ opening closing => exact absurd named (closed_not_named [m,o] closing last)
  | call m o c _ opening inside closing => exact absurd named (closed_not_named _ closing last)

theorem Primary.first_paren (operand : Primary w) (first : o ∈ w.head?) (opening : o.kind = .openParen) :
    ∃ x c, w = o :: x ++ [c] ∧ Expression x ∧ c.kind = .closeParen := by
  cases operand with
  | number t kind => cases first; rw [kind] at opening; cases opening
  | name t kind => cases first; rw [kind] at opening; cases opening
  | group o c _ inside closing => cases first; exact ⟨_,c,rfl,inside,closing⟩
  | bareCall n o c named => cases first; rw [named] at opening; cases opening
  | call n o c named => cases first; rw [named] at opening; cases opening

theorem Primary.first_kind (operand : Primary w) (first : t ∈ w.head?) : t.kind ≠ .operator := by
  cases operand with
  | number t kind | name t kind | group t c kind => cases first; rw [kind]; decide
  | bareCall t o c kind | call t o c kind => cases first; rw [kind]; decide

theorem Primary.nonempty (operand : Primary w) : w ≠ [] := by
  obtain ⟨e,derived⟩ := primary_derives operand
  exact derived.nonempty

theorem Expression.nonempty (expression : Expression w) : w ≠ [] := by
  obtain ⟨r,derived⟩ := expression_derives expression
  exact derived.nonempty

theorem Expression.first_kind : Expression w → t ∈ w.head? → t.kind ≠ .operator
  | .single operand,first => operand.first_kind first
  | .add before _ _ _,first => before.first_kind (List.head?_append_of_ne_nil _ before.nonempty ▸ first)

-- The greedy reading of a name in front of a parenthesis: what was an expression and another
-- one behind it is one expression with a call in the middle.
theorem Expression.calls : Expression w → n ∈ w.getLast? → n.kind = .identifier → o.kind = .openParen →
    Expression x → c.kind = .closeParen → Expression (w ++ (o :: x ++ [c]))
  | .single operand,last,named,opening,inside,closing => by
      rw [operand.last_name last named]
      exact .single (.call n o c named opening (.single inside) closing)
  | .add before t binary operand,last,named,opening,inside,closing => by
      rename_i w v
      have split : v = [n] := by
        refine operand.last_name ?_ named
        rwa [List.append_cons,List.getLast?_append_of_ne_nil _ operand.nonempty] at last
      rw [split,List.append_assoc]
      exact .add before t binary (.call n o c named opening (.single inside) closing)

theorem Expression.joins (left : Expression w) (last : n ∈ w.getLast?) (named : n.kind = .identifier)
    (opening : o.kind = .openParen) : Expression v → o ∈ v.head? → Expression (w ++ v)
  | .single operand,first => by
      obtain ⟨x,c,rfl,inside,closing⟩ := operand.first_paren first opening
      exact left.calls last named opening inside closing
  | .add before t binary operand,first => by
      have joined := left.joins last named opening before (List.head?_append_of_ne_nil _ before.nonempty ▸ first)
      rw [← List.append_assoc]
      exact .add joined t binary operand

theorem Top.joins (item : Top w) (last : n ∈ w.getLast?) (named : n.kind = .identifier)
    (opening : o.kind = .openParen) (right : Expression v) (first : o ∈ v.head?) : Top (w ++ v) := by
  cases item with
  | @definition w x k keyword heading body =>
      rw [List.getLast?_append_of_ne_nil _ body.nonempty] at last
      rw [List.append_assoc]
      exact .definition k keyword heading (body.joins last named opening right first)
  | external k keyword heading =>
      obtain @⟨w,m,p,c,_,_,_,closing⟩ := heading
      exact absurd named (closed_not_named (k :: m :: p :: w) closing last)
  | expression body => exact .expression (body.joins last named opening right first)

theorem Top.first_not_binary (item : Top w) (first : t ∈ w.head?) : t.binaryOperator? = none := by
  refine Token.not_binary rfl ?_
  cases item with
  | definition t keyword | external t keyword => cases first; rw [keyword]; decide
  | expression body => exact body.first_kind first

theorem Top.of_paren (item : Top w) (first : t ∈ w.head?) (opening : t.kind = .openParen) : Expression w := by
  cases item with
  | definition t keyword | external t keyword => cases first; rw [keyword] at opening; cases opening
  | expression body => exact body

theorem Top.nonempty (item : Top w) : w ≠ [] := by
  cases item with
  | definition | external => simp
  | expression body => exact body.nonempty

-- A program is accepted whichever way it was derived. Where the machine reads an item and the next one as one, so
-- does the grammar, and the longer item takes the place of the one in front.
theorem program_run (derived : Program w) :
    (∀ items, ∃ all, Program.machine.run (.between items) w = .accepted all []) ∧
    ∀ items v, Top v → ∃ all, Program.machine.run (.between items) (v ++ w) = .accepted all [] := by
  induction derived with
  | nil =>
      refine ⟨fun items => ⟨items,rfl⟩,fun items v item => ?_⟩
      obtain ⟨i,derived⟩ := top_derives item
      rw [Program.item_run derived items [] (by simp)]
      exact ⟨items ++ [i],rfl⟩
  | @terminator w t terminator later ih =>
      have ends := terminator_exact.mp terminator
      have direct : ∀ items, ∃ all, Program.machine.run (.between items) (t :: w) = .accepted all [] := by
        intro items
        rw [Program.terminator_run ends]
        exact ih.1 items
      refine ⟨direct,fun items v item => ?_⟩
      obtain ⟨i,derived⟩ := top_derives item
      have separate : ∀ u ∈ (t :: w).head?, ¬ Adjoins v u ∧ u.binaryOperator? = none := by
        intro u first
        cases first
        exact terminator_apart ends v
      rw [Program.item_run derived items (t :: w) separate]
      exact direct _
  | @top u w next later ih =>
      refine ⟨fun items => ih.2 items u next,fun items v item => ?_⟩
      by_cases clash : ∃ t ∈ u.head?, Adjoins v t
      · obtain ⟨t,first,opening,n,last,named⟩ := clash
        rw [← List.append_assoc]
        exact ih.2 items (v ++ u) (item.joins last named opening (next.of_paren first opening) first)
      · obtain ⟨i,derived⟩ := top_derives item
        have separate : ∀ t ∈ (u ++ w).head?, ¬ Adjoins v t ∧ t.binaryOperator? = none := by
          intro t first
          rw [List.head?_append_of_ne_nil u next.nonempty] at first
          exact ⟨fun adjoins => clash ⟨t,first,adjoins⟩,next.first_not_binary first⟩
        rw [Program.item_run derived items (u ++ w) separate]
        exact ih.2 (items ++ [i]) u next

theorem read_exact : (∃ items, Program.read w = .accepted items []) ↔ Program w := by
  constructor
  · rintro ⟨items,accepted⟩
    exact of_items (Program.read_derives accepted).2
  · intro derived
    exact (program_run derived).1 []

end Language

def Accepts (tokens : List Token) : Prop :=
  ∃ items, ((TokenStream.ofTokens tokens).apply Program.read).1 = .ok items

theorem accepts_read : Accepts tokens ↔ ∃ items, Program.read (content tokens) = .accepted items [] := by
  unfold Accepts
  rw [TokenStream.apply_exact,TokenStream.of_tokens_unread]
  cases accepted : Program.read (content tokens) with
  | accepted items rest =>
      obtain ⟨rfl,_⟩ := Program.read_derives accepted
      simp [Reply.result]
  | refused reason found later => simp [Reply.result]
  | exhausted expected => simp [Reply.result]

-- The reader takes a name in front of a parenthesis for a call and goes on at every operator. It never loses a
-- program by that: it accepts what the ambiguous grammar derives, and no more.
theorem accepts_exactly_language (tokens : List Token) :
    Accepts tokens ↔ Language.Program (content tokens) :=
  accepts_read.trans Language.read_exact

end KaleidoscopeFrontEnd

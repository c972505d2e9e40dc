import KaleidoscopeFrontEnd.Proofs.Completeness
import KaleidoscopeFrontEnd.Proofs.Soundness

namespace KaleidoscopeFrontEnd

-- The documented grammar as a set of token lists. It has no trees and no reading order, and the
-- items of a program need nothing between them.
namespace Language

def Binary (t : Token) : Prop :=
  t.kind = .operator ∧ ∃ symbol ∈ ["<","+","-","*"], t.value = some (.text symbol)

def Terminator (t : Token) : Prop := t.kind = .operator ∧ t.value = some (.text ";")

instance : Decidable (Terminator t) := inferInstanceAs (Decidable (_ ∧ _))

mutual

inductive Primary : List Token → Prop where
  | number (t : Token) (kind : t.kind = .number) : Primary [t]
  | name (t : Token) (kind : t.kind = .identifier) : Primary [t]
  | group (o c : Token) (opening : o.kind = .openParen) (inside : Expression w)
      (closing : c.kind = .closeParen) : Primary (o :: w ++ [c])
  | bareCall (n o c : Token) (named : n.kind = .identifier) (opening : o.kind = .openParen)
      (closing : c.kind = .closeParen) : Primary [n,o,c]
  | call (n o c : Token) (named : n.kind = .identifier) (opening : o.kind = .openParen)
      (inside : Arguments w) (closing : c.kind = .closeParen) : Primary (n :: o :: w ++ [c])

inductive Expression : List Token → Prop where
  | single (operand : Primary w) : Expression w
  | add (before : Expression w) (t : Token) (binary : Binary t) (operand : Primary v) : Expression (w ++ t :: v)

inductive Arguments : List Token → Prop where
  | single (argument : Expression w) : Arguments w
  | add (before : Arguments w) (t : Token) (comma : t.kind = .comma) (argument : Expression v) :
      Arguments (w ++ t :: v)

end

inductive Prototype : List Token → Prop where
  | mk (n o c : Token) (named : n.kind = .identifier) (opening : o.kind = .openParen)
      (parameters : ∀ p ∈ w, p.kind = .identifier) (closing : c.kind = .closeParen) :
      Prototype (n :: o :: w ++ [c])

inductive Top : List Token → Prop where
  | definition (k : Token) (keyword : k.kind = .definition) (heading : Prototype w) (body : Expression v) :
      Top (k :: w ++ v)
  | external (k : Token) (keyword : k.kind = .external) (heading : Prototype w) : Top (k :: w)
  | expression (body : Expression w) : Top w

inductive Program : List Token → Prop where
  | nil : Program []
  | terminator (t : Token) (terminator : Terminator t) (later : Program w) : Program (t :: w)
  | top (item : Top v) (later : Program w) : Program (v ++ w)

theorem binary_exact : Binary t ↔ ∃ o, t.binaryOperator? = some o := by
  constructor
  · rintro ⟨kind,symbol,listed,value⟩
    have named : ∃ o : BinaryOperator, symbol = o.symbol := by
      simp only [List.mem_cons,List.not_mem_nil,or_false] at listed
      rcases listed with rfl | rfl | rfl | rfl
      · exact ⟨.less,rfl⟩
      · exact ⟨.plus,rfl⟩
      · exact ⟨.minus,rfl⟩
      · exact ⟨.times,rfl⟩
    obtain ⟨o,rfl⟩ := named
    exact ⟨o,Token.binary_operator_exact.mpr ⟨kind,value⟩⟩
  · rintro ⟨o,binary⟩
    obtain ⟨kind,value⟩ := Token.binary_operator_exact.mp binary
    exact ⟨kind,o.symbol,by cases o <;> decide,value⟩

theorem terminator_exact : Terminator t ↔ t.isTerminator = true := by
  constructor
  · rintro ⟨kind,value⟩
    simp only [Token.isTerminator,Token.isOperator,kind,value]
    rfl
  · exact Token.terminator_parts

mutual

theorem primary_derives : Primary w → ∃ e, Derivation.Operand w e
  | .number t kind => ⟨_,.number t kind⟩
  | .name t kind => ⟨_,.reference t kind⟩
  | .group o c opening inside closing => by
      obtain ⟨r,run⟩ := expression_derives inside
      exact ⟨_,.group o c opening run closing⟩
  | .bareCall n o c named opening closing => ⟨_,.bareCall n o c named opening closing⟩
  | .call n o c named opening inside closing => by
      obtain ⟨es,arguments⟩ := arguments_derives inside
      exact ⟨_,.call n o c named opening arguments closing⟩

theorem expression_derives : Expression w → ∃ r, Derivation.Run w r
  | .single operand => by
      obtain ⟨e,operand⟩ := primary_derives operand
      exact ⟨_,.single operand⟩
  | .add before t binary operand => by
      obtain ⟨r,run⟩ := expression_derives before
      obtain ⟨e,operand⟩ := primary_derives operand
      obtain ⟨o,binary⟩ := binary_exact.mp binary
      exact ⟨_,.add run t binary operand⟩

theorem arguments_derives : Arguments w → ∃ es, Derivation.Arguments w es
  | .single argument => by
      obtain ⟨r,run⟩ := expression_derives argument
      exact ⟨_,.single run⟩
  | .add before t comma argument => by
      obtain ⟨es,arguments⟩ := arguments_derives before
      obtain ⟨r,run⟩ := expression_derives argument
      exact ⟨_,.add arguments t comma run⟩

end

theorem prototype_derives (heading : Prototype w) : ∃ p, Derivation.Heading w p := by
  obtain ⟨n,o,c,named,opening,parameters,closing⟩ := heading
  exact ⟨_,.mk n o c named opening parameters closing⟩

theorem top_derives (item : Top w) : ∃ i, Derivation.TopItem w i := by
  cases item with
  | definition k keyword heading body =>
      obtain ⟨p,heading⟩ := prototype_derives heading
      obtain ⟨r,run⟩ := expression_derives body
      exact ⟨_,.definition k keyword heading run⟩
  | external k keyword heading =>
      obtain ⟨p,heading⟩ := prototype_derives heading
      exact ⟨_,.external k keyword heading⟩
  | expression body =>
      obtain ⟨r,run⟩ := expression_derives body
      cases w with
      | nil => exact absurd rfl run.nonempty
      | cons t w => exact ⟨_,.expression t run⟩

mutual

theorem of_operand : Derivation.Operand w e → Primary w
  | .number t kind => .number t kind
  | .reference t kind => .name t kind
  | .group o c opening inside closing => .group o c opening (of_run inside) closing
  | .bareCall n o c named opening closing => .bareCall n o c named opening closing
  | .call n o c named opening inside closing => .call n o c named opening (of_arguments inside) closing

theorem of_run : Derivation.Run w r → Expression w
  | .single operand => .single (of_operand operand)
  | .add before t binary operand => .add (of_run before) t (binary_exact.mpr ⟨_,binary⟩) (of_operand operand)

theorem of_arguments : Derivation.Arguments w es → Arguments w
  | .single argument => .single (of_run argument)
  | .add before t comma argument => .add (of_arguments before) t comma (of_run argument)

end

theorem of_heading (heading : Derivation.Heading w p) : Prototype w := by
  obtain ⟨n,o,c,named,opening,parameters,closing⟩ := heading
  exact .mk n o c named opening parameters closing

theorem of_top_item (item : Derivation.TopItem w i) : Top w := by
  cases item with
  | definition k keyword heading body => exact .definition k keyword (of_heading heading) (of_run body)
  | external k keyword heading => exact .external k keyword (of_heading heading)
  | expression t body => exact .expression (of_run body)

theorem Program.append (first : Program w) (second : Program v) : Program (w ++ v) := by
  induction first with
  | nil => exact second
  | terminator t terminator _ ih => exact .terminator t terminator ih
  | top item _ ih => rw [List.append_assoc]; exact .top item ih

theorem of_items (items : Derivation.Items w is) : Program w := by
  induction items with
  | nil => exact .nil
  | terminator _ t terminator ih => exact ih.append (.terminator t (terminator_exact.mpr terminator) .nil)
  | @item w is v i _ next ih =>
      have last : Program (v ++ []) := .top (of_top_item next) .nil
      rw [List.append_nil] at last
      exact ih.append last

end Language

end KaleidoscopeFrontEnd

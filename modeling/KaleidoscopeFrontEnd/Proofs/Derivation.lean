import KaleidoscopeFrontEnd.Grammar.Program

namespace KaleidoscopeFrontEnd

namespace Token

def ofKind (kind : TokenKind) (lexeme : String) : Token := ⟨kind,lexeme,none,none⟩

def ofName (name : String) : Token := ⟨.identifier,name,some (.text name),none⟩

def ofSymbol (symbol : String) : Token := ⟨.operator,symbol,some (.text symbol),none⟩

def zero : Token := ⟨.number,"0",some (.number .zero),none⟩

def opening : Token := ofKind .openParen "("

def closing : Token := ofKind .closeParen ")"

theorem of_symbol_exact : BinaryOperator.ofSymbol? symbol = some o ↔ symbol = o.symbol := by
  constructor
  · intro found
    unfold BinaryOperator.ofSymbol? at found
    have matched := List.find?_some found
    exact (beq_iff_eq.mp matched).symm
  · rintro rfl
    cases o <;> decide

theorem binary_operator_exact {t : Token} :
    t.binaryOperator? = some o ↔ t.kind = .operator ∧ t.value = some (.text o.symbol) := by
  constructor
  · intro binary
    unfold binaryOperator? at binary
    split at binary
    · rename_i symbol kind value
      exact ⟨kind,of_symbol_exact.mp binary ▸ value⟩
    · cases binary
  · rintro ⟨kind,value⟩
    unfold binaryOperator?
    rw [kind,value]
    exact of_symbol_exact.mpr rfl

theorem binary_operator_kind {t : Token} (binary : t.binaryOperator? = some o) : t.kind = .operator :=
  (binary_operator_exact.mp binary).1

theorem not_binary {t : Token} (known : t.kind = k) (other : k ≠ .operator) : t.binaryOperator? = none := by
  cases binary : t.binaryOperator? with
  | none => rfl
  | some o => exact absurd (known.symm.trans (binary_operator_kind binary)) other

theorem terminator_parts {t : Token} (terminator : t.isTerminator = true) :
    t.kind = .operator ∧ t.value = some (.text ";") := by
  unfold isTerminator isOperator at terminator
  rw [Bool.and_eq_true,decide_eq_true_eq] at terminator
  refine ⟨terminator.1,?_⟩
  cases value : t.value with
  | none => rw [value] at terminator; exact absurd terminator.2 Bool.false_ne_true
  | some v =>
      rw [value] at terminator
      cases v with
      | text s => exact congrArg (some ∘ TokenValue.text) (of_decide_eq_true terminator.2)
      | number x => exact absurd terminator.2 Bool.false_ne_true

theorem terminator_not_binary {t : Token} (terminator : t.isTerminator = true) :
    t.binaryOperator? = none := by
  obtain ⟨kind,value⟩ := terminator_parts terminator
  unfold binaryOperator?
  rw [kind,value]
  rfl

end Token

-- There is no reading order, no lookahead and no bracket stack here, and a word may have several derivations.
namespace Derivation

mutual

inductive Operand : List Token → Expr → Prop where
  | number (t : Token) (kind : t.kind = .number) : Operand [t] (Primary.numberOf t)
  | reference (t : Token) (kind : t.kind = .identifier) : Operand [t] (Primary.referenceTo t)
  | group (o c : Token) (opening : o.kind = .openParen) (inside : Run w r) (closing : c.kind = .closeParen) :
      Operand (o :: w ++ [c]) r.expr
  | bareCall (n o c : Token) (named : n.kind = .identifier) (opening : o.kind = .openParen)
      (closing : c.kind = .closeParen) : Operand [n,o,c] (Primary.callOf n c [])
  | call (n o c : Token) (named : n.kind = .identifier) (opening : o.kind = .openParen)
      (inside : Arguments w es) (closing : c.kind = .closeParen) : Operand (n :: o :: w ++ [c]) (Primary.callOf n c es)

inductive Run : List Token → OperandRun Expr → Prop where
  | single (operand : Operand w e) : Run w (.single e)
  | add (before : Run w r) (t : Token) (binary : t.binaryOperator? = some o) (operand : Operand v e) :
      Run (w ++ t :: v) (r.add o e)

inductive Arguments : List Token → List Expr → Prop where
  | single (argument : Run w r) : Arguments w [r.expr]
  | add (before : Arguments w es) (t : Token) (comma : t.kind = .comma) (argument : Run v r) :
      Arguments (w ++ t :: v) (es ++ [r.expr])

end

inductive Heading : List Token → Prototype → Prop where
  | mk (n o c : Token) (named : n.kind = .identifier) (opening : o.kind = .openParen)
      (parameters : ∀ p ∈ w, p.kind = .identifier) (closing : c.kind = .closeParen) :
      Heading (n :: o :: w ++ [c]) (Header.close n c (w.map Token.word))

inductive TopItem : List Token → Item → Prop where
  | definition (k : Token) (keyword : k.kind = .definition) (heading : Heading w p) (body : Run v r) :
      TopItem (k :: w ++ v) (TopLevel.definition k ((w ++ v).getLastD k) p r.expr)
  | external (k : Token) (keyword : k.kind = .external) (heading : Heading w p) :
      TopItem (k :: w) (TopLevel.external k (w.getLastD k) p)
  | expression (t : Token) (body : Run (t :: w) r) :
      TopItem (t :: w) (.ofExpr r.expr (t.spanTo (w.getLastD t)))

-- Nothing has to stand between two items, so `a (b)` is a program in two ways.
inductive Items : List Token → List Item → Prop where
  | nil : Items [] []
  | terminator (before : Items w is) (t : Token) (terminator : t.isTerminator = true) : Items (w ++ [t]) is
  | item (before : Items w is) (next : TopItem v i) : Items (w ++ v) (is ++ [i])

mutual

theorem Operand.nonempty : Operand w e → w ≠ []
  | .number .. | .reference .. | .group .. | .bareCall .. | .call .. => by simp

theorem Run.nonempty : Run w r → w ≠ []
  | .single operand => operand.nonempty
  | .add .. => by simp

theorem Arguments.nonempty : Arguments w es → w ≠ []
  | .single argument => argument.nonempty
  | .add .. => by simp

end

theorem Run.append (first : Run w r) (t : Token) (binary : t.binaryOperator? = some o) :
    Run v r' → Run (w ++ t :: v) ⟨r.first,r.others ++ (o,r'.first) :: r'.others⟩
  | .single operand => .add first t binary operand
  | .add before u more operand => by
      have grown := Run.add (first.append t binary before) u more operand
      simpa [OperandRun.add] using grown

end Derivation

end KaleidoscopeFrontEnd

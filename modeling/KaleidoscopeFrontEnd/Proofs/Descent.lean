import KaleidoscopeFrontEnd.Proofs.Recursion
import KaleidoscopeFrontEnd.Proofs.Regrouping
import KaleidoscopeFrontEnd.Proofs.StreamCalls

namespace KaleidoscopeFrontEnd

variable {ε α β : Type}

-- The grammar by recursive procedures on a token stream. Nothing in them says that they ever return, so the depth to
-- which they may call is bounded: behind it there is no outcome. Loops call themselves.
namespace Descent

open TokenStream

abbrev Outcome (ε α : Type) := Option (Except ε α × TokenStream)

def andThen (first : Outcome ε α) (after : α → TokenStream → Outcome ε β) : Outcome ε β :=
  match first with
  | none => none
  | some (.error fault,s) => some (.error fault,s)
  | some (.ok a,s) => after a s

def number (s : TokenStream) : Outcome SyntaxFault Expr :=
  andThen (some (s.expect .number .number)) fun t s => some (.ok (.number t.amount (t.spanTo s.previous)),s)

mutual

def expression : Nat → TokenStream → Outcome SyntaxFault Expr
  | 0, _ => none
  | n + 1, s => andThen (primary n s) (binary n 0)

def primary : Nat → TokenStream → Outcome SyntaxFault Expr
  | 0, _ => none
  | n + 1, s =>
      match s.peek.kind with
      | .number => number s
      | .openParen => group n s
      | .identifier => name n s
      | .endOfInput => some (.error (.incomplete .expression s.peek),s)
      | _ => some (.error (.notExpression s.peek),s)

def group : Nat → TokenStream → Outcome SyntaxFault Expr
  | 0, _ => none
  | n + 1, s =>
      andThen (some (s.expect .openParen .openParen)) fun _ s =>
        andThen (expression n s) fun e s =>
          andThen (some (s.expect .closeParen .groupClosing)) fun _ s => some (.ok e,s)

def name : Nat → TokenStream → Outcome SyntaxFault Expr
  | 0, _ => none
  | n + 1, s =>
      andThen (some (s.expect .identifier .identifier)) fun t s =>
        if s.check .openParen then
          andThen (arguments n s) fun es s => some (.ok (.call t.word es (t.spanTo s.previous)),s)
        else some (.ok (.reference t.word (t.spanTo s.previous)),s)

def arguments : Nat → TokenStream → Outcome SyntaxFault (List Expr)
  | 0, _ => none
  | n + 1, s =>
      andThen (some (s.expect .openParen .argumentsOpening)) fun _ s =>
        if s.check .closeParen then andThen (some s.advance) fun _ s => some (.ok [],s) else moreArguments n [] s

def moreArguments : Nat → List Expr → TokenStream → Outcome SyntaxFault (List Expr)
  | 0, _, _ => none
  | n + 1, read, s =>
      andThen (expression n s) fun e s =>
        match s.peek.kind with
        | .comma => andThen (some s.advance) fun _ s => moreArguments n (read ++ [e]) s
        | .closeParen => andThen (some s.advance) fun _ s => some (.ok (read ++ [e]),s)
        | .endOfInput => some (.error (.incomplete .argumentsContinuation s.peek),s)
        | _ => some (.error (.unexpected .argumentsContinuation s.peek),s)

def operand : Nat → BinaryOperator → TokenStream → Outcome SyntaxFault Expr
  | 0, _, _ => none
  | n + 1, o, s =>
      andThen (some s.advance) fun _ s =>
        andThen (primary n s) fun right s =>
          if o.precedence < s.precedence then binary n (o.precedence + 1) right s else some (.ok right,s)

def binary : Nat → Int → Expr → TokenStream → Outcome SyntaxFault Expr
  | 0, _, _, _ => none
  | n + 1, least, left, s =>
      match s.operator? with
      | none => some (.ok left,s)
      | some o =>
          if o.precedence < least then some (.ok left,s)
          else andThen (operand n o s) fun right s =>
            binary n least (.binary left o right (Span.join left.span right.span)) s

end

def reported (outcome : Outcome SyntaxFault α) : Outcome OperandFault α :=
  outcome.map fun reached => (reached.1.mapError .reading,reached.2)

-- Behind a node supplied from outside, which need not have a place for a span.
def binaryNode : Nat → Int → Node → TokenStream → Outcome OperandFault Node
  | 0, _, _, _ => none
  | n + 1, least, left, s =>
      match s.operator? with
      | none => some (.ok left,s)
      | some o =>
          if o.precedence < least then some (.ok left,s)
          else andThen (reported (operand n o s)) fun right s =>
            if left.hasSpan then
              binaryNode n least (.binary left o.symbol right.toNode (Span.join left.span right.toNode.span)) s
            else some (.error (.node (.lacking left.kind "span")),s)

def parameters : Nat → Token → List String → TokenStream → Outcome SyntaxFault Prototype
  | 0, _, _, _ => none
  | n + 1, name, read, s =>
      match s.peek.kind with
      | .identifier => andThen (some s.advance) fun t s => parameters n name (read ++ [t.word]) s
      | .closeParen => andThen (some s.advance) fun _ s => some (.ok ⟨name.word,read,name.spanTo s.previous⟩,s)
      | .comma => some (.error (.commaInParameters s.peek),s)
      | .endOfInput => some (.error (.incomplete .parameter s.peek),s)
      | _ => some (.error (.unexpected .parameter s.peek),s)

def header (n : Nat) (s : TokenStream) : Outcome SyntaxFault Prototype :=
  andThen (some (s.expect .identifier .functionName)) fun name s =>
    andThen (some (s.expect .openParen .parametersOpening)) fun _ s => parameters n name [] s

def definition (n : Nat) (s : TokenStream) : Outcome SyntaxFault Item :=
  andThen (some (s.expect .definition .definitionKeyword)) fun keyword s =>
    andThen (header n s) fun prototype s =>
      andThen (expression n s) fun body s => some (.ok ⟨prototype,some body,keyword.spanTo s.previous⟩,s)

def external (n : Nat) (s : TokenStream) : Outcome SyntaxFault Item :=
  andThen (some (s.expect .external .externalKeyword)) fun keyword s =>
    andThen (header n s) fun prototype s => some (.ok ⟨prototype,none,keyword.spanTo s.previous⟩,s)

def bareExpression (n : Nat) (s : TokenStream) : Outcome SyntaxFault Item :=
  andThen (expression n s) fun body after => some (.ok (.ofExpr body (s.peek.spanTo after.previous)),after)

def item (n : Nat) (s : TokenStream) : Outcome SyntaxFault Item :=
  match s.peek.kind with
  | .definition => definition n s
  | .external => external n s
  | .endOfInput => some (.error (.incomplete .item s.peek),s)
  | _ => bareExpression n s

def program : Nat → List Item → TokenStream → Outcome SyntaxFault (List Item)
  | 0, _, _ => none
  | n + 1, items, s =>
      if s.peek.isTerminator then andThen (some s.advance) fun _ s => program n items s
      else if s.isAtEnd then some (.ok items,s)
      else andThen (item n s) fun i s => program n (items ++ [i]) s

def answered (value : α → Value) (outcome : Outcome SyntaxFault α) : Option (Answer × TokenStream) :=
  outcome.map (TokenStream.answered value)

def call (n : Nat) (s : TokenStream) : Call → Option (Answer × TokenStream)
  | .item => answered .item (item n s)
  | .definition => answered .item (definition n s)
  | .external => answered .item (external n s)
  | .bareExpression => answered .item (bareExpression n s)
  | .program => answered .items (program n [] s)
  | .header => answered .header (header n s)
  | .expression => answered .expr (expression n s)
  | .primary => answered .expr (primary n s)
  | .number => answered .expr (number s)
  | .group => answered .expr (group n s)
  | .name => answered .expr (name n s)
  | .arguments => answered .exprs (arguments n s)
  | .operands least left => (binaryNode n least left s).map fun outcome => (outcome.1.map .node,outcome.2)
  | other => some (s.call other)

end Descent

end KaleidoscopeFrontEnd

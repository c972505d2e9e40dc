import KaleidoscopeFrontEnd.Diagnostic
import KaleidoscopeFrontEnd.Token

namespace KaleidoscopeFrontEnd

inductive Expectation where
  | definitionKeyword
  | externalKeyword
  | functionName
  | parametersOpening
  | parameter
  | expression
  | number
  | openParen
  | groupClosing
  | identifier
  | argumentsOpening
  | argumentsContinuation
  | item
  | moreInput
  | other (text : String)
  deriving DecidableEq

def Expectation.text : Expectation → String
  | .definitionKeyword => "'def'"
  | .externalKeyword => "'extern'"
  | .functionName => "function name in prototype"
  | .parametersOpening => "'(' in prototype"
  | .parameter => "parameter name or ')'"
  | .expression => "expression"
  | .number => "number"
  | .openParen => "'('"
  | .groupClosing => "')' after expression"
  | .identifier => "identifier"
  | .argumentsOpening => "'(' before call arguments"
  | .argumentsContinuation => "',' or ')' in argument list"
  | .item => "'def', 'extern' or an expression"
  | .moreInput => "more input"
  | .other text => text

-- Lexing has one way to fail: a run of digits and points that is no number.
structure LexicalFault where
  lexeme : String
  location : Option Location
  deriving DecidableEq

namespace LexicalFault

def help (lexeme : List Char) : Option String :=
  if 1 < lexeme.count '.' then some "A number may contain at most one decimal point."
  else if lexeme.any (fun c => 128 ≤ c.toNat) then
    some "Numbers are written with the ASCII digits 0-9."
  else none

def diagnostic (f : LexicalFault) : Diagnostic where
  message := "Could not parse number literal '" ++ f.lexeme ++ "'"
  location := f.location
  severity := "error"
  code := some "L003"
  help := help f.lexeme.toList
  suggestions := some ["Separate adjacent numbers with whitespace or an operator"]

end LexicalFault

-- A malformed program is refused at a token. An incomplete one runs out of tokens; the token found is the end itself.
inductive SyntaxFault where
  | unexpected (expected : Expectation) (found : Token)
  | notExpression (found : Token)
  | commaInParameters (found : Token)
  | incomplete (expected : Expectation) (found : Token)
  deriving DecidableEq

namespace SyntaxFault

def found : SyntaxFault → Token
  | .unexpected _ t => t
  | .notExpression t => t
  | .commaInParameters t => t
  | .incomplete _ t => t

def isIncomplete : SyntaxFault → Bool
  | .incomplete .. => true
  | _ => false

def binarySymbols : List Char := ['<','+','-','*']

def occursIn (piece : List Char) : List Char → Bool
  | [] => piece.isEmpty
  | c :: later => piece.isPrefixOf (c :: later) || occursIn piece later

-- Any piece of the list of binary symbols counts as binary here, so the empty symbol and "+-" bring no suggestion.
def suggestsOperators (t : Token) : Bool :=
  decide (t.kind = .operator) && !(occursIn t.word.toList binarySymbols)

def message : SyntaxFault → String
  | .unexpected expected t => "Expected " ++ expected.text ++ ", found " ++ t.describe
  | .notExpression t => "Expected expression, found " ++ t.describe
  | .commaInParameters _ => "Unexpected ',' in parameter list"
  | .incomplete expected _ => "Unexpected end of input, expected " ++ expected.text

def code : SyntaxFault → String
  | .unexpected .. => "P001"
  | .notExpression _ => "P005"
  | .commaInParameters _ => "P008"
  | .incomplete .. => "P010"

def help : SyntaxFault → Option String
  | .unexpected .. => none
  | .notExpression _ => some "An expression starts with a number, an identifier or '('."
  | .commaInParameters _ =>
      some "Prototype parameters are separated by whitespace, not commas."
  | .incomplete expected _ =>
      some ("The input ended while the parser still expected " ++ expected.text ++ ".")

def suggestions : SyntaxFault → Option (List String)
  | .unexpected _ t =>
      if suggestsOperators t then some ["Only '<', '+', '-' and '*' are binary operators"] else none
  | .notExpression _ => none
  | .commaInParameters _ => some ["Write 'def f(a b)' instead of 'def f(a, b)'"]
  | .incomplete .. => some ["Check for an incomplete statement or a missing ')'"]

def diagnostic (f : SyntaxFault) : Diagnostic where
  message := f.message
  location := f.found.location
  severity := "error"
  code := some f.code
  help := f.help
  suggestions := f.suggestions

end SyntaxFault

inductive Fault where
  | lexical (fault : LexicalFault)
  | syntactic (fault : SyntaxFault)
  deriving DecidableEq

def Fault.diagnostic : Fault → Diagnostic
  | .lexical f => f.diagnostic
  | .syntactic f => f.diagnostic

end KaleidoscopeFrontEnd

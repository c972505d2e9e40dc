import KaleidoscopeFrontEnd.Tree.Expr

namespace KaleidoscopeFrontEnd

structure Prototype where
  name : String
  parameters : List String
  span : Option Span

-- A bare expression is the body of a function without parameters under a name that a program may also use itself.
structure Item where
  prototype : Prototype
  body : Option Expr
  span : Option Span

namespace Item

def anonymousName : String := "anonymous"

def ofExpr (body : Expr) (span : Option Span) : Item :=
  ⟨⟨anonymousName,[],body.span⟩,some body,span⟩

def name (i : Item) : String := i.prototype.name

def isExternal (i : Item) : Bool := i.body.isNone

def isAnonymous (i : Item) : Bool := decide (i.name = anonymousName)

end Item

end KaleidoscopeFrontEnd

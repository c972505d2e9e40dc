import KaleidoscopeFrontEnd.Proofs.Spans

namespace KaleidoscopeFrontEnd.Node

def faultOf : Except NodeFault α → Option NodeFault
  | .ok _ => none
  | .error fault => some fault

-- The fault of an earlier part hides those behind it. Whether a later part fails does not depend on the earlier text.
theorem fault_bind {first : Except NodeFault α} {next : α → Except NodeFault β} (later : ∀ text, faultOf (next text) = behind) :
    faultOf (first >>= next) = (faultOf first).or behind := by
  cases first with
  | error fault => rfl
  | ok text => exact later text

theorem fault_last {first : Except NodeFault α} {next : α → Except NodeFault β} (fine : ∀ text, faultOf (next text) = none) :
    faultOf (first >>= next) = faultOf first := by
  rw [fault_bind fine,Option.or_none]

-- A gap has no fields, and neither has a foreign node, whatever name its class goes by.
def isBare : Node → Bool
  | .foreign _ | .absent => true
  | _ => false

def firstFault (ns : List Node) : Option NodeFault := (ns.find? isBare).map fun n => bareFault n.kind

theorem first_fault_append (ns more : List Node) : firstFault (ns ++ more) = (firstFault ns).or (firstFault more) := by
  rw [firstFault,List.find?_append,Option.map_or]
  rfl

theorem first_fault_behind {n : Node} (filled : n.isBare = false) (later : List Node) :
    firstFault (n :: later) = firstFault later := by
  rw [firstFault,List.find?_cons_of_neg (by simp [filled])]
  rfl

mutual

theorem sexpr_fault : ∀ n : Node, faultOf n.sexpr = firstFault n.walk
  | .number _ _ | .reference _ _ | .header _ _ _ => rfl
  | .foreign _ | .absent => rfl
  | .binary left operator right s => by
      have parts : faultOf (sexpr (.binary left operator right s)) = (faultOf left.sexpr).or (faultOf right.sexpr) := by
        rw [sexpr]
        exact fault_bind fun l => fault_last fun r => rfl
      rw [parts,sexpr_fault left,sexpr_fault right,← first_fault_append,walk,first_fault_behind rfl]
  | .call callee arguments s => by
      have parts : faultOf (sexpr (.call callee arguments s)) = faultOf (sexprs arguments) := by
        rw [sexpr]
        exact fault_last fun texts => rfl
      rw [parts,sexprs_fault arguments,walk,first_fault_behind rfl]
  | .item heading body s => by
      rw [sexpr,walk,first_fault_behind rfl,first_fault_append,← sexpr_fault heading]
      refine fault_bind fun h => ?_
      split
      · rfl
      · rw [fault_last fun b => rfl,sexpr_fault body]

theorem sexprs_fault : ∀ ns : List Node, faultOf (sexprs ns) = firstFault (walkAll ns)
  | [] => rfl
  | n :: later => by
      rw [sexprs,walkAll,first_fault_append,← sexpr_fault n,← sexprs_fault later]
      exact fault_bind fun text => fault_last fun texts => rfl

end

-- The printer as a visitor: a method for each known class, found by its name, that reads the fields of its node.
def printNumber : Node → Except NodeFault String
  | .number x _ => .ok (Form.number x)
  | n => .error (.lacking n.kind "value")

def printVariable : Node → Except NodeFault String
  | .reference name _ => .ok name
  | n => .error (.lacking n.kind "name")

def printBinary : Node → Except NodeFault String
  | .binary left operator right _ => do return Form.binary operator (← left.sexpr) (← right.sexpr)
  | n => .error (.lacking n.kind "operator")

def printCall : Node → Except NodeFault String
  | .call callee arguments _ => do return Form.call callee (← sexprs arguments)
  | n => .error (.lacking n.kind "callee")

def printHeader : Node → Except NodeFault String
  | .header name parameters _ => .ok (Form.header name parameters)
  | n => .error (.lacking n.kind "name")

def printItem : Node → Except NodeFault String
  | .item heading body _ =>
      if body.isAbsent then do return Form.external (← heading.sexpr)
      else do return Form.definition (← heading.sexpr) (← body.sexpr)
  | n => .error (.lacking n.kind "is_extern")

def methods : List (String × (Node → Except NodeFault String)) :=
  [("Number",printNumber),("Variable",printVariable),("BinaryOp",printBinary),("Call",printCall),("Prototype",printHeader),
    ("FunctionDef",printItem)]

def printGeneric (n : Node) : Except NodeFault String := .error (.unprintable n.kind)

def printed (n : Node) : Except NodeFault String := (methods.lookup n.kind).getD printGeneric n

example : (sexpr (.call "f" [.foreign "Number"] none)).mapError NodeFault.message =
    .error "'Number' object has no attribute 'value'" := by decide

end KaleidoscopeFrontEnd.Node

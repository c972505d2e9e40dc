import KaleidoscopeFrontEnd.Proofs.Refusals

namespace KaleidoscopeFrontEnd

-- The characters at which a text falls into lines, by code point. Positions count the first alone.
def lineBreaks : List Nat := [0x0a,0x0b,0x0c,0x0d,0x1c,0x1d,0x1e,0x85,0x2028,0x2029]

def isLineBreak (c : Char) : Bool := lineBreaks.contains c.toNat

def linesFrom (line : List Char) : List Char → List (List Char)
  | [] => if line.isEmpty then [] else [line]
  | '\r' :: '\n' :: later => line :: linesFrom [] later
  | c :: later => if isLineBreak c then line :: linesFrom [] later else linesFrom (line ++ [c]) later

def textLines (text : String) : List String := (linesFrom [] text.toList).map String.ofList

def Unbroken (text : String) : Prop := ∀ c ∈ text.toList, isLineBreak c = false

instance (text : String) : Decidable (Unbroken text) :=
  decidable_of_iff (text.toList.any isLineBreak = false) (by simp [Unbroken])

theorem break_blank (ends : isLineBreak c = true) : isBlank c = true := by
  have all : ∀ point ∈ lineBreaks, within blankRanges point = true := by decide
  exact all c.toNat (List.contains_iff_mem.mp ends)

theorem Solid.unbroken (solid : Solid c) : isLineBreak c = false := by
  cases ends : isLineBreak c with
  | false => rfl
  | true => exact absurd (solid.1.symm.trans (break_blank ends)) Bool.false_ne_true

theorem Unbroken.append (first : Unbroken s) (second : Unbroken t) : Unbroken (s ++ t) := by
  intro c member
  rw [String.toList_append] at member
  exact (List.mem_append.mp member).elim (first c) (second c)

theorem unbroken_blank : Unbroken " " := by decide

theorem unbroken_intercalate (separator : Unbroken s) (all : ∀ part ∈ parts, Unbroken part) :
    Unbroken (s.intercalate parts) := by
  induction parts with
  | nil => intro c nothing; cases nothing
  | cons part later ih =>
      obtain ⟨first,others⟩ := List.forall_mem_cons.mp all
      cases later with
      | nil => rwa [String.intercalate_singleton]
      | cons next later =>
          rw [String.intercalate_cons_cons]
          exact (first.append separator).append (ih others)

theorem unbroken_natural (n : Nat) : Unbroken (toString n) := by
  intro c member
  have digit : isDecimalDigit c = true := decimal_digits n c (by simpa [decimalDigits] using member)
  exact (digit_solid digit).unbroken

theorem unbroken_integer (z : Int) : Unbroken (toString z) := by
  cases z with
  | ofNat n => exact unbroken_natural n
  | negSucc n =>
      have sign : Unbroken "-" := by decide
      exact sign.append (unbroken_natural (n + 1))

theorem lines_from_inner (inner : isLineBreak c = false) (line later : List Char) :
    linesFrom line (c :: later) = linesFrom (line ++ [c]) later := by
  rw [linesFrom.eq_def]
  split
  · rename_i empty; cases empty
  · rename_i same; cases same; cases inner
  · rename_i same; cases same; rw [inner]; rfl

theorem lines_from_unbroken (unbroken : ∀ c ∈ w, isLineBreak c = false) (line later : List Char) :
    linesFrom line (w ++ later) = linesFrom (line ++ w) later := by
  induction w generalizing line with
  | nil => rw [List.nil_append,List.append_nil]
  | cons c w ih =>
      obtain ⟨inner,others⟩ := List.forall_mem_cons.mp unbroken
      rw [List.cons_append,lines_from_inner inner,ih others,List.append_assoc,List.singleton_append]

theorem text_lines_single (unbroken : Unbroken text) (filled : text ≠ "") : textLines text = [text] := by
  have whole := lines_from_unbroken unbroken [] []
  rw [List.append_nil,List.nil_append,linesFrom] at whole
  have nonempty : text.toList.isEmpty = false := by simpa using filled
  rw [textLines,whole,nonempty]
  simp

theorem text_lines_behind (unbroken : Unbroken line) (later : String) :
    textLines (line ++ "\n" ++ later) = line :: textLines later := by
  have chars : (line ++ "\n" ++ later).toList = line.toList ++ '\n' :: later.toList := by simp
  have cut : linesFrom line.toList ('\n' :: later.toList) = line.toList :: linesFrom [] later.toList := rfl
  rw [textLines,chars,lines_from_unbroken unbroken,List.nil_append,cut,List.map_cons,String.ofList_toList]
  rfl

-- Lines put together with line feeds are told apart again, whatever stands in them besides breaks.
theorem text_lines_joined (unbroken : ∀ line ∈ lines, Unbroken line) (filled : "" ∉ lines) :
    textLines ("\n".intercalate lines) = lines := by
  induction lines with
  | nil => rfl
  | cons line later ih =>
      obtain ⟨first,others⟩ := List.forall_mem_cons.mp unbroken
      obtain ⟨nonempty,behind⟩ := not_or.mp (List.mem_cons.not.mp filled)
      cases later with
      | nil => rw [String.intercalate_singleton,text_lines_single first (Ne.symm nonempty)]
      | cons next later => rw [String.intercalate_cons_cons,text_lines_behind first,ih others behind]

-- What is printed of a tree stays in its line: names, numbers and symbols are made of characters that
-- are no blanks, and every break is one.

theorem Named.unbroken (named : Named name) : Unbroken name :=
  fun c member => (letter_solid (named.2 c member)).unbroken

theorem number_unbroken (finite : m ≠ .infinite) : Unbroken (Form.number (.signed false m)) := by
  obtain ⟨r,numeral,_⟩ := number_numeral_of finite
  intro c member
  rcases numeral.shape.2 c member with digit | mark
  · exact (digit_solid digit).unbroken
  · have marks : ['.','e','+','-'].any isLineBreak = false := by decide
    exact eq_false_of_ne_true (List.any_eq_false.mp marks c mark)

theorem Unbroken.enclosed (opening : Unbroken o) (inside : Unbroken s) : Unbroken (o ++ s ++ ")") := by
  have closing : Unbroken ")" := by decide
  exact (opening.append inside).append closing

theorem Printable.unbroken (printable : Printable e) : Unbroken e.sexpr := by
  induction printable with
  | number m finite => exact number_unbroken finite
  | reference named => exact named.unbroken
  | @binary l r o s left right leftIh rightIh =>
      have symbol : Unbroken ("(" ++ o.symbol) := by cases o <;> decide
      exact (((symbol.append unbroken_blank).append leftIh).append unbroken_blank).enclosed rightIh
  | @call callee es s named arguments ih =>
      have opening : Unbroken "(call " := by decide
      refine opening.enclosed (unbroken_intercalate unbroken_blank (List.forall_mem_cons.mpr ⟨named.unbroken,?_⟩))
      rw [Expr.sexprs_map,List.forall_mem_map]
      exact ih

theorem PrintableItem.unbroken (printable : PrintableItem i) : Unbroken (Session.itemLine i) := by
  have label : Unbroken "Parsed: " := by decide
  have between : Unbroken " (" := by decide
  have parameters := unbroken_intercalate unbroken_blank fun p member => (printable.parameters p member).unbroken
  have head : Unbroken i.prototype.sexpr := (printable.name.unbroken.append between).enclosed parameters
  refine label.append ?_
  unfold Item.sexpr
  cases body : i.body with
  | none =>
      have opening : Unbroken "(extern " := by decide
      exact opening.enclosed head
  | some e =>
      have opening : Unbroken "(def " := by decide
      exact ((opening.append head).append unbroken_blank).enclosed (printable.body e body).unbroken

theorem Lexeme.solid (lexeme : Lexeme w rest kind value) : ∀ c ∈ w, Solid c := by
  cases lexeme with
  | definition word | external word | identifier _ word => exact fun c member => letter_solid (word.inside c member)
  | number run => exact fun c member => literal_solid (run.inside c member)
  | opening | closing | comma => exact List.forall_mem_singleton.mpr ⟨by decide,by decide⟩
  | operator solid => exact List.forall_mem_singleton.mpr solid

theorem describe_unbroken {t : Token} (solid : ∀ c ∈ t.lexeme.toList, Solid c) : Unbroken t.describe := by
  have kind : Unbroken t.kind.description := by cases t.kind <;> decide
  unfold Token.describe
  split
  · have text : Unbroken t.lexeme := fun c member => (solid c member).unbroken
    have opening : Unbroken " '" := by decide
    have closing : Unbroken "'" := by decide
    exact ((kind.append opening).append text).append closing
  · exact kind

theorem Expectation.Native.unbroken {e : Expectation} (native : e.Native) : Unbroken e.text := by
  cases e with
  | other text => cases native
  | _ => decide +kernel

theorem LexicalFault.unbroken {fault : LexicalFault} (literal : ∀ c ∈ fault.lexeme.toList, Solid c) :
    Unbroken fault.diagnostic.message := by
  have text : Unbroken fault.lexeme := fun c member => (literal c member).unbroken
  have opening : Unbroken "Could not parse number literal '" := by decide +kernel
  have closing : Unbroken "'" := by decide
  exact (opening.append text).append closing

def SyntaxFault.Native : SyntaxFault → Prop
  | .unexpected expected _ => expected.Native
  | .incomplete expected _ => expected.Native
  | _ => True

theorem SyntaxFault.Native.unbroken {fault : SyntaxFault} (native : fault.Native)
    (solid : ∀ c ∈ fault.found.lexeme.toList, Solid c) : Unbroken fault.diagnostic.message := by
  have found := describe_unbroken solid
  cases fault with
  | unexpected expected t =>
      have label : Unbroken "Expected " := by decide
      have between : Unbroken ", found " := by decide
      exact ((label.append (Expectation.Native.unbroken native)).append between).append found
  | notExpression t =>
      have label : Unbroken "Expected expression, found " := by decide +kernel
      exact label.append found
  | commaInParameters t =>
      have text : Unbroken "Unexpected ',' in parameter list" := by decide +kernel
      exact text
  | incomplete expected t =>
      have label : Unbroken "Unexpected end of input, expected " := by decide +kernel
      exact label.append (Expectation.Native.unbroken native)

end KaleidoscopeFrontEnd

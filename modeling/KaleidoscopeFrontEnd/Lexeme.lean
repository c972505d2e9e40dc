import KaleidoscopeFrontEnd.Binary64.Reading
import KaleidoscopeFrontEnd.Text.Blank
import KaleidoscopeFrontEnd.Text.Letter
import KaleidoscopeFrontEnd.Text.Numeral
import KaleidoscopeFrontEnd.Token

namespace KaleidoscopeFrontEnd

def commentMark : Char := '#'

-- The flag says that a comment is open. The second part starts with a character that is no layout.
def splitLayout : Bool → List Char → List Char × List Char
  | _, [] => ([],[])
  | inComment, c :: later =>
      if inComment || isBlank c || c == commentMark then
        let rest := splitLayout (if inComment then c != '\n' else c == commentMark) later
        (c :: rest.1,rest.2)
      else ([],c :: later)

theorem split_layout_length (inComment : Bool) (text : List Char) :
    (splitLayout inComment text).2.length ≤ text.length := by
  induction text generalizing inComment with
  | nil => simp [splitLayout]
  | cons c later ih =>
      unfold splitLayout
      split
      · exact Nat.le_succ_of_le (ih _)
      · exact Nat.le_refl _

def isLiteralChar (c : Char) : Bool := isNumeral c || c == '.'

def prolongs (first c : Char) : Bool :=
  if isLetter first then isLetter c else isDecimalDigit first && isLiteralChar c

def keywords : List (String × TokenKind) := [("def",.definition),("extern",.external)]

def punctuation : List (Char × TokenKind) := [('(',.openParen),(')',.closeParen),(',',.comma)]

-- Digits of other scripts take part in the run but not in the number.
def isNumberLiteral (lexeme : List Char) : Bool :=
  lexeme.all (fun c => c.toNat < 128) && lexeme.count '.' ≤ 1

def classify (first : Char) (lexeme : List Char) : Option (TokenKind × Option TokenValue) :=
  let word := String.ofList lexeme
  match punctuation.lookup first with
  | some kind => some (kind,none)
  | none =>
      if isLetter first then
        match keywords.lookup word with
        | some kind => some (kind,none)
        | none => some (.identifier,some (.text word))
      else if isDecimalDigit first then
        if isNumberLiteral lexeme then some (.number,some (.number (.ofLiteral lexeme))) else none
      else some (.operator,some (.text word))

end KaleidoscopeFrontEnd

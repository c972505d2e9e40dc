import KaleidoscopeFrontEnd.Binary64.Rounding

namespace KaleidoscopeFrontEnd

def isDecimalDigit (c : Char) : Bool := '0' ≤ c && c ≤ '9'

def decimalValue (digits : List Char) : Nat :=
  digits.foldl (fun value c => 10 * value + (c.toNat - '0'.toNat)) 0

def Magnitude.ofPlaces (whole fraction : List Char) (exponent : Int) : Magnitude :=
  .ofDecimal (decimalValue (whole ++ fraction)) (exponent - fraction.length)

-- A literal has digits and at most one point, so there is always a value; only overflow makes it infinite.
def Binary64.ofLiteral (lexeme : List Char) : Binary64 :=
  .signed false (.ofPlaces (lexeme.takeWhile (· != '.')) ((lexeme.dropWhile (· != '.')).drop 1) 0)

def decimalExponent? : List Char → Option Int
  | [] => some 0
  | mark :: later =>
      if mark = 'e' ∨ mark = 'E' then
        let digits := match later with
          | '+' :: rest => rest
          | '-' :: rest => rest
          | rest => rest
        if digits ≠ [] ∧ digits.all isDecimalDigit then
          let amount : Int := decimalValue digits
          some (if later.head? = some '-' then -amount else amount)
        else none
      else none

def clampedExponent (places : Nat) (exponent : Int) : Int :=
  let bound : Int := 400 + places
  max (-bound) (min bound exponent)

def Magnitude.ofText? (text : List Char) : Option Magnitude :=
  let whole := text.takeWhile isDecimalDigit
  let later := text.dropWhile isDecimalDigit
  let fraction := match later with
    | '.' :: rest => rest.takeWhile isDecimalDigit
    | _ => []
  let tail := match later with
    | '.' :: rest => rest.dropWhile isDecimalDigit
    | rest => rest
  if whole = [] ∧ fraction = [] then none
  else (decimalExponent? tail).map fun exponent =>
    .ofPlaces whole fraction (clampedExponent (whole.length + fraction.length) exponent)

end KaleidoscopeFrontEnd

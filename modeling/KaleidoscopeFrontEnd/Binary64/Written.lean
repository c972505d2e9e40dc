import KaleidoscopeFrontEnd.Binary64.Shortest

namespace KaleidoscopeFrontEnd

-- The positional form serves decimal points from `pointAbove` (exclusive) to `pointUpTo`.
structure NumeralStyle where
  pointAbove : Int
  pointUpTo : Int
  exponentPlaces : Nat

def NumeralStyle.standard : NumeralStyle := ⟨-4,16,2⟩

def positional (digits : List Char) (point : Int) : List Char :=
  if point ≤ 0 then '0' :: '.' :: (List.replicate (-point).toNat '0' ++ digits)
  else if digits.length ≤ point.toNat then
    digits ++ List.replicate (point.toNat - digits.length) '0' ++ ['.','0']
  else digits.take point.toNat ++ '.' :: digits.drop point.toNat

def paddedExponent (places : Nat) (exponent : Int) : List Char :=
  let digits := decimalDigits exponent.natAbs
  (if exponent < 0 then '-' else '+') :: (List.replicate (places - digits.length) '0' ++ digits)

def scientific (style : NumeralStyle) (digits : List Char) (point : Int) : List Char :=
  digits.take 1 ++ (if digits.length ≤ 1 then [] else '.' :: digits.drop 1) ++
    'e' :: paddedExponent style.exponentPlaces (point - 1)

def decimalText (style : NumeralStyle) (decimal : Nat × Int) : List Char :=
  let all := decimalDigits decimal.1
  let digits := (all.reverse.dropWhile (· == '0')).reverse
  let point := decimal.2 + all.length
  if style.pointAbove < point ∧ point ≤ style.pointUpTo then positional digits point
  else scientific style digits point

def Magnitude.chars : Magnitude → List Char
  | .infinite => ['i','n','f']
  | .finite significand exponent _ =>
      if significand = 0 then ['0','.','0']
      else decimalText .standard (shortestDecimal significand exponent)

def Binary64.chars : Binary64 → List Char
  | .nan => ['n','a','n']
  | .signed negative magnitude => (if negative then ['-'] else []) ++ magnitude.chars

def Binary64.text (x : Binary64) : String := String.ofList x.chars

end KaleidoscopeFrontEnd

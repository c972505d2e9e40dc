import KaleidoscopeFrontEnd.Binary64.Rounding

namespace KaleidoscopeFrontEnd

def decimalDigits (n : Nat) : List Char := Nat.toDigits 10 n

def gridFraction (significand : Nat) (exponent : Int) : Nat × Nat :=
  overPower 2 (significand,1) (-exponent)

def decimalOrder (fraction : Nat × Nat) : Int :=
  let low : Int :=
    ((decimalDigits fraction.1).length : Int) - ((decimalDigits fraction.2).length : Int)
  let rest := overPower 10 fraction low
  if rest.2 ≤ rest.1 then low + 1 else low

def readsBackAt (goal : Magnitude) (fraction : Nat × Nat) (scale : Int) : Option Nat :=
  let rest := overPower 10 fraction scale
  let near := halfEven rest
  let far := if near = rest.1 / rest.2 then near + 1 else near - 1
  if Magnitude.ofDecimal near scale = goal then some near
  else if Magnitude.ofDecimal far scale = goal then some far
  else none

-- Seventeen digits always read back; the exact decimal expansion behind the search only makes it total.
def shortestDecimal (significand : Nat) (exponent : Int) : Nat × Int :=
  let fraction := gridFraction significand exponent
  let order := decimalOrder fraction
  let found := (List.range 17).findSome? fun (count : Nat) =>
    let scale := order - (count + 1)
    (readsBackAt (.ofParts significand exponent) fraction scale).map fun digits => (digits,scale)
  found.getD (if 0 ≤ exponent then (significand * Nat.pow 2 exponent.toNat,0)
    else (significand * Nat.pow 5 (-exponent).toNat,exponent))

end KaleidoscopeFrontEnd

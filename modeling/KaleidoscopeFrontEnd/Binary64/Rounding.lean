import KaleidoscopeFrontEnd.Binary64.Basic

namespace KaleidoscopeFrontEnd

-- Fractions are kept as numerator and denominator: nothing is lost before the one rounding at the end.
def overPower (base : Nat) (fraction : Nat × Nat) (exponent : Int) : Nat × Nat :=
  if 0 ≤ exponent then (fraction.1,fraction.2 * base.pow exponent.toNat)
  else (fraction.1 * base.pow (-exponent).toNat,fraction.2)

def halfEven (fraction : Nat × Nat) : Nat :=
  let floor := fraction.1 / fraction.2
  let twice := 2 * (fraction.1 % fraction.2)
  if twice < fraction.2 ∨ (twice = fraction.2 ∧ floor % 2 = 0) then floor else floor + 1

-- The lengths of the two parts leave two candidates for the highest power of two not above the fraction.
def binaryOrder (fraction : Nat × Nat) : Int :=
  let high : Int := (fraction.1.log2 : Int) - (fraction.2.log2 : Int)
  let rest := overPower 2 fraction high
  if rest.2 ≤ rest.1 then high else high - 1

def Magnitude.nearest (fraction : Nat × Nat) : Magnitude :=
  if fraction.1 = 0 then .zero
  else
    let exponent := max (binaryOrder fraction - 52) (-1074)
    let significand := halfEven (overPower 2 fraction exponent)
    if significand = Nat.pow 2 53 then .ofParts (Nat.pow 2 52) (exponent + 1) else .ofParts significand exponent

def Magnitude.ofDecimal (digits : Nat) (scale : Int) : Magnitude :=
  .nearest (overPower 10 (digits,1) (-scale))

end KaleidoscopeFrontEnd

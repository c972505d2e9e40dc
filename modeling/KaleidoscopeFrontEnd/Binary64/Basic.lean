namespace KaleidoscopeFrontEnd

-- One form for each point of the double precision grid; below the lowest normal number the spacing is fixed.
def Canonical (significand : Nat) (exponent : Int) : Prop :=
  significand < Nat.pow 2 53 ∧ -1074 ≤ exponent ∧ exponent ≤ 971 ∧
    (Nat.pow 2 52 ≤ significand ∨ exponent = -1074)

instance (significand : Nat) (exponent : Int) : Decidable (Canonical significand exponent) := by
  unfold Canonical; infer_instance

inductive Magnitude where
  | finite (significand : Nat) (exponent : Int) (canonical : Canonical significand exponent)
  | infinite
  deriving DecidableEq

namespace Magnitude

def zero : Magnitude := .finite 0 (-1074) (by decide)

def ofParts (significand : Nat) (exponent : Int) : Magnitude :=
  if h : Canonical significand exponent then .finite significand exponent h else .infinite

end Magnitude

inductive Binary64 where
  | nan
  | signed (negative : Bool) (magnitude : Magnitude)
  deriving DecidableEq

namespace Binary64

def zero : Binary64 := .signed false .zero

-- Numeric equality, not identity: a NaN equals nothing and the two zeros are equal.
def same : Binary64 → Binary64 → Bool
  | .signed a m, .signed b n => decide (m = n) && (decide (a = b) || decide (m = .zero))
  | _, _ => false

instance : BEq Binary64 := ⟨same⟩

end Binary64

end KaleidoscopeFrontEnd

import KaleidoscopeFrontEnd.Binary64.Rounding
import Mathlib.Algebra.Order.Floor.Semifield
import Mathlib.Data.Int.Log
import Mathlib.Data.Nat.Log
import Mathlib.Data.Rat.Floor
import Mathlib.Tactic.FieldSimp
import Mathlib.Tactic.Linarith
import Mathlib.Tactic.Positivity

namespace KaleidoscopeFrontEnd

def ratio (fraction : Nat × Nat) : ℚ := fraction.1 / fraction.2

theorem over_power_denominator (base : 0 < b) (denominator : 0 < f.2) (e : Int) : 0 < (overPower b f e).2 := by
  unfold overPower
  split
  · exact Nat.mul_pos denominator (Nat.pow_pos base)
  · exact denominator

theorem over_power_ratio (base : 0 < b) (f : Nat × Nat) (e : Int) : ratio (overPower b f e) = ratio f / (b : ℚ) ^ e := by
  have nonzero : (b : ℚ) ≠ 0 := Nat.cast_ne_zero.mpr base.ne'
  unfold overPower ratio
  split
  · rename_i positive
    obtain ⟨n,rfl⟩ := Int.eq_ofNat_of_zero_le positive
    simp [div_div]
  · rename_i negative
    obtain ⟨n,size⟩ := Int.eq_ofNat_of_zero_le (Int.neg_nonneg_of_nonpos (by omega : e ≤ 0))
    obtain rfl : e = -n := by omega
    simp [div_mul_eq_mul_div]

theorem ratio_floor (f : Nat × Nat) : ⌊ratio f⌋₊ = f.1 / f.2 := Nat.floor_div_eq_div f.1 f.2

theorem ratio_rest (denominator : 0 < f.2) : ratio f - ⌊ratio f⌋₊ = (f.1 % f.2 : Nat) / (f.2 : ℚ) := by
  have nonzero : (f.2 : ℚ) ≠ 0 := Nat.cast_ne_zero.mpr denominator.ne'
  have split : (f.1 : ℚ) = f.2 * (f.1 / f.2 : Nat) + (f.1 % f.2 : Nat) := by
    exact_mod_cast (Nat.div_add_mod f.1 f.2).symm
  rw [ratio_floor,eq_div_iff nonzero,sub_mul,ratio,div_mul_cancel₀ _ nonzero]
  linarith

def evenNearest (r : ℚ) : Nat :=
  if r - ⌊r⌋₊ < 1 / 2 ∨ (r - ⌊r⌋₊ = 1 / 2 ∧ ⌊r⌋₊ % 2 = 0) then ⌊r⌋₊ else ⌊r⌋₊ + 1

theorem half_even_exact (denominator : 0 < f.2) : halfEven f = evenNearest (ratio f) := by
  have positive : (0 : ℚ) < f.2 := Nat.cast_pos.mpr denominator
  have below : ((f.1 % f.2 : Nat) / (f.2 : ℚ) < 1 / 2) ↔ 2 * (f.1 % f.2) < f.2 := by
    rw [div_lt_div_iff₀ positive two_pos,one_mul,mul_comm]
    exact_mod_cast Iff.rfl
  have middle : ((f.1 % f.2 : Nat) / (f.2 : ℚ) = 1 / 2) ↔ 2 * (f.1 % f.2) = f.2 := by
    rw [div_eq_div_iff positive.ne' two_ne_zero,one_mul,mul_comm]
    exact_mod_cast Iff.rfl
  rw [evenNearest,ratio_rest denominator]
  simp only [halfEven,below,middle,ratio_floor]

theorem even_nearest_integer (n : Nat) : evenNearest n = n := by
  simp [evenNearest]

theorem even_nearest_half (small : evenNearest r ≠ 0) : 1 / 2 ≤ r := by
  by_contra less
  have floor : ⌊r⌋₊ = 0 := Nat.floor_eq_zero.mpr (by linarith)
  apply small
  simp only [evenNearest,floor,Nat.cast_zero,sub_zero]
  exact if_pos (.inl (not_le.mp less))

theorem log_between {b : Nat} (base : 1 < b) (low : (b : ℚ) ^ k ≤ r) (high : r < (b : ℚ) ^ (k + 1)) : Int.log b r = k := by
  have positive : 0 < r := lt_of_lt_of_le (zpow_pos (by positivity) k) low
  have above := (Int.zpow_le_iff_le_log base positive).mp low
  have below := (Int.lt_zpow_iff_log_lt base positive).mp high
  omega

theorem ratio_between (numerator : 0 < f.1) (denominator : 0 < f.2) :
    (2 : ℚ) ^ ((f.1.log2 : Int) - f.2.log2 - 1) ≤ ratio f ∧ ratio f < (2 : ℚ) ^ ((f.1.log2 : Int) - f.2.log2 + 1) := by
  have first : (2 : ℚ) ^ f.1.log2 ≤ f.1 := mod_cast Nat.log2_self_le numerator.ne'
  have firstNext : (f.1 : ℚ) < 2 ^ (f.1.log2 + 1) := mod_cast Nat.lt_log2_self
  have second : (2 : ℚ) ^ f.2.log2 ≤ f.2 := mod_cast Nat.log2_self_le denominator.ne'
  have secondNext : (f.2 : ℚ) < 2 ^ (f.2.log2 + 1) := mod_cast Nat.lt_log2_self
  have split : ∀ a b : Nat, (2 : ℚ) ^ ((a : Int) - b) = 2 ^ a / 2 ^ b := by
    intro a b
    rw [zpow_sub₀ two_ne_zero,zpow_natCast,zpow_natCast]
  have low : (f.1.log2 : Int) - f.2.log2 - 1 = f.1.log2 - (f.2.log2 + 1 : Nat) := by omega
  have high : (f.1.log2 : Int) - f.2.log2 + 1 = (f.1.log2 + 1 : Nat) - f.2.log2 := by omega
  rw [low,high,split,split]
  exact ⟨div_le_div₀ (by positivity) first (by positivity) secondNext.le,
    div_lt_div₀ firstNext second (by positivity) (by positivity)⟩

theorem over_power_reaches (denominator : 0 < f.2) (k : Int) :
    (overPower 2 f k).2 ≤ (overPower 2 f k).1 ↔ (2 : ℚ) ^ k ≤ ratio f := by
  have rest : (0 : ℚ) < (overPower 2 f k).2 := Nat.cast_pos.mpr (over_power_denominator two_pos denominator k)
  have value : ratio (overPower 2 f k) = ratio f / 2 ^ k := over_power_ratio two_pos f k
  rw [← one_le_div₀ (zpow_pos two_pos k),← value,ratio,one_le_div₀ rest,Nat.cast_le]

theorem binary_order_exact (numerator : 0 < f.1) (denominator : 0 < f.2) : binaryOrder f = Int.log 2 (ratio f) := by
  obtain ⟨above,below⟩ := ratio_between numerator denominator
  unfold binaryOrder
  dsimp only
  split
  · exact (log_between one_lt_two ((over_power_reaches denominator _).mp ‹_›) below).symm
  · have less := not_le.mp (mt (over_power_reaches denominator _).mpr ‹_›)
    refine (log_between one_lt_two above ?_).symm
    rwa [sub_add_cancel]

namespace Magnitude

-- Rounding as it depends on the number alone.
def rounded (r : ℚ) : Magnitude :=
  if r = 0 then .zero
  else
    let exponent := max (Int.log 2 r - 52) (-1074)
    let significand := evenNearest (r / 2 ^ exponent)
    if significand = Nat.pow 2 53 then .ofParts (Nat.pow 2 52) (exponent + 1) else .ofParts significand exponent

theorem nearest_exact (denominator : 0 < f.2) : nearest f = rounded (ratio f) := by
  have nonzero : (f.2 : ℚ) ≠ 0 := Nat.cast_ne_zero.mpr denominator.ne'
  have zero : ratio f = 0 ↔ f.1 = 0 := by
    rw [ratio,div_eq_zero_iff,or_iff_left nonzero,Nat.cast_eq_zero]
  unfold nearest rounded
  by_cases nothing : f.1 = 0
  · rw [if_pos nothing,if_pos (zero.mpr nothing)]
  · have numerator := Nat.pos_of_ne_zero nothing
    simp only [if_neg nothing,if_neg (mt zero.mp nothing),binary_order_exact numerator denominator,
      half_even_exact (over_power_denominator two_pos denominator _),over_power_ratio two_pos f]
    rfl

theorem of_decimal_exact (digits : Nat) (scale : Int) : ofDecimal digits scale = rounded (digits * 10 ^ scale) := by
  rw [ofDecimal,nearest_exact (over_power_denominator (by decide) Nat.one_pos _),over_power_ratio (by decide)]
  simp [ratio]

theorem rounded_grid (canonical : Canonical significand exponent) (positive : 0 < significand) :
    rounded (significand * 2 ^ exponent) = .finite significand exponent canonical := by
  have power : (0 : ℚ) < 2 ^ exponent := zpow_pos two_pos exponent
  have value : (0 : ℚ) < significand * 2 ^ exponent := mul_pos (Nat.cast_pos.mpr positive) power
  obtain ⟨small,low,high,normal⟩ := canonical
  have below : Int.log 2 ((significand : ℚ) * 2 ^ exponent) < 53 + exponent := by
    refine (Int.lt_zpow_iff_log_lt one_lt_two value).mp ?_
    rw [Nat.cast_two,zpow_add₀ two_ne_zero]
    exact mul_lt_mul_of_pos_right (mod_cast small) power
  have above : Nat.pow 2 52 ≤ significand → 52 + exponent ≤ Int.log 2 ((significand : ℚ) * 2 ^ exponent) := by
    intro large
    refine (Int.zpow_le_iff_le_log one_lt_two value).mp ?_
    rw [Nat.cast_two,zpow_add₀ two_ne_zero]
    exact mul_le_mul_of_nonneg_right (mod_cast large) power.le
  have placed : max (Int.log 2 ((significand : ℚ) * 2 ^ exponent) - 52) (-1074) = exponent := by
    rcases normal with large | rfl
    · have reached := above large
      omega
    · omega
  rw [rounded,if_neg value.ne']
  simp only [placed,mul_div_cancel_right₀ _ power.ne',even_nearest_integer,if_neg (Nat.ne_of_lt small),ofParts]
  exact dif_pos ⟨small,low,high,normal⟩

theorem of_parts_finite (finite : ofParts n k = .finite significand exponent canonical) : n = significand ∧ k = exponent := by
  unfold ofParts at finite
  split at finite
  · exact Magnitude.finite.inj finite
  · cases finite

-- Only numbers from half of the lowest point up to the first power beyond the grid are rounded to a
-- point other than zero.
theorem rounded_range (finite : rounded r = .finite significand exponent canonical) (nonzero : significand ≠ 0) :
    (2 : ℚ) ^ (-1075 : Int) ≤ r ∧ r < 2 ^ (1024 : Int) := by
  unfold rounded at finite
  dsimp only at finite
  generalize place : max (Int.log 2 r - 52) (-1074) = k at finite
  have power : (0 : ℚ) < 2 ^ k := zpow_pos two_pos k
  have found : evenNearest (r / 2 ^ k) ≠ 0 ∧ k ≤ 971 := by
    split at finite
    · exact absurd (Magnitude.finite.inj finite).1.symm nonzero
    · split at finite
      · rename_i full
        obtain ⟨_,rfl⟩ := of_parts_finite finite
        exact ⟨by rw [full]; decide,by have := canonical.2.2.1; omega⟩
      · obtain ⟨rfl,rfl⟩ := of_parts_finite finite
        exact ⟨nonzero,canonical.2.2.1⟩
  have half := (le_div_iff₀ power).mp (even_nearest_half found.1)
  have positive : 0 < r := lt_of_lt_of_le (by positivity) half
  constructor
  · have lowest : (2 : ℚ) ^ (-1075 : Int) ≤ 2 ^ (-1 + k) := zpow_le_zpow_right₀ one_le_two (by omega)
    rw [zpow_add₀ two_ne_zero,zpow_neg_one] at lowest
    exact lowest.trans (by linarith)
  · exact (Int.lt_zpow_iff_log_lt one_lt_two positive).mpr (by omega)

end Magnitude

end KaleidoscopeFrontEnd

import KaleidoscopeFrontEnd.Binary64.Reading
import KaleidoscopeFrontEnd.Proofs.LexicalGrammar
import KaleidoscopeFrontEnd.Proofs.Rounding
import KaleidoscopeFrontEnd.Tree.Sexpr
import Mathlib.Tactic.NormNum

namespace KaleidoscopeFrontEnd

def Digits (w : List Char) : Prop := ∀ c ∈ w, isDecimalDigit c = true

theorem Digits.append (front : Digits w) (back : Digits v) : Digits (w ++ v) :=
  fun c member => (List.mem_append.mp member).elim (front c) (back c)

theorem decimal_value_of_digits (w : List Char) : decimalValue w = Nat.ofDigitChars 10 w 0 := rfl

theorem decimal_value_append (w v : List Char) : decimalValue (w ++ v) = 10 ^ v.length * decimalValue w + decimalValue v := by
  simp only [decimal_value_of_digits,Nat.ofDigitChars_append]
  exact Nat.ofDigitChars_eq_ofDigitChars_zero

theorem decimal_value_replicate (n : Nat) : decimalValue (List.replicate n '0') = 0 :=
  Nat.ofDigitChars_replicate_zero

theorem decimal_value_zeros (n : Nat) (w : List Char) : decimalValue (List.replicate n '0' ++ w) = decimalValue w := by
  rw [decimal_value_append,decimal_value_replicate,Nat.mul_zero,Nat.zero_add]

theorem decimal_value_below (digits : Digits w) : decimalValue w < 10 ^ w.length := by
  induction w using List.reverseRecOn with
  | nil => decide
  | append_singleton w c ih =>
      have below := ih fun d member => digits d (List.mem_append_left [c] member)
      have digit := decimal_digit_exact.mp (digits c (List.mem_append_right w (List.mem_singleton_self c)))
      have last : decimalValue [c] = c.toNat - 48 := by
        change 10 * 0 + (c.toNat - 48) = _
        omega
      rw [decimal_value_append,last,List.length_append,List.length_singleton,pow_one,pow_succ]
      omega

theorem decimal_digits_value (n : Nat) : decimalValue (decimalDigits n) = n := Nat.ofDigitChars_ten_toDigits

theorem decimal_digits (n : Nat) : Digits (decimalDigits n) :=
  fun _ member => Nat.isDigit_of_mem_toDigits (by decide) (by decide) member

theorem digits_split (n : Nat) : ∃ k, decimalDigits n =
    ((decimalDigits n).reverse.dropWhile (· == '0')).reverse ++ List.replicate k '0' := by
  refine ⟨((decimalDigits n).reverse.takeWhile (· == '0')).length,?_⟩
  have zeros : (decimalDigits n).reverse.takeWhile (· == '0') =
      List.replicate ((decimalDigits n).reverse.takeWhile (· == '0')).length '0' :=
    List.eq_replicate_of_mem fun c member => by simpa using List.mem_takeWhile_imp member
  have whole := congrArg List.reverse (List.takeWhile_append_dropWhile (p := (· == '0')) (l := (decimalDigits n).reverse))
  rw [List.reverse_append,List.reverse_reverse] at whole
  rw [← List.reverse_replicate,← zeros]
  exact whole.symm

def placeValue (whole fraction : List Char) : ℚ := decimalValue (whole ++ fraction) * 10 ^ (-(fraction.length : Int))

inductive Places : List Char → List Char → List Char → Prop where
  | integral (nonempty : whole ≠ []) (digits : Digits whole) : Places whole whole []
  | pointed (nonempty : whole ≠ []) (digits : Digits whole) (behind : Digits fraction) :
      Places (whole ++ '.' :: fraction) whole fraction

-- A text that reads as a number, and the number. An exponent has to be one that is not cut down.
inductive Numeral : List Char → ℚ → Prop where
  | plain (places : Places w whole fraction) : Numeral w (placeValue whole fraction)
  | scaled (places : Places w whole fraction) (exponent : decimalExponent? ('e' :: tail) = some e)
      (kept : clampedExponent (whole.length + fraction.length) e = e) (long : 2 ≤ tail.length)
      (marks : ∀ c ∈ tail, isDecimalDigit c = true ∨ c = '+' ∨ c = '-') :
      Numeral (w ++ 'e' :: tail) (placeValue whole fraction * 10 ^ e)

theorem of_places_exact (whole fraction : List Char) (e : Int) :
    Magnitude.ofPlaces whole fraction e = .rounded (placeValue whole fraction * 10 ^ e) := by
  rw [Magnitude.ofPlaces,Magnitude.of_decimal_exact,placeValue,mul_assoc,← zpow_add₀ (by norm_num),neg_add_eq_sub]

theorem Places.read (places : Places w whole fraction) (ends : ∀ c ∈ tail.head?, isDecimalDigit c = false ∧ c ≠ '.')
    (exponent : decimalExponent? tail = some e) : Magnitude.ofText? (w ++ tail) =
      some (.rounded (placeValue whole fraction * 10 ^ clampedExponent (whole.length + fraction.length) e)) := by
  have stops : ∀ c ∈ tail.head?, isDecimalDigit c = false := fun c first => (ends c first).1
  cases places with
  | integral nonempty digits =>
      obtain ⟨taken,dropped⟩ := Longest.taken ⟨digits,stops⟩
      have read : Magnitude.ofText? (w ++ tail) =
          (decimalExponent? tail).map fun e => .ofPlaces w [] (clampedExponent (w.length + 0) e) := by
        simp only [Magnitude.ofText?,taken,dropped]
        cases tail with
        | nil => exact if_neg fun empty => nonempty empty.1
        | cons c rest =>
            have other : c ≠ '.' := (ends c rfl).2
            simp [nonempty,other]
      rw [read,exponent,Option.map_some,of_places_exact]
      rfl
  | pointed nonempty digits behind =>
      rw [List.append_assoc]
      have run : Longest isDecimalDigit whole ('.' :: (fraction ++ tail)) := ⟨digits,by rintro c ⟨⟩; exact point_not_digit⟩
      obtain ⟨taken,dropped⟩ := run.taken
      obtain ⟨takenBehind,droppedBehind⟩ := Longest.taken ⟨behind,stops⟩
      simp only [Magnitude.ofText?,List.cons_append,taken,dropped,takenBehind,droppedBehind,nonempty,false_and,if_false,
        exponent,Option.map_some,of_places_exact]

theorem Numeral.read (numeral : Numeral w r) : Magnitude.ofText? w = some (.rounded r) := by
  cases numeral with
  | plain places =>
      have ends : ∀ c ∈ ([] : List Char).head?, isDecimalDigit c = false ∧ c ≠ '.' := by rintro c ⟨⟩
      have read := places.read ends (rfl : decimalExponent? [] = some 0)
      have kept : ∀ n, clampedExponent n 0 = 0 := by
        intro n
        unfold clampedExponent
        dsimp only
        omega
      rwa [List.append_nil,kept,zpow_zero,mul_one] at read
  | scaled places exponent kept =>
      have read := places.read (by rintro c ⟨⟩; exact ⟨by decide,by decide⟩) exponent
      rwa [kept] at read

theorem Places.shape (places : Places w front behind) : (∃ c ∈ w.head?, isDecimalDigit c = true) ∧
    ∀ c ∈ w, isDecimalDigit c = true ∨ c = '.' := by
  have first : ∀ v : List Char, v ≠ [] → Digits v → ∃ c ∈ v.head?, isDecimalDigit c = true := by
    intro v nonempty digits
    obtain ⟨c,later,rfl⟩ := List.exists_cons_of_ne_nil nonempty
    exact ⟨c,rfl,digits c List.mem_cons_self⟩
  cases places with
  | integral nonempty digits => exact ⟨first w nonempty digits,fun c member => .inl (digits c member)⟩
  | pointed nonempty digits behind =>
      refine ⟨List.head?_append_of_ne_nil front nonempty ▸ first front nonempty digits,fun c member => ?_⟩
      rcases List.mem_append.mp member with member | member
      · exact .inl (digits c member)
      · exact (List.mem_cons.mp member).symm.imp_left (behind c)

theorem Numeral.shape (numeral : Numeral w r) : (∃ c ∈ w.head?, isDecimalDigit c = true) ∧
    ∀ c ∈ w, isDecimalDigit c = true ∨ c ∈ ['.','e','+','-'] := by
  cases numeral with
  | plain places =>
      obtain ⟨first,inside⟩ := places.shape
      exact ⟨first,fun c member => (inside c member).imp_right fun point => by simp [point]⟩
  | @scaled w _ _ tail _ places exponent kept long marks =>
      obtain ⟨⟨d,first,digit⟩,inside⟩ := places.shape
      have nonempty : w ≠ [] := fun nothing => by rw [nothing] at first; cases first
      refine ⟨⟨d,List.head?_append_of_ne_nil w nonempty ▸ first,digit⟩,fun c member => ?_⟩
      rcases List.mem_append.mp member with member | member
      · exact (inside c member).imp_right fun point => by simp [point]
      · rcases List.mem_cons.mp member with rfl | member
        · exact .inr (by simp)
        · exact (marks c member).imp_right fun sign => by rcases sign with rfl | rfl <;> simp

theorem place_value_zero (w : List Char) : placeValue w ['0'] = placeValue w [] := by
  have last : decimalValue ['0'] = 0 := rfl
  rw [placeValue,placeValue,decimal_value_append,last,List.append_nil]
  simp [mul_comm]

theorem point_split (front : Digits v) (behind : Digits u) (same : w ++ ['.','0'] = v ++ '.' :: u) : w = v ∧ u = ['0'] := by
  have apart : ∀ {digits : List Char}, Digits digits → '.' ∉ digits := fun digits member =>
    absurd (digits '.' member) (by decide)
  rcases List.append_eq_append_iff.mp same with ⟨between,rfl,tail⟩ | ⟨between,rfl,tail⟩
  · cases between with
    | nil => cases tail; exact ⟨(List.append_nil w).symm,rfl⟩
    | cons c between =>
        obtain ⟨rfl,_⟩ := List.cons.inj tail
        exact absurd (List.mem_append_right w List.mem_cons_self) (apart front)
  · cases between with
    | nil => cases tail; exact ⟨List.append_nil v,rfl⟩
    | cons c between =>
        obtain ⟨_,rfl⟩ := List.cons.inj tail
        exact absurd (List.mem_append_right between List.mem_cons_self) (apart behind)

theorem Numeral.stripped (numeral : Numeral (w ++ ['.','0']) r) : Numeral w r := by
  generalize whole : w ++ ['.','0'] = text at numeral
  cases numeral with
  | plain places =>
      cases places with
      | integral nonempty digits =>
          have point := digits '.' (by simp [← whole])
          exact absurd point (by decide)
      | pointed nonempty digits behind =>
          obtain ⟨rfl,rfl⟩ := point_split digits behind whole
          rw [place_value_zero]
          exact .plain (.integral nonempty digits)
  | @scaled v _ _ tail _ places exponent kept long marks =>
      have suffix : ['.','0'] <:+ tail :=
        List.suffix_of_suffix_length_le ⟨w,whole⟩ ((List.suffix_cons 'e' tail).trans (List.suffix_append v _)) long
      rcases marks '.' (suffix.subset (by simp)) with digit | sign | sign
      · exact absurd digit (by decide)
      · exact absurd sign (by decide)
      · exact absurd sign (by decide)

theorem digits_zeros (n : Nat) : Digits (List.replicate n '0') := by
  intro c member
  rw [List.eq_of_mem_replicate member]
  decide

theorem padded_exponent_read (places : Nat) (e : Int) : decimalExponent? ('e' :: paddedExponent places e) = some e := by
  have value : decimalValue (List.replicate (places - (decimalDigits e.natAbs).length) '0' ++ decimalDigits e.natAbs) = e.natAbs := by
    rw [decimal_value_zeros,decimal_digits_value]
  have digits : ∀ c ∈ List.replicate (places - (decimalDigits e.natAbs).length) '0' ++ decimalDigits e.natAbs,
      isDecimalDigit c = true := (digits_zeros _).append (decimal_digits _)
  have nonempty : List.replicate (places - (decimalDigits e.natAbs).length) '0' ++ decimalDigits e.natAbs ≠ [] :=
    List.append_ne_nil_of_right_ne_nil _ Nat.toDigits_ne_nil
  unfold paddedExponent
  by_cases negative : e < 0
  · simp only [if_pos negative,decimalExponent?,true_or,if_true]
    rw [if_pos ⟨nonempty,List.all_eq_true.mpr digits⟩,value]
    simp [abs_of_neg negative]
  · simp only [if_neg negative,decimalExponent?,true_or,if_true]
    rw [if_pos ⟨nonempty,List.all_eq_true.mpr digits⟩,value]
    simp [abs_of_nonneg (not_lt.mp negative)]

theorem padded_exponent_marks (places : Nat) (e : Int) :
    ∀ c ∈ paddedExponent places e, isDecimalDigit c = true ∨ c = '+' ∨ c = '-' := by
  intro c member
  rcases List.mem_cons.mp member with rfl | member
  · split
    · exact .inr (.inr rfl)
    · exact .inr (.inl rfl)
  · exact .inl ((digits_zeros _).append (decimal_digits _) c member)

theorem padded_exponent_length (places : Nat) (e : Int) : 2 ≤ (paddedExponent places e).length := by
  have positive : 0 < (decimalDigits e.natAbs).length := Nat.length_toDigits_pos
  rw [paddedExponent,List.length_cons,List.length_append]
  omega

theorem positional_numeral (digits : Digits w) (nonempty : w ≠ []) (point : Int) :
    Numeral (positional w point) (decimalValue w * 10 ^ (point - w.length)) := by
  unfold positional
  split
  · have value : placeValue ['0'] (List.replicate (-point).toNat '0' ++ w) = decimalValue w * 10 ^ (point - w.length) := by
      have scale : -((List.replicate (-point).toNat '0' ++ w).length : Int) = point - w.length := by
        simp only [List.length_append,List.length_replicate]
        omega
      rw [placeValue,scale,← List.append_assoc]
      exact congrArg (· * _) (congrArg Nat.cast (decimal_value_zeros ((-point).toNat + 1) w))
    rw [← value]
    exact .plain (.pointed (List.cons_ne_nil '0' []) (digits_zeros 1) ((digits_zeros _).append digits))
  · split
    · have value : placeValue (w ++ List.replicate (point.toNat - w.length) '0') ['0'] =
          decimalValue w * 10 ^ (point - w.length) := by
        have scale : point - w.length = (point.toNat - w.length : Nat) := by omega
        rw [place_value_zero,placeValue,scale,zpow_natCast,List.append_nil,decimal_value_append,decimal_value_replicate,
          List.length_replicate]
        simp [mul_comm]
      rw [← value]
      exact .plain (.pointed (List.append_ne_nil_of_left_ne_nil nonempty _) (digits.append (digits_zeros _)) (digits_zeros 1))
    · have value : placeValue (w.take point.toNat) (w.drop point.toNat) = decimalValue w * 10 ^ (point - w.length) := by
        have scale : -((w.drop point.toNat).length : Int) = point - w.length := by
          rw [List.length_drop]
          omega
        rw [placeValue,scale,List.take_append_drop]
      rw [← value]
      refine .plain (.pointed ?_ (fun c member => digits c (List.mem_of_mem_take member))
        (fun c member => digits c (List.mem_of_mem_drop member)))
      simp only [Ne,List.take_eq_nil_iff,nonempty,or_false]
      omega

theorem scientific_numeral (digits : Digits w) (nonempty : w ≠ [])
    (kept : clampedExponent w.length (point - 1) = point - 1) :
    Numeral (scientific .standard w point) (decimalValue w * 10 ^ (point - w.length)) := by
  obtain ⟨c,more,rfl⟩ := List.exists_cons_of_ne_nil nonempty
  have value : placeValue [c] more * 10 ^ (point - 1) = decimalValue (c :: more) * 10 ^ (point - (c :: more).length) := by
    have scale : -(more.length : Int) + (point - 1) = point - (c :: more).length := by
      rw [List.length_cons]
      omega
    rw [placeValue,mul_assoc,← zpow_add₀ (by norm_num),scale]
    rfl
  have places : Places ((c :: more).take 1 ++ if (c :: more).length ≤ 1 then [] else '.' :: (c :: more).drop 1) [c] more := by
    have front : Digits [c] := fun d member => digits d (List.mem_singleton.mp member ▸ List.mem_cons_self)
    cases more with
    | nil => exact .integral (by simp) front
    | cons d more => exact .pointed (by simp) front fun e member => digits e (List.mem_cons_of_mem c member)
  rw [← value,scientific]
  refine .scaled places (padded_exponent_read _ _) ?_ (padded_exponent_length _ _) (padded_exponent_marks _ _)
  rwa [List.length_singleton,Nat.add_comm]

-- The exponents of numbers between the lowest and the highest of the grid are nowhere near the cut.
theorem exponent_kept {point : Int} (digits : Digits w) (low : (2 : ℚ) ^ (-1075 : Int) ≤ decimalValue w * 10 ^ (point - w.length))
    (high : decimalValue w * 10 ^ (point - w.length) < (2 : ℚ) ^ (1024 : Int)) :
    clampedExponent w.length (point - 1) = point - 1 := by
  have power : (0 : ℚ) < 10 ^ (point - w.length) := zpow_pos (by norm_num) _
  have least : (10 : ℚ) ^ (-324 : Int) < 2 ^ (-1075 : Int) := by
    have powers : (2 : Nat) ^ 1075 < 10 ^ 324 := by decide +kernel
    rw [zpow_neg,zpow_neg]
    exact inv_strictAnti₀ (zpow_pos two_pos _) (mod_cast powers)
  have most : (2 : ℚ) ^ (1024 : Int) < 10 ^ (309 : Int) := by
    have powers : (2 : Nat) ^ 1024 < 10 ^ 309 := by decide +kernel
    exact mod_cast powers
  have above : (-324 : Int) < point := by
    have below : (decimalValue w : ℚ) * 10 ^ (point - w.length) < 10 ^ point := by
      have small : (decimalValue w : ℚ) < 10 ^ (w.length : Int) := mod_cast decimal_value_below digits
      calc (decimalValue w : ℚ) * 10 ^ (point - w.length) < 10 ^ (w.length : Int) * 10 ^ (point - w.length) :=
            mul_lt_mul_of_pos_right small power
        _ = 10 ^ point := by rw [← zpow_add₀ (by norm_num)]; ring_nf
    exact (zpow_lt_zpow_iff_right₀ (by norm_num)).mp ((least.trans_le low).trans below)
  have below : point - w.length < 309 := by
    have one : (1 : ℚ) ≤ decimalValue w := by
      refine Nat.one_le_cast.mpr (Nat.pos_of_ne_zero fun zero => ?_)
      rw [zero,Nat.cast_zero,zero_mul] at low
      exact absurd low (not_le.mpr (zpow_pos two_pos _))
    exact (zpow_lt_zpow_iff_right₀ (by norm_num)).mp (((le_mul_of_one_le_left power.le one).trans_lt high).trans most)
  unfold clampedExponent
  dsimp only
  omega

theorem decimal_text_numeral {digits : Nat} {scale : Int} (low : (2 : ℚ) ^ (-1075 : Int) ≤ digits * 10 ^ scale)
    (high : digits * 10 ^ scale < (2 : ℚ) ^ (1024 : Int)) :
    Numeral (decimalText .standard (digits,scale)) (digits * 10 ^ scale) := by
  obtain ⟨k,split⟩ := digits_split digits
  have shown : decimalText .standard (digits,scale) =
      let w := ((decimalDigits digits).reverse.dropWhile (· == '0')).reverse
      let point := scale + (decimalDigits digits).length
      if -4 < point ∧ point ≤ 16 then positional w point else scientific .standard w point := rfl
  rw [shown]
  generalize ((decimalDigits digits).reverse.dropWhile (· == '0')).reverse = w at split
  have only : Digits w := fun c member => decimal_digits digits c (split ▸ List.mem_append_left _ member)
  have whole : digits = 10 ^ k * decimalValue w := by
    have value := decimal_value_append w (List.replicate k '0')
    rwa [← split,decimal_digits_value,decimal_value_replicate,List.length_replicate] at value
  have size : (decimalDigits digits).length = w.length + k := by rw [split,List.length_append,List.length_replicate]
  have value : (digits : ℚ) * 10 ^ scale = decimalValue w * 10 ^ (scale + (decimalDigits digits).length - w.length) := by
    have place : scale + (w.length + k : Nat) - w.length = k + scale := by omega
    rw [size,place,zpow_add₀ (by norm_num),zpow_natCast,whole]
    push_cast
    ring
  rw [value] at low high ⊢
  have nonempty : w ≠ [] := by
    rintro rfl
    rw [decimalValue,List.foldl_nil,Nat.cast_zero,zero_mul] at low
    exact absurd low (not_le.mpr (zpow_pos two_pos _))
  dsimp only
  split
  · exact positional_numeral only nonempty _
  · exact scientific_numeral only nonempty (exponent_kept only low high)

theorem reads_back_at (found : readsBackAt goal fraction scale = some digits) : Magnitude.ofDecimal digits scale = goal := by
  unfold readsBackAt at found
  dsimp only at found
  generalize (if halfEven (overPower 10 fraction scale) = _ then _ else _ : Nat) = far at found
  split at found
  · exact Option.some.inj found ▸ ‹_›
  · split at found
    · exact Option.some.inj found ▸ ‹_›
    · cases found

-- The exact expansion of a point of the grid, which ends because ten is a multiple of two.
theorem expansion_value (significand : Nat) (exponent : Int) :
    let exact : Nat × Int := if 0 ≤ exponent then (significand * Nat.pow 2 exponent.toNat,0)
      else (significand * Nat.pow 5 (-exponent).toNat,exponent)
    (exact.1 : ℚ) * 10 ^ exact.2 = significand * 2 ^ exponent := by
  dsimp only
  split
  · rename_i integral
    obtain ⟨n,rfl⟩ := Int.eq_ofNat_of_zero_le integral
    simp
  · rename_i negative
    obtain ⟨n,size⟩ := Int.eq_ofNat_of_zero_le (Int.neg_nonneg_of_nonpos (by omega : exponent ≤ 0))
    obtain rfl : exponent = -n := by omega
    have ten : (10 : ℚ) ^ n = 2 ^ n * 5 ^ n := by rw [← mul_pow]; norm_num
    simp only [neg_neg,Int.toNat_natCast,zpow_neg,zpow_natCast,ten,Nat.pow_eq]
    push_cast
    field_simp

theorem shortest_reads_back (canonical : Canonical significand exponent) (positive : 0 < significand) :
    Magnitude.ofDecimal (shortestDecimal significand exponent).1 (shortestDecimal significand exponent).2 =
      .finite significand exponent canonical := by
  have either : ∀ (found : Option (Nat × Int)) (last : Nat × Int),
      (∀ p ∈ found, Magnitude.ofDecimal p.1 p.2 = .finite significand exponent canonical) →
      Magnitude.ofDecimal last.1 last.2 = .finite significand exponent canonical →
      Magnitude.ofDecimal (found.getD last).1 (found.getD last).2 = .finite significand exponent canonical := by
    intro found last searched exact
    cases found with
    | none => exact exact
    | some p => exact searched p rfl
  refine either _ _ ?_ ?_
  · intro p found
    obtain ⟨count,_,tried⟩ := List.exists_of_findSome?_eq_some found
    obtain ⟨digits,back,rfl⟩ := Option.map_eq_some_iff.mp tried
    exact (reads_back_at back).trans (dif_pos canonical)
  · rw [Magnitude.of_decimal_exact,expansion_value]
    exact Magnitude.rounded_grid canonical positive

-- A finite number is printed as a numeral, and that numeral reads as the number again.
theorem chars_numeral (canonical : Canonical significand exponent) :
    ∃ r, Numeral (Magnitude.finite significand exponent canonical).chars r ∧
      Magnitude.rounded r = .finite significand exponent canonical := by
  rcases Nat.eq_zero_or_pos significand with rfl | positive
  · have lowest : exponent = -1074 := canonical.2.2.2.resolve_left (by decide)
    subst lowest
    have digit : Digits ['0'] := digits_zeros 1
    have nothing : placeValue ['0'] ['0'] = 0 := by simp [placeValue,decimalValue]
    exact ⟨_,.plain (.pointed (List.cons_ne_nil '0' []) digit digit),if_pos nothing⟩
  · have back := shortest_reads_back canonical positive
    rw [Magnitude.of_decimal_exact] at back
    obtain ⟨low,high⟩ := Magnitude.rounded_range back positive.ne'
    refine ⟨_,?_,back⟩
    rw [Magnitude.chars,if_neg positive.ne']
    exact decimal_text_numeral low high

theorem number_numeral (canonical : Canonical significand exponent) :
    ∃ r, Numeral (Form.number (.signed false (.finite significand exponent canonical))).toList r ∧
      Magnitude.rounded r = .finite significand exponent canonical := by
  obtain ⟨r,numeral,back⟩ := chars_numeral canonical
  refine ⟨r,?_,back⟩
  have shown : (Binary64.signed false (.finite significand exponent canonical)).chars =
      (Magnitude.finite significand exponent canonical).chars := rfl
  unfold Form.number
  dsimp only
  split
  · rename_i suffix
    obtain ⟨w,whole⟩ := List.isSuffixOf_iff_suffix.mp suffix
    rw [← shown,← whole] at numeral
    rw [String.toList_ofList,← whole,List.length_append]
    change Numeral ((w ++ ['.','0']).take w.length) r
    rw [List.take_left]
    exact numeral.stripped
  · rw [Binary64.text,String.toList_ofList]
    exact numeral

end KaleidoscopeFrontEnd

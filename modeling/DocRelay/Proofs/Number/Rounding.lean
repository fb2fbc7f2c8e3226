import DocRelay.Number.Shortest
import Mathlib.Algebra.Field.Rat
import Mathlib.Algebra.Order.Field.Power
import Mathlib.Algebra.Order.Ring.Rat
import Mathlib.Tactic.FieldSimp
import Mathlib.Tactic.Linarith
import Mathlib.Tactic.NormNum
import Mathlib.Tactic.Positivity
import Mathlib.Tactic.Ring

namespace DocRelay.Binary64

/-!
# What is rounded to a number

A ratio is rounded to the number in whose interval it lies: the reals at most half a step away, on
the side of the smaller numbers half a smaller step at the least number with its exponent, and the
ends only if the significand is even.

* `roundDiv_eq`, `floorLog2_eq` — a rounded quotient and the exponent of a ratio;
* `Interval.Contains` — a ratio lies in an interval;
* `high_interval`, `le_low_interval`, `low_interval_of_least` — the ends of the interval of a number;
* `ofRatio_eq` — the number that a ratio is rounded to.
-/

/-! ### Quotients and exponents -/

/-- A quotient is rounded to the integer that is at most a half away, and less if it is odd. -/
theorem roundDiv_eq {num den r : Nat} (hden : 0 < den) (hlow : 2 * r * den ≤ 2 * num + den)
    (hhigh : 2 * num ≤ (2 * r + 1) * den)
    (hodd : r % 2 = 1 → 2 * r * den < 2 * num + den ∧ 2 * num < (2 * r + 1) * den) :
    roundDiv num den = r := by
  have hsplit : den * (num / den) + num % den = num := Nat.div_add_mod num den
  have hrest : num % den < den := Nat.mod_lt _ hden
  rw [roundDiv]
  generalize num / den = quotient at hsplit ⊢
  generalize num % den = rest at hsplit hrest ⊢
  subst hsplit
  -- The integer is the quotient, or the one above.
  have hle : quotient ≤ r := by
    by_contra hlt
    have : (2 * r + 2) * den ≤ 2 * quotient * den := Nat.mul_le_mul_right _ (by omega)
    nlinarith
  have hge : r ≤ quotient + 1 := by
    by_contra hlt
    have : (2 * quotient + 4) * den ≤ 2 * r * den := Nat.mul_le_mul_right _ (by omega)
    nlinarith
  obtain rfl | rfl : r = quotient ∨ r = quotient + 1 := by omega
  · have htwice : 2 * rest ≤ den := by nlinarith
    have hstrict : r % 2 = 1 → 2 * rest < den := fun h => by
      have := (hodd h).2
      nlinarith
    rw [if_pos]
    simp only [Bool.or_eq_true, Bool.and_eq_true, decide_eq_true_eq, beq_iff_eq]
    omega
  · have htwice : den ≤ 2 * rest := by nlinarith
    have hstrict : (quotient + 1) % 2 = 1 → den < 2 * rest := fun h => by
      have := (hodd h).1
      nlinarith
    rw [if_neg]
    simp only [Bool.or_eq_true, Bool.and_eq_true, decide_eq_true_eq, beq_iff_eq]
    omega

theorem zpow_pos_two (k : Int) : (0 : ℚ) < 2 ^ k := zpow_pos (by norm_num) k

/-- A shift to the left multiplies by a power of two. -/
theorem cast_shiftLeft (n : Nat) {k : Int} (h : 0 ≤ k) :
    ((n <<< k.toNat : Nat) : ℚ) = n * 2 ^ k := by
  obtain ⟨k, rfl⟩ := Int.eq_ofNat_of_zero_le h
  rw [Nat.shiftLeft_eq, Int.toNat_natCast, zpow_natCast]
  push_cast
  ring

/-- A ratio in units of a power of two is rounded to the integer that is at most a half away, and
    less if it is odd. -/
theorem roundDiv_scaled {num den r : Nat} {scale : Int} (hden : 0 < den)
    (hlow : (r - 1 / 2 : ℚ) * 2 ^ scale ≤ num / den)
    (hhigh : (num / den : ℚ) ≤ (r + 1 / 2) * 2 ^ scale)
    (hodd : r % 2 = 1 → (r - 1 / 2 : ℚ) * 2 ^ scale < num / den ∧
      (num / den : ℚ) < (r + 1 / 2) * 2 ^ scale) :
    (if 0 ≤ scale then roundDiv num (den <<< scale.toNat)
      else roundDiv (num <<< (-scale).toNat) den) = r := by
  have hden' : (0 : ℚ) < den := Nat.cast_pos.mpr hden
  -- Both forms are the rounded quotient of some ratio.
  have hround : ∀ {n d : Nat}, 0 < d → (n / d : ℚ) = num / den / 2 ^ scale →
      roundDiv n d = r := by
    intro n d hd hratio
    have hd' : (0 : ℚ) < d := Nat.cast_pos.mpr hd
    have hn : (n : ℚ) = num / den / 2 ^ scale * d := by
      rw [← hratio, div_mul_cancel₀ _ hd'.ne']
    have hunit := zpow_pos_two scale
    rw [← le_div_iff₀ hunit] at hlow
    rw [← div_le_iff₀ hunit] at hhigh
    rw [← lt_div_iff₀ hunit, ← div_lt_iff₀ hunit] at hodd
    generalize (num / den / 2 ^ scale : ℚ) = v at hn hlow hhigh hodd
    refine roundDiv_eq hd ?_ ?_ fun h => ⟨?_, ?_⟩
    · rw [← Nat.cast_le (α := ℚ)]
      push_cast
      nlinarith
    · rw [← Nat.cast_le (α := ℚ)]
      push_cast
      nlinarith
    · have hv := (hodd h).1
      rw [← Nat.cast_lt (α := ℚ)]
      push_cast
      nlinarith
    · have hv := (hodd h).2
      rw [← Nat.cast_lt (α := ℚ)]
      push_cast
      nlinarith
  split
  · rename_i hscale
    refine hround (by rw [Nat.shiftLeft_eq]; positivity) ?_
    rw [cast_shiftLeft den hscale, div_div]
  · rename_i hscale
    refine hround hden ?_
    rw [cast_shiftLeft num (by omega), zpow_neg, ← div_eq_mul_inv, div_right_comm]

/-- Whether a ratio is at least a power of two can be told by shifting one of its sides. -/
theorem reached_iff {num den : Nat} (hden : 0 < den) (k : Int) :
    (if 0 ≤ k then den <<< k.toNat ≤ num else den ≤ num <<< (-k).toNat)
      ↔ (2 : ℚ) ^ k ≤ num / den := by
  have hden' : (0 : ℚ) < den := Nat.cast_pos.mpr hden
  rw [le_div_iff₀ hden']
  split
  · rename_i hk
    rw [← Nat.cast_le (α := ℚ), cast_shiftLeft den hk, mul_comm]
  · rename_i hk
    rw [← Nat.cast_le (α := ℚ), cast_shiftLeft num (by omega), zpow_neg, ← div_eq_mul_inv,
      le_div_iff₀ (zpow_pos_two k), mul_comm]

/-- The exponent of a ratio. -/
theorem floorLog2_spec {num den : Nat} (hnum : 0 < num) (hden : 0 < den) :
    (2 : ℚ) ^ floorLog2 num den ≤ num / den ∧ (num / den : ℚ) < 2 ^ (floorLog2 num den + 1) := by
  have hden' : (0 : ℚ) < den := Nat.cast_pos.mpr hden
  -- The logarithms of both sides tell the exponent up to one.
  have hbound : ∀ {n : Nat}, 0 < n →
      (2 : ℚ) ^ (Nat.log2 n : Int) ≤ n ∧ (n : ℚ) < 2 ^ ((Nat.log2 n : Int) + 1) := by
    intro n hn
    have hlow : ((2 ^ Nat.log2 n : Nat) : ℚ) ≤ n := Nat.cast_le.mpr (Nat.log2_self_le hn.ne')
    have hhigh : (n : ℚ) < ((2 ^ (Nat.log2 n + 1) : Nat) : ℚ) :=
      Nat.cast_lt.mpr Nat.lt_log2_self
    push_cast at hlow hhigh
    exact_mod_cast And.intro hlow hhigh
  obtain ⟨hnumLow, hnumHigh⟩ := hbound hnum
  obtain ⟨hdenLow, hdenHigh⟩ := hbound hden
  have hhigh : (num / den : ℚ) < 2 ^ ((Nat.log2 num : Int) - Nat.log2 den + 1) := by
    rw [div_lt_iff₀ hden']
    calc (num : ℚ) < 2 ^ ((Nat.log2 num : Int) + 1) := hnumHigh
      _ = 2 ^ ((Nat.log2 num : Int) - Nat.log2 den + 1) * 2 ^ (Nat.log2 den : Int) := by
        rw [← zpow_add₀ (by norm_num)]
        congr 1
        ring
      _ ≤ _ := mul_le_mul_of_nonneg_left hdenLow (zpow_pos_two _).le
  have hlow : (2 : ℚ) ^ ((Nat.log2 num : Int) - Nat.log2 den - 1) ≤ num / den := by
    rw [le_div_iff₀ hden']
    calc (2 : ℚ) ^ ((Nat.log2 num : Int) - Nat.log2 den - 1) * den
        ≤ 2 ^ ((Nat.log2 num : Int) - Nat.log2 den - 1) * 2 ^ ((Nat.log2 den : Int) + 1) :=
          mul_le_mul_of_nonneg_left hdenHigh.le (zpow_pos_two _).le
      _ = 2 ^ (Nat.log2 num : Int) := by
        rw [← zpow_add₀ (by norm_num)]
        congr 1
        ring
      _ ≤ num := hnumLow
  rw [floorLog2]
  by_cases hreached : (2 : ℚ) ^ ((Nat.log2 num : Int) - Nat.log2 den) ≤ num / den
  · rw [if_pos ((reached_iff hden _).mpr hreached)]
    exact ⟨hreached, hhigh⟩
  · rw [if_neg (mt (reached_iff hden _).mp hreached), sub_add_cancel]
    exact ⟨hlow, not_le.mp hreached⟩

/-- The exponent of a ratio is the only one with which it is at least one and less than two. -/
theorem floorLog2_eq {num den : Nat} {k : Int} (hnum : 0 < num) (hden : 0 < den)
    (hlow : (2 : ℚ) ^ k ≤ num / den) (hhigh : (num / den : ℚ) < 2 ^ (k + 1)) :
    floorLog2 num den = k := by
  obtain ⟨hlow', hhigh'⟩ := floorLog2_spec hnum hden
  have hlt : k < floorLog2 num den + 1 :=
    (zpow_lt_zpow_iff_right₀ (by norm_num)).mp (lt_of_le_of_lt hlow hhigh')
  have hgt : floorLog2 num den < k + 1 :=
    (zpow_lt_zpow_iff_right₀ (by norm_num)).mp (lt_of_le_of_lt hlow' hhigh)
  omega

/-! ### Intervals -/

/-- The unit in which an interval is measured. -/
def Interval.unit (i : Interval) : ℚ :=
  i.num / i.den

/-- The ratio lies in the interval; at its ends only if it is closed. -/
def Interval.Contains (i : Interval) (v : ℚ) : Prop :=
  i.low * i.unit ≤ v ∧ v ≤ i.high * i.unit ∧
    (i.closed = false → i.low * i.unit < v ∧ v < i.high * i.unit)

/-- The magnitude is made of the exponent and the significand. -/
theorem magnitude_eq (x : Binary64) :
    (x.magnitude : Int) = (x.exponent + 1074) * 2 ^ 52 + x.significand ∧ -1074 ≤ x.exponent ∧
      x.significand < 2 ^ 53 ∧ (x.exponent ≠ -1074 → 2 ^ 52 ≤ x.significand) := by
  rw [exponent, significand]
  have hpow : (1 <<< 52 : Nat) = 2 ^ 52 := by decide
  simp only [hpow, Nat.shiftRight_eq_div_pow]
  split <;> omega

/-- A number that is not zero has a significand. -/
theorem significand_pos {x : Binary64} (hzero : x.isZero = false) : 0 < x.significand := by
  obtain ⟨hmagnitude, -, -, hnormal⟩ := magnitude_eq x
  rw [isZero] at hzero
  have : x.magnitude ≠ 0 := by simpa using hzero
  omega

/-- A finite number has an exponent that is not the greatest one. -/
theorem exponent_lt {x : Binary64} (hfinite : x.isFinite = true) : x.exponent < 972 := by
  obtain ⟨hmagnitude, -, -, hnormal⟩ := magnitude_eq x
  have hfinite : x.magnitude < infinityMagnitude := by simpa [isFinite] using hfinite
  rw [infinityMagnitude] at hfinite
  omega

/-- A number is made of its sign and its magnitude. -/
theorem ofMagnitude_magnitude (x : Binary64) : ofMagnitude x.isNegative x.magnitude = x := by
  have hbits : UInt64.ofNat (if x.isNegative then (1 <<< 63) + x.magnitude else x.magnitude)
      = x.bits := by
    have hlt := x.bits.toNat_lt
    have hhalf : (1 <<< 63 : Nat) = 2 ^ 63 := by decide
    apply UInt64.toNat_inj.mp
    rw [UInt64.toNat_ofNat', magnitude, hhalf]
    split
    · rename_i h
      have hge : 1 <<< 63 ≤ x.bits.toNat := of_decide_eq_true h
      rw [hhalf] at hge
      omega
    · rename_i h
      have hge : ¬1 <<< 63 ≤ x.bits.toNat := fun hle => h (decide_eq_true hle)
      rw [hhalf] at hge
      omega
  rw [ofMagnitude, hbits]

/-- The unit of the interval of a number. -/
theorem unit_interval (x : Binary64) : x.interval.unit = 2 ^ (x.exponent - 2) := by
  rw [Interval.unit, interval]
  dsimp only
  split
  · rename_i hq
    rw [← one_mul ((1 <<< (x.exponent - 2).toNat : Nat) : ℚ), cast_shiftLeft 1 hq]
    simp
  · rename_i hq
    rw [cast_shiftLeft 1 (by omega), Nat.cast_one, one_mul, one_div, ← zpow_neg, neg_neg]

/-- The number that a ratio is rounded to, given its scale. -/
theorem ofRatio_of_scale {num den r : Nat} {scale : Int} (hnum : 0 < num) (hden : 0 < den)
    (hscale : max (floorLog2 num den - 52) (-1074) = scale)
    (hlow : (r - 1 / 2 : ℚ) * 2 ^ scale ≤ num / den)
    (hhigh : (num / den : ℚ) ≤ (r + 1 / 2) * 2 ^ scale)
    (hodd : r % 2 = 1 → (r - 1 / 2 : ℚ) * 2 ^ scale < num / den ∧
      (num / den : ℚ) < (r + 1 / 2) * 2 ^ scale)
    (hfinite : (scale + 1074).toNat * 2 ^ 52 + r < infinityMagnitude) (negative : Bool) :
    ofRatio negative num den
      = ofMagnitude negative ((scale + 1074).toNat * 2 ^ 52 + r) := by
  rw [ofRatio, if_neg (by simpa using hnum.ne'), hscale]
  dsimp only
  rw [roundDiv_scaled hden hlow hhigh hodd, Nat.shiftLeft_eq, Nat.min_eq_left hfinite.le]

/-! ### Numbers and the ratios around them -/

/-- The interval of a number ends half a unit above it. -/
theorem high_interval (x : Binary64) : ((x.interval.high : Nat) : ℚ) * 2 ^ (x.exponent - 2)
    = (x.significand + 1 / 2) * 2 ^ x.exponent := by
  rw [interval, zpow_sub₀ (by norm_num)]
  push_cast
  ring

/-- The interval of a number begins no more than half a unit below it. -/
theorem le_low_interval (x : Binary64) : (x.significand - 1 / 2 : ℚ) * 2 ^ x.exponent
    ≤ ((x.interval.low : Nat) : ℚ) * 2 ^ (x.exponent - 2) := by
  have hle : 4 * x.significand ≤ x.interval.low + 2 := by
    rw [interval]
    dsimp only
    split <;> omega
  have hle : 4 * (x.significand : ℚ) ≤ x.interval.low + 2 := by exact_mod_cast hle
  have hsplit : (2 : ℚ) ^ x.exponent = 4 * 2 ^ (x.exponent - 2) := by
    rw [zpow_sub₀ (by norm_num)]
    ring
  rw [hsplit, ← mul_assoc]
  exact mul_le_mul_of_nonneg_right (by linarith) (zpow_pos_two _).le

/-- Below the least number with an exponent the units are half as large. -/
theorem low_interval_of_least {x : Binary64} (hm : x.significand = 2 ^ 52)
    (he : -1074 < x.exponent) : ((x.interval.low : Nat) : ℚ) * 2 ^ (x.exponent - 2)
      = (((2 ^ 53 : Nat) : ℚ) - 1 / 2) * 2 ^ (x.exponent - 1) := by
  have hlow : x.interval.low = 2 ^ 54 - 1 := by
    rw [interval]
    simp [hm, he]
  rw [hlow, zpow_sub₀ (by norm_num), zpow_sub₀ (by norm_num)]
  push_cast
  ring

section Ratio

variable {x : Binary64} {num den : Nat}

/-- A ratio in the interval of a number is less than twice the greatest number with the
    exponent. -/
theorem floorLog2_le (hnum : 0 < num) (hden : 0 < den)
    (hhigh : (num / den : ℚ) ≤ (x.significand + 1 / 2) * 2 ^ x.exponent) :
    floorLog2 num den ≤ x.exponent + 52 := by
  obtain ⟨-, -, hsignificand, -⟩ := magnitude_eq x
  have hm : (x.significand : ℚ) ≤ 2 ^ 53 - 1 := by
    have : x.significand + 1 ≤ 2 ^ 53 := hsignificand
    have : ((x.significand + 1 : Nat) : ℚ) ≤ ((2 ^ 53 : Nat) : ℚ) := Nat.cast_le.mpr this
    push_cast at this
    linarith
  have hlt : (2 : ℚ) ^ floorLog2 num den < 2 ^ (x.exponent + 53) := by
    calc (2 : ℚ) ^ floorLog2 num den ≤ num / den := (floorLog2_spec hnum hden).1
      _ ≤ (x.significand + 1 / 2) * 2 ^ x.exponent := hhigh
      _ < 2 ^ 53 * 2 ^ x.exponent := by
        refine mul_lt_mul_of_pos_right ?_ (zpow_pos_two _)
        linarith
      _ = 2 ^ (x.exponent + 53) := by
        rw [zpow_add₀ (by norm_num), mul_comm]
        norm_cast
  have := (zpow_lt_zpow_iff_right₀ (by norm_num)).mp hlt
  omega

/-- A ratio between the least number with an exponent and the one before it is rounded up, if it is
    not below their middle. -/
theorem ofRatio_of_least (hfinite : x.magnitude < infinityMagnitude) (hnum : 0 < num)
    (hden : 0 < den) (hm : x.significand = 2 ^ 52) (he : -1074 < x.exponent)
    (hless : (num / den : ℚ) < 2 ^ (x.exponent + 52))
    (hlow : ((x.interval.low : Nat) : ℚ) * 2 ^ (x.exponent - 2) ≤ num / den) (negative : Bool) :
    ofRatio negative num den = ofMagnitude negative x.magnitude := by
  obtain ⟨hmagnitude, -, -, -⟩ := magnitude_eq x
  rw [low_interval_of_least hm he] at hlow
  have hscale : max (floorLog2 num den - 52) (-1074) = x.exponent - 1 := by
    have hle : (2 : ℚ) ^ (x.exponent + 51) ≤ num / den := by
      refine le_trans ?_ hlow
      rw [show x.exponent + 51 = 52 + (x.exponent - 1) by ring, zpow_add₀ (by norm_num)]
      exact mul_le_mul_of_nonneg_right (by norm_num) (zpow_pos_two _).le
    rw [floorLog2_eq hnum hden hle (by rwa [show x.exponent + 51 + 1 = x.exponent + 52 by ring])]
    omega
  have hM : (x.exponent - 1 + 1074).toNat * 2 ^ 52 + 2 ^ 53 = x.magnitude := by omega
  have hnext : (num / den : ℚ) < (((2 ^ 53 : Nat) : ℚ) + 1 / 2) * 2 ^ (x.exponent - 1) := by
    refine hless.trans ?_
    rw [show x.exponent + 52 = 53 + (x.exponent - 1) by ring, zpow_add₀ (by norm_num)]
    exact mul_lt_mul_of_pos_right (by norm_num) (zpow_pos_two _)
  rw [ofRatio_of_scale hnum hden hscale hlow hnext.le (by norm_num) (by omega), hM]

/-- **A ratio is rounded to the number in whose interval it lies.** -/
theorem ofRatio_eq (hfinite : x.isFinite = true) (hnum : 0 < num) (hden : 0 < den)
    (h : x.interval.Contains (num / den)) (negative : Bool) :
    ofRatio negative num den = ofMagnitude negative x.magnitude := by
  obtain ⟨hmagnitude, hexponent, hsignificand, hnormal⟩ := magnitude_eq x
  have hfinite : x.magnitude < infinityMagnitude := by simpa [isFinite] using hfinite
  obtain ⟨hlow, hhigh, hopen⟩ := h
  rw [unit_interval] at hlow hhigh hopen
  rw [high_interval] at hhigh hopen
  by_cases hedge : x.significand = 2 ^ 52 ∧ -1074 < x.exponent ∧
      (num / den : ℚ) < 2 ^ (x.exponent + 52)
  · obtain ⟨hm, he, hless⟩ := hedge
    exact ofRatio_of_least hfinite hnum hden hm he hless hlow negative
  · -- Else the ratio has the exponent of the number.
    have hlowEnd := le_low_interval x
    have hclosed : x.significand % 2 = 1 → x.interval.closed = false := by
      intro hodd
      simp [interval, hodd]
    have hscale : max (floorLog2 num den - 52) (-1074) = x.exponent := by
      have hupper := floorLog2_le hnum hden hhigh
      rcases eq_or_ne x.exponent (-1074) with he | he
      · omega
      · have hle : (2 : ℚ) ^ (x.exponent + 52) ≤ num / den := by
          rcases eq_or_ne x.significand (2 ^ 52) with hm | hm
          · exact not_lt.mp fun hlt => hedge ⟨hm, by omega, hlt⟩
          · have hm : (2 ^ 52 + 1 : Nat) ≤ x.significand := by
              have := hnormal he
              omega
            have hm : (2 : ℚ) ^ (52 : Int) + 1 ≤ x.significand := by exact_mod_cast hm
            refine le_trans ?_ (hlowEnd.trans hlow)
            rw [add_comm, zpow_add₀ (by norm_num)]
            exact mul_le_mul_of_nonneg_right (by linarith) (zpow_pos_two _).le
        have hexact := floorLog2_eq hnum hden hle ((floorLog2_spec hnum hden).2.trans_le
          (zpow_le_zpow_right₀ (by norm_num) (by omega)))
        omega
    have hM : (x.exponent + 1074).toNat * 2 ^ 52 + x.significand = x.magnitude := by omega
    rw [ofRatio_of_scale hnum hden hscale (hlowEnd.trans hlow) hhigh
      (fun hodd => ⟨hlowEnd.trans_lt (hopen (hclosed hodd)).1, (hopen (hclosed hodd)).2⟩)
      (by omega), hM]

end Ratio

end DocRelay.Binary64

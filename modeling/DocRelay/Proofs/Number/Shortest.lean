import DocRelay.Proofs.Number.Rounding

namespace DocRelay.Binary64

/-!
# Shortest decimals lie in the interval

The search for the shortest decimal goes from coarse grids to fine ones.  A grid whose step is less
than half the width of the interval has a point in it, and the search gets to such a grid, so it
ends with a decimal that is rounded to the number.

* `contains_of_holds`, `holds_of_near` — the points of a grid in an interval;
* `exists_onGrid` — a grid that is fine enough;
* `shortest_contains` — the shortest decimal lies in the interval;
* `ofDecimal_eq` — a decimal in the interval is read as the number.
-/

theorem cast_pow_ten {k : Int} (h : 0 ≤ k) : ((10 ^ k.toNat : Nat) : ℚ) = 10 ^ k := by
  obtain ⟨k, rfl⟩ := Int.eq_ofNat_of_zero_le h
  rw [Int.toNat_natCast, zpow_natCast]
  exact Nat.cast_pow 10 k

/-- The two sides of a comparison on a grid are the unit and the step of the grid, times one
    factor. -/
theorem exists_factor (i : Interval) (hden : 0 < i.den) (power : Int) :
    ∃ factor : ℚ, 0 < factor ∧
      ((if 0 ≤ power then i.num else i.num * Nat.pow 10 (-power).toNat : Nat) : ℚ)
        = i.unit * factor ∧
      ((if 0 ≤ power then i.den * Nat.pow 10 power.toNat else i.den : Nat) : ℚ)
        = 10 ^ power * factor := by
  have hden' : (0 : ℚ) < i.den := Nat.cast_pos.mpr hden
  rw [Interval.unit]
  split
  · rename_i hpower
    refine ⟨i.den, hden', ?_, ?_⟩
    · rw [div_mul_cancel₀ _ hden'.ne']
    · rw [Nat.pow_eq, Nat.cast_mul, cast_pow_ten hpower, mul_comm]
  · rename_i hpower
    refine ⟨i.den * 10 ^ (-power), by positivity, ?_, ?_⟩
    · rw [Nat.pow_eq, Nat.cast_mul, cast_pow_ten (by omega), ← mul_assoc,
        div_mul_cancel₀ _ hden'.ne']
    · rw [zpow_neg, mul_left_comm, mul_inv_cancel₀ (by positivity), mul_one]

/-- A point of a grid that is found in an interval lies in it. -/
theorem contains_of_holds {i : Interval} {power : Int} {unit grid point : Nat} {factor : ℚ}
    (hfactor : 0 < factor) (hunit : (unit : ℚ) = i.unit * factor)
    (hgrid : (grid : ℚ) = 10 ^ power * factor) (h : i.holds unit grid point = true) :
    i.Contains (point * 10 ^ power) := by
  -- The comparisons are of naturals, which are the rationals scaled by one positive factor.
  have hside : ∀ a : Nat, ((a * unit : Nat) : ℚ) = a * i.unit * factor := by
    intro a
    rw [Nat.cast_mul, hunit, mul_assoc]
  have hpoint : ((point * grid : Nat) : ℚ) = point * 10 ^ power * factor := by
    rw [Nat.cast_mul, hgrid, mul_assoc]
  have hle : ∀ {a b : Nat} {v w : ℚ}, (a : ℚ) = v * factor → (b : ℚ) = w * factor →
      (a ≤ b ↔ v ≤ w) := by
    intro a b v w ha hb
    rw [← Nat.cast_le (α := ℚ), ha, hb, mul_le_mul_iff_left₀ hfactor]
  have hlt : ∀ {a b : Nat} {v w : ℚ}, (a : ℚ) = v * factor → (b : ℚ) = w * factor →
      (a < b ↔ v < w) := by
    intro a b v w ha hb
    rw [← Nat.cast_lt (α := ℚ), ha, hb, mul_lt_mul_iff_left₀ hfactor]
  rw [Interval.holds] at h
  split at h
  · rename_i hclosed
    simp only [Bool.and_eq_true, decide_eq_true_eq] at h
    refine ⟨(hle (hside _) hpoint).mp h.1, (hle hpoint (hside _)).mp h.2, fun hopen => ?_⟩
    rw [hopen] at hclosed
    cases hclosed
  · simp only [Bool.and_eq_true, decide_eq_true_eq] at h
    have hlow := (hlt (hside _) hpoint).mp h.1
    have hhigh := (hlt hpoint (hside _)).mp h.2
    exact ⟨hlow.le, hhigh.le, fun _ => ⟨hlow, hhigh⟩⟩

/-- A point of a grid that stands for a number is not zero and lies in the interval. -/
theorem contains_of_onGrid {i : Interval} (hden : 0 < i.den) {power : Int} {point : Nat}
    (h : i.onGrid power = some point) : 0 < point ∧ i.Contains (point * 10 ^ power) := by
  obtain ⟨factor, hfactor, hunit, hgrid⟩ := exists_factor i hden power
  rw [Interval.onGrid] at h
  generalize (if 0 ≤ power then i.num else i.num * Nat.pow 10 (-power).toNat) = unit at h hunit
  generalize (if 0 ≤ power then i.den * Nat.pow 10 power.toNat else i.den) = grid at h hgrid
  have hbelow : ∀ {below : Nat}, (i.holds unit grid below && decide (0 < below)) = true →
      0 < below ∧ i.Contains (below * 10 ^ power) := by
    intro below hboth
    rw [Bool.and_eq_true, decide_eq_true_eq] at hboth
    exact ⟨hboth.2, contains_of_holds hfactor hunit hgrid hboth.1⟩
  have habove : ∀ {below : Nat}, i.holds unit grid (below + 1) = true →
      0 < below + 1 ∧ i.Contains ((below + 1 : Nat) * 10 ^ power) := fun hholds =>
    ⟨Nat.succ_pos _, contains_of_holds hfactor hunit hgrid hholds⟩
  -- If the points on both sides of the number will do, the nearer one is taken.
  split at h
  · rename_i hfirst hsecond
    split at h
    · obtain rfl := Option.some.inj h
      exact hbelow hfirst
    · obtain rfl := Option.some.inj h
      exact habove hsecond
  · rename_i hfirst hsecond
    obtain rfl := Option.some.inj h
    exact hbelow hfirst
  · rename_i hfirst hsecond
    obtain rfl := Option.some.inj h
    exact habove hsecond
  · cases h

/-- **A fine grid has a point in the interval**: the one above the number. -/
theorem exists_onGrid {i : Interval} (hden : 0 < i.den) (hlow : i.low ≤ i.value)
    (hhigh : i.value + 2 ≤ i.high) {power : Int} (hfine : (10 : ℚ) ^ power < 2 * i.unit) :
    ∃ point, i.onGrid power = some point := by
  obtain ⟨factor, hfactor, hunit, hgrid⟩ := exists_factor i hden power
  rw [Interval.onGrid]
  generalize (if 0 ≤ power then i.num else i.num * Nat.pow 10 (-power).toNat) = unit at hunit ⊢
  generalize (if 0 ≤ power then i.den * Nat.pow 10 power.toNat else i.den) = grid at hgrid ⊢
  have hstep : grid < 2 * unit := by
    rw [← Nat.cast_lt (α := ℚ), Nat.cast_mul, hgrid, hunit, ← mul_assoc]
    exact mul_lt_mul_of_pos_right (by exact_mod_cast hfine) hfactor
  have hpos : 0 < grid := by
    rw [← Nat.cast_pos (α := ℚ), hgrid]
    positivity
  -- The point above the number is at most one step away, and a step is less than two units.
  have hholds : i.holds unit grid (i.value * unit / grid + 1) = true := by
    have hsplit : grid * (i.value * unit / grid) + i.value * unit % grid = i.value * unit :=
      Nat.div_add_mod _ _
    have hrest : i.value * unit % grid < grid := Nat.mod_lt _ hpos
    have hbase : grid * (i.value * unit / grid) ≤ i.value * unit := Nat.mul_div_le _ _
    generalize i.value * unit / grid = below at hsplit hbase ⊢
    have hleft : i.low * unit < (below + 1) * grid := by
      have : i.low * unit ≤ i.value * unit := Nat.mul_le_mul_right _ hlow
      nlinarith
    have hright : (below + 1) * grid < i.high * unit := by
      have : (i.value + 2) * unit ≤ i.high * unit := Nat.mul_le_mul_right _ hhigh
      nlinarith
    rw [Interval.holds]
    split <;> simp [hleft, hright, hleft.le, hright.le]
  rw [hholds]
  split <;> simp_all
  split <;> simp

/-- The search ends on a grid with a point in the interval if it gets to one. -/
theorem onGrid_search {i : Interval} {places : Nat} {start : Int} {steps : Nat}
    (hsteps : steps < places) {point : Nat} (h : i.onGrid (start - steps) = some point) :
    i.onGrid (i.search places start).power = some (i.search places start).coefficient := by
  induction places generalizing start steps with
  | zero => omega
  | succ places ih =>
    rw [Interval.search]
    cases hfirst : i.onGrid start with
    | some first => exact hfirst
    | none =>
      cases steps with
      | zero =>
        rw [Nat.cast_zero, sub_zero, hfirst] at h
        cases h
      | succ steps =>
        refine ih (Nat.lt_of_succ_lt_succ hsteps) ?_
        rw [← h]
        congr 1
        push_cast
        ring

/-- Ten to the power of a logarithm is not much more than the power of two, for ten exponents at a
    time. -/
theorem pow_ten_lt_pow_two : ∀ k < (210 : Nat),
    10 ^ (((10 * (k : Int) + 9 - 1074) * 30103 / 100000) + 379).toNat * 2 ^ 1200
      < 2 ^ (10 * k + 73) * 10 ^ 400 := by
  decide +kernel

theorem zpow_lt_of_pow_lt {a b c d : Nat} (h : 10 ^ a * 2 ^ b < 2 ^ c * 10 ^ d) :
    (10 : ℚ) ^ ((a : Int) - d) < 2 ^ ((c : Int) - b) := by
  rw [zpow_sub₀ (by norm_num), zpow_sub₀ (by norm_num),
    div_lt_div_iff₀ (by positivity) (by positivity)]
  exact_mod_cast h

/-- The last grid of the search is finer than half a step of the number. -/
theorem zpow_ten_lt_zpow_two {log2 : Int} (hlow : -1074 ≤ log2) (hhigh : log2 < 1024) :
    (10 : ℚ) ^ (log2 * 30103 / 100000 - 21) < 2 ^ (log2 - 53) := by
  obtain ⟨k, rest, hk, hrest, rfl⟩ : ∃ k rest : Nat, k < 210 ∧ rest < 10 ∧
      log2 = 10 * k + rest - 1074 :=
    ⟨(log2 + 1074).toNat / 10, (log2 + 1074).toNat % 10, by omega, by omega, by omega⟩
  calc (10 : ℚ) ^ ((10 * (k : Int) + rest - 1074) * 30103 / 100000 - 21)
      ≤ 10 ^ (((((10 * (k : Int) + 9 - 1074) * 30103 / 100000) + 379).toNat : Int)
          - (400 : Nat)) := zpow_le_zpow_right₀ (by norm_num) (by omega)
    _ < 2 ^ (((10 * k + 73 : Nat) : Int) - (1200 : Nat)) :=
        zpow_lt_of_pow_lt (pow_ten_lt_pow_two k hk)
    _ ≤ 2 ^ (10 * (k : Int) + rest - 1074 - 53) :=
        zpow_le_zpow_right₀ (by norm_num) (by omega)

/-- The reals that are rounded to a number are neither very small nor very large. -/
theorem bounds_of_contains {x : Binary64} (hfinite : x.isFinite = true) (hzero : x.isZero = false)
    {v : ℚ} (h : x.interval.Contains v) : 10 ^ (-330 : Int) < v ∧ v < 10 ^ (309 : Int) := by
  obtain ⟨-, hexponent, hsignificand, -⟩ := magnitude_eq x
  have hpos := significand_pos hzero
  have hbound := exponent_lt hfinite
  obtain ⟨hlow, hhigh, -⟩ := h
  rw [unit_interval] at hlow hhigh
  have hunit := zpow_pos_two (x.exponent - 2)
  constructor
  · -- The interval begins at one unit or later, and units are powers of two.
    have hleast : (1 : ℚ) ≤ (x.interval.low : Nat) := by
      have : 1 ≤ x.interval.low := by
        rw [interval]
        dsimp only
        split <;> omega
      exact_mod_cast this
    calc (10 : ℚ) ^ (-330 : Int) < 2 ^ (-1076 : Int) := by
          have hnat : 10 ^ 0 * 2 ^ 1076 < 2 ^ 0 * 10 ^ 330 := by decide +kernel
          have := zpow_lt_of_pow_lt hnat
          rwa [Nat.cast_zero, zero_sub, zero_sub] at this
      _ ≤ 2 ^ (x.exponent - 2) := zpow_le_zpow_right₀ (by norm_num) (by omega)
      _ ≤ (x.interval.low : Nat) * 2 ^ (x.exponent - 2) := le_mul_of_one_le_left hunit.le hleast
      _ ≤ v := hlow
  · -- Its end is a number of units of at most 55 bits.
    have hgreatest : ((x.interval.high : Nat) : ℚ) ≤ 2 ^ (55 : Int) := by
      have : x.interval.high ≤ 2 ^ 55 := by
        rw [interval]
        dsimp only
        omega
      exact_mod_cast this
    calc v ≤ (x.interval.high : Nat) * 2 ^ (x.exponent - 2) := hhigh
      _ ≤ 2 ^ (55 : Int) * 2 ^ (x.exponent - 2) := mul_le_mul_of_nonneg_right hgreatest hunit.le
      _ = 2 ^ (x.exponent + 53) := by
          rw [← zpow_add₀ (by norm_num)]
          congr 1
          ring
      _ ≤ 2 ^ (1024 : Int) := zpow_le_zpow_right₀ (by norm_num) (by omega)
      _ < 10 ^ (309 : Int) := by
          exact_mod_cast (by decide +kernel : (2 ^ 1024 : Nat) < 10 ^ 309)

/-- **The shortest decimal** is rounded to the number. -/
theorem shortest_contains {x : Binary64} (hfinite : x.isFinite = true) (hzero : x.isZero = false) :
    0 < x.shortest.coefficient ∧
      x.interval.Contains (x.shortest.coefficient * 10 ^ x.shortest.power) := by
  obtain ⟨hmagnitude, hexponent, hsignificand, hnormal⟩ := magnitude_eq x
  have hden : 0 < x.interval.den := by
    rw [interval]
    dsimp only
    split
    · exact Nat.one_pos
    · rw [Nat.one_shiftLeft]
      exact Nat.two_pow_pos _
  have hlow : x.interval.low ≤ x.interval.value := Nat.sub_le _ _
  have hhigh : x.interval.value + 2 ≤ x.interval.high := le_refl _
  -- The logarithm of the number tells its exponent.
  have hlog : Nat.log2 x.significand < 53 :=
    (Nat.log2_lt (significand_pos hzero).ne').mpr hsignificand
  have hbound := exponent_lt hfinite
  have hfine : (10 : ℚ) ^ (((Nat.log2 x.significand : Int) + x.exponent) * 30103 / 100000 + 2
      - (23 : Nat)) < 2 * x.interval.unit := by
    rw [unit_interval]
    calc (10 : ℚ) ^ (((Nat.log2 x.significand : Int) + x.exponent) * 30103 / 100000 + 2
          - (23 : Nat))
        = 10 ^ (((Nat.log2 x.significand : Int) + x.exponent) * 30103 / 100000 - 21) := by
          congr 1
          push_cast
          ring
      _ < 2 ^ ((Nat.log2 x.significand : Int) + x.exponent - 53) :=
          zpow_ten_lt_zpow_two (by omega) (by omega)
      _ ≤ 2 ^ (x.exponent - 1) := zpow_le_zpow_right₀ (by norm_num) (by omega)
      _ = 2 * 2 ^ (x.exponent - 2) := by
          rw [← zpow_one_add₀ (by norm_num)]
          congr 1
          ring
  obtain ⟨point, hpoint⟩ := exists_onGrid hden hlow hhigh hfine
  rw [shortest, if_neg (by simp [hzero])]
  exact contains_of_onGrid hden (onGrid_search (by norm_num) hpoint)

/-- **A decimal in the interval of a number is read as the number.** -/
theorem ofDecimal_eq {x : Binary64} (hfinite : x.isFinite = true) {coefficient : Nat}
    {power : Int} (hpos : 0 < coefficient) (h : x.interval.Contains (coefficient * 10 ^ power))
    (negative : Bool) :
    ofDecimal negative coefficient power = ofMagnitude negative x.magnitude := by
  rw [ofDecimal]
  split
  · rename_i hpower
    refine ofRatio_eq hfinite (Nat.mul_pos hpos (Nat.pow_pos (by norm_num))) Nat.one_pos
      ?_ negative
    rwa [Nat.cast_mul, cast_pow_ten hpower, Nat.cast_one, div_one]
  · rename_i hpower
    refine ofRatio_eq hfinite hpos (Nat.pow_pos (by norm_num)) ?_ negative
    rwa [cast_pow_ten (by omega), zpow_neg, div_inv_eq_mul]

end DocRelay.Binary64

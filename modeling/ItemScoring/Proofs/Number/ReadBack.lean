import ItemScoring.Number.Shortest
import ItemScoring.Proofs.Number.Nearest

/-!
# Decimals that read back

The pattern of a decimal depends on its value alone (`Decimal.pattern_congr`): the
two shortcuts of `Decimal.pattern` agree with rounding (`pattern_eq_nearest`), so
that digits may be moved between the integer and the power of ten at will.

The search for the fewest digits only returns what was seen to read back, and its
fallback is the exact value, so `shortest` reads back (`pattern_shortest`) whether or
not the search finds anything.
-/

namespace ItemScoring.Decimal

open Binary64

/-! ### Values -/

/-- The magnitude that a decimal stands for. -/
def value (x : Decimal) : ℚ := x.digits * 10 ^ x.exponent

theorem value_eq_zero_iff {x : Decimal} : x.value = 0 ↔ x.digits = 0 := by
  have hpow : (10 : ℚ) ^ x.exponent ≠ 0 := zpow_ne_zero _ (by norm_num)
  rw [value, mul_eq_zero, or_iff_left hpow]
  exact_mod_cast Iff.rfl

theorem scaleDown_value (x : Decimal) :
    ((scaleDown 10 x.digits 1 (-x.exponent)).1 : ℚ) / (scaleDown 10 x.digits 1 (-x.exponent)).2 =
      x.value := by
  have hscaled := @scaleDown_div 10 x.digits 1 (by norm_num) (-x.exponent)
  rw [hscaled, value, zpow_neg, div_inv_eq_mul]
  simp

theorem two_zpow_le_ten_zpow : (2 : ℚ) ^ (1203 : Int) ≤ 10 ^ (401 : Int) := by
  have hpow : (2 : ℚ) ^ (3 * 401) ≤ 10 ^ 401 := by
    rw [pow_mul]
    exact pow_le_pow_left₀ (by norm_num) (by norm_num) 401
  exact hpow

/-- Above the first shortcut, a decimal is beyond the greatest double. -/
theorem le_value_of_exponent {x : Decimal} (hdigits : x.digits ≠ 0) (h : 400 < x.exponent) :
    (2 : ℚ) ^ 1024 ≤ x.value := by
  have hone : (1 : ℚ) ≤ x.digits := by exact_mod_cast Nat.one_le_iff_ne_zero.mpr hdigits
  calc (2 : ℚ) ^ (1024 : Int) ≤ 2 ^ (1203 : Int) :=
        zpow_le_zpow_right₀ (by norm_num) (by norm_num)
    _ ≤ 10 ^ (401 : Int) := two_zpow_le_ten_zpow
    _ ≤ 10 ^ x.exponent := zpow_le_zpow_right₀ (by norm_num) (by omega)
    _ ≤ x.digits * 10 ^ x.exponent := le_mul_of_one_le_left (zpow_pos (by norm_num) _).le hone

/-- Below the second shortcut, a decimal is less than half of the least double. -/
theorem value_lt_of_exponent {x : Decimal} (hdigits : x.digits ≠ 0)
    (h : x.exponent + x.digits.log2 < -400) : x.value < 2 ^ (-1075 : Int) := by
  have hten : (10 : ℚ) ≠ 0 := by norm_num
  have hpow : (0 : ℚ) < 10 ^ x.exponent := zpow_pos (by norm_num) _
  have hdigits' : (x.digits : ℚ) < 2 ^ ((x.digits.log2 : Int) + 1) :=
    (zpow_log2_bounds (Nat.pos_of_ne_zero hdigits)).2
  have hlog : (2 : ℚ) ^ (x.digits.log2 : Int) ≤ 10 ^ (x.digits.log2 : Int) := by
    rw [zpow_natCast, zpow_natCast]
    exact pow_le_pow_left₀ (by norm_num) (by norm_num) _
  calc x.value < 2 ^ ((x.digits.log2 : Int) + 1) * 10 ^ x.exponent :=
        mul_lt_mul_of_pos_right hdigits' hpow
    _ = 2 * (2 ^ (x.digits.log2 : Int) * 10 ^ x.exponent) := by
        rw [zpow_add_one₀ (by norm_num)]
        ring
    _ ≤ 2 * (10 ^ (x.digits.log2 : Int) * 10 ^ x.exponent) := by
        apply mul_le_mul_of_nonneg_left _ (by norm_num)
        exact mul_le_mul_of_nonneg_right hlog hpow.le
    _ = 2 * 10 ^ (x.exponent + x.digits.log2) := by
        rw [← zpow_add₀ hten, add_comm]
    _ ≤ 2 * 10 ^ (-401 : Int) := by
        apply mul_le_mul_of_nonneg_left _ (by norm_num)
        exact zpow_le_zpow_right₀ (by norm_num) (by omega)
    _ ≤ 2 * 2 ^ (-1203 : Int) := by
        apply mul_le_mul_of_nonneg_left _ (by norm_num)
        rw [zpow_neg, zpow_neg]
        exact inv_anti₀ (zpow_pos (by norm_num) _) two_zpow_le_ten_zpow
    _ = 2 ^ (-1202 : Int) := by
        rw [← zpow_one_add₀ (by norm_num)]
        rfl
    _ < 2 ^ (-1075 : Int) := zpow_lt_zpow_right₀ (by norm_num) (by norm_num)

/-! ### Patterns of values -/

/-- The shortcuts for decimals outside the range of doubles agree with rounding. -/
theorem pattern_eq_nearest (x : Decimal) :
    x.pattern = nearest (scaleDown 10 x.digits 1 (-x.exponent)).1
      (scaleDown 10 x.digits 1 (-x.exponent)).2 := by
  have hden := @scaleDown_pos 10 x.digits 1 (by norm_num) Nat.one_pos (-x.exponent)
  have hvalue := scaleDown_value x
  rw [pattern]
  by_cases hdigits : x.digits = 0
  · rw [if_pos hdigits, nearest_of_small hden]
    rw [hvalue, value_eq_zero_iff.mpr hdigits]
    exact zpow_pos (by norm_num) _
  · rw [if_neg hdigits]
    split
    next hlarge =>
      rw [nearest_of_large hden]
      rw [hvalue]
      exact le_value_of_exponent hdigits hlarge
    next =>
      split
      next hsmall =>
        rw [nearest_of_small hden]
        rw [hvalue]
        exact value_lt_of_exponent hdigits hsmall
      next => rfl

/-- Decimals of one value have one pattern. -/
theorem pattern_congr {x y : Decimal} (h : x.value = y.value) : x.pattern = y.pattern := by
  rw [pattern_eq_nearest, pattern_eq_nearest]
  apply nearest_congr (scaleDown_pos (by norm_num) Nat.one_pos _)
    (scaleDown_pos (by norm_num) Nat.one_pos _)
  rw [scaleDown_value, scaleDown_value, h]

/-- A decimal with the value of a finite pattern has that pattern. -/
theorem pattern_of_value {x : Decimal} {p : Nat} (hp : p < infinity)
    (h : x.value = significand p * 2 ^ Binary64.exponent p) : x.pattern = p := by
  rw [pattern_eq_nearest]
  apply nearest_of_value hp (scaleDown_pos (by norm_num) Nat.one_pos _)
  rw [scaleDown_value, h]

/-! ### The search -/

theorem readsBack_of_neighbour? {tie : Tie} {p digits : Nat} {grid : Int}
    (h : neighbour? tie p grid = some digits) : readsBack p digits grid = true := by
  -- In every branch that returns a neighbour, this neighbour was seen to read back.
  simp only [neighbour?] at h
  split at h
  next => contradiction
  next hfloor _ =>
    obtain rfl := Option.some.inj h
    exact hfloor
  next _ habove =>
    obtain rfl := Option.some.inj h
    exact habove
  next hfloor habove =>
    split at h
    · obtain rfl := Option.some.inj h
      exact hfloor
    · split at h
      · obtain rfl := Option.some.inj h
        exact habove
      · cases tie with
        | up =>
            obtain rfl := Option.some.inj h
            exact habove
        | even =>
            obtain rfl := Option.some.inj h
            split
            · exact hfloor
            · exact habove

theorem readsBack_of_search? {tie : Tie} {p count : Nat} {scale : Int} {found : Nat × Int}
    (h : search? tie p scale count = some found) : readsBack p found.1 found.2 = true := by
  induction count generalizing scale with
  | zero => simp [search?] at h
  | succ count ih =>
      rw [search?] at h
      split at h
      next digits hdigits =>
        obtain rfl := Option.some.inj h
        exact readsBack_of_neighbour? hdigits
      next => exact ih h

/-! ### The exact value -/

theorem value_exact (p : Nat) (negative : Bool) :
    (Decimal.mk negative (exact p).1 (exact p).2).value =
      significand p * 2 ^ Binary64.exponent p := by
  simp only [value, exact]
  split
  next e he =>
    have hpow : Nat.pow 2 e = 2 ^ e := rfl
    rw [he, hpow]
    simp
  next e he =>
    have hpow : Nat.pow 5 (e + 1) = 5 ^ (e + 1) := rfl
    have hten : (10 : ℚ) ^ (e + 1) = 5 ^ (e + 1) * 2 ^ (e + 1) := by
      rw [← mul_pow]
      norm_num
    rw [he, hpow, zpow_negSucc, zpow_negSucc, hten]
    push_cast
    field_simp

/-- Zeros at the end of the digits may be moved into the power of ten. -/
theorem value_dropZeros (negative : Bool) (count digits : Nat) (exponent : Int) :
    (Decimal.mk negative (dropZeros count digits exponent).1
      (dropZeros count digits exponent).2).value = (Decimal.mk negative digits exponent).value := by
  induction count generalizing digits exponent with
  | zero => rfl
  | succ count ih =>
      rw [dropZeros]
      split
      next hzero =>
        have hdigits : digits = 10 * (digits / 10) := by omega
        rw [ih, value, value]
        dsimp only
        conv_rhs => rw [hdigits]
        rw [zpow_add_one₀ (by norm_num)]
        push_cast
        ring
      next => rfl

/-- The fewest digits of a finite pattern read back as that pattern. -/
theorem pattern_shortest (negative : Bool) (tie : Tie) {p : Nat} (hp : p < infinity) :
    (Decimal.mk negative (shortest tie p).1 (shortest tie p).2).pattern = p := by
  have hchosen : ∀ chosen : Nat × Int,
      (Decimal.mk negative chosen.1 chosen.2).pattern = p →
      (Decimal.mk negative (dropZeros chosen.1.log2 chosen.1 chosen.2).1
        (dropZeros chosen.1.log2 chosen.1 chosen.2).2).pattern = p := by
    intro chosen hback
    rw [← hback]
    exact pattern_congr (value_dropZeros negative _ _ _)
  have hshortest : shortest tie p = dropZeros
      ((search? tie p (scaleAbove (ratio p).1 (ratio p).2) 17).getD (exact p)).1.log2
      ((search? tie p (scaleAbove (ratio p).1 (ratio p).2) 17).getD (exact p)).1
      ((search? tie p (scaleAbove (ratio p).1 (ratio p).2) 17).getD (exact p)).2 := rfl
  rw [hshortest]
  apply hchosen
  cases hsearch : search? tie p (scaleAbove (ratio p).1 (ratio p).2) 17 with
  | none => exact pattern_of_value hp (value_exact p negative)
  | some found =>
      have hback := readsBack_of_search? hsearch
      simp only [readsBack, beq_iff_eq] at hback
      exact hback

end ItemScoring.Decimal

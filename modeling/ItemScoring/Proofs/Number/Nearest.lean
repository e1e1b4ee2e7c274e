import Mathlib.Data.Int.Log
import Mathlib.Data.Rat.Floor
import Mathlib.Tactic.Linarith
import Mathlib.Tactic.NormNum
import Mathlib.Tactic.Positivity
import Mathlib.Tactic.FieldSimp
import Mathlib.Tactic.Ring
import ItemScoring.Number.Binary64

/-!
# The nearest pattern

`Binary64.nearest` is computed from a numerator and a denominator, but it only
depends on the ratio of the two (`nearest_congr`).  The integer computation is
followed step by step in the rationals: scaling divides by a power
(`scaleDown_div`), and `floorLog` is the integer part of the binary logarithm
(`floorLog_eq_log`).

Three kinds of ratios have a nearest pattern that can be named outright: those of
the finite patterns themselves (`nearest_ratio`), those beyond the greatest double
(`nearest_of_large`) and those below half of the least (`nearest_of_small`).
-/

namespace ItemScoring.Binary64

/-! ### Scaling -/

theorem scaleDown_pos {base num den : Nat} (hbase : 0 < base) (hden : 0 < den) (e : Int) :
    0 < (scaleDown base num den e).2 := by
  cases e with
  | ofNat e => exact Nat.mul_pos hden (Nat.pow_pos hbase)
  | negSucc e => exact hden

/-- Scaling down divides by a power. -/
theorem scaleDown_div {base num den : Nat} (hbase : 0 < base) (e : Int) :
    ((scaleDown base num den e).1 : ℚ) / (scaleDown base num den e).2 =
      (num : ℚ) / den / (base : ℚ) ^ e := by
  have hne : (base : ℚ) ≠ 0 := by positivity
  cases e with
  | ofNat e =>
      have hpow : Nat.pow base e = base ^ e := rfl
      simp only [scaleDown, hpow, Nat.cast_mul, Nat.cast_pow, Int.ofNat_eq_natCast, zpow_natCast]
      rw [div_div]
  | negSucc e =>
      have hpow : Nat.pow base (e + 1) = base ^ (e + 1) := rfl
      simp only [scaleDown, hpow, Nat.cast_mul, Nat.cast_pow, zpow_negSucc, div_inv_eq_mul]
      ring

/-! ### Rounding -/

theorem roundHalfEven_mul {num den k : Nat} (hk : 0 < k) :
    roundHalfEven (num * k) (den * k) = roundHalfEven num den := by
  have hlt : 2 * (num % den * k) < den * k ↔ 2 * (num % den) < den := by
    rw [← Nat.mul_assoc]
    exact Nat.mul_lt_mul_right hk
  have heq : 2 * (num % den * k) = den * k ↔ 2 * (num % den) = den := by
    rw [← Nat.mul_assoc]
    exact Nat.mul_left_inj hk.ne'
  simp only [roundHalfEven, Nat.mul_div_mul_right _ _ hk, Nat.mul_mod_mul_right, hlt, heq]

/-- Equal ratios are equal products crosswise. -/
theorem cross_of_div_eq {num den num' den' : Nat} (hden : 0 < den) (hden' : 0 < den')
    (h : (num : ℚ) / den = num' / den') : num * den' = num' * den := by
  have hne : (den : ℚ) ≠ 0 := by positivity
  have hne' : (den' : ℚ) ≠ 0 := by positivity
  rw [div_eq_div_iff hne hne'] at h
  exact_mod_cast h

theorem roundHalfEven_congr {num den num' den' : Nat} (hden : 0 < den) (hden' : 0 < den')
    (h : (num : ℚ) / den = num' / den') : roundHalfEven num den = roundHalfEven num' den' := by
  calc roundHalfEven num den
      = roundHalfEven (num * den') (den * den') := (roundHalfEven_mul hden').symm
    _ = roundHalfEven (num' * den) (den' * den) := by
        rw [cross_of_div_eq hden hden' h, Nat.mul_comm den den']
    _ = roundHalfEven num' den' := roundHalfEven_mul hden

theorem roundHalfEven_one (num : Nat) : roundHalfEven num 1 = num := by
  simp [roundHalfEven, Nat.mod_one]

/-- Rounding does not go below a natural number that the ratio reaches. -/
theorem le_roundHalfEven {num den k : Nat} (hden : 0 < den) (h : (k : ℚ) ≤ num / den) :
    k ≤ roundHalfEven num den := by
  have hfloor : k ≤ num / den := by
    rw [Nat.le_div_iff_mul_le hden]
    have hpos : (0 : ℚ) < den := by positivity
    rw [le_div_iff₀ hpos] at h
    exact_mod_cast h
  simp only [roundHalfEven]
  split <;> omega

/-- What is below one half rounds to zero. -/
theorem roundHalfEven_eq_zero {num den : Nat} (hden : 0 < den) (h : (num : ℚ) / den < 1 / 2) :
    roundHalfEven num den = 0 := by
  have hpos : (0 : ℚ) < den := by positivity
  have hlt : 2 * num < den := by
    rw [div_lt_iff₀ hpos] at h
    have : (2 * num : ℚ) < den := by linarith
    exact_mod_cast this
  have hfloor : num / den = 0 := Nat.div_eq_of_lt (by omega)
  have hmod : num % den = num := Nat.mod_eq_of_lt (by omega)
  simp [roundHalfEven, hfloor, hmod, hlt]

/-! ### Logarithms -/

theorem cast_div_pos {num den : Nat} (hnum : 0 < num) (hden : 0 < den) : (0 : ℚ) < num / den :=
  div_pos (by exact_mod_cast hnum) (by exact_mod_cast hden)

/-- A positive number lies between the powers of two that its bit length names. -/
theorem zpow_log2_bounds {n : Nat} (hn : 0 < n) :
    (2 : ℚ) ^ (n.log2 : Int) ≤ n ∧ (n : ℚ) < 2 ^ ((n.log2 : Int) + 1) := by
  have hle : 2 ^ n.log2 ≤ n := Nat.log2_self_le hn.ne'
  have hlt : n < 2 ^ (n.log2 + 1) := (Nat.log2_lt hn.ne').mp (Nat.lt_succ_self _)
  constructor
  · rw [zpow_natCast]
    exact_mod_cast hle
  · have hcast : ((n.log2 : Int) + 1) = ((n.log2 + 1 : Nat) : Int) := by push_cast; rfl
    rw [hcast, zpow_natCast]
    exact_mod_cast hlt

/-- The estimate of the logarithm by bit lengths is at most one too great. -/
theorem log_div_bounds {num den : Nat} (hnum : 0 < num) (hden : 0 < den) :
    (num.log2 : Int) - den.log2 - 1 ≤ Int.log 2 ((num : ℚ) / den) ∧
      Int.log 2 ((num : ℚ) / den) ≤ (num.log2 : Int) - den.log2 := by
  have hr := cast_div_pos hnum hden
  have hden' : (0 : ℚ) < den := by exact_mod_cast hden
  have htwo : (2 : ℚ) ≠ 0 := by norm_num
  -- Each of the two numbers lies within a factor of two above its power.
  obtain ⟨hnumle, hnumlt⟩ := zpow_log2_bounds hnum
  obtain ⟨hdenle, hdenlt⟩ := zpow_log2_bounds hden
  constructor
  · rw [← Int.zpow_le_iff_le_log (by norm_num) hr, le_div_iff₀ hden']
    have hpos : (0 : ℚ) < 2 ^ ((num.log2 : Int) - den.log2 - 1) := zpow_pos (by norm_num) _
    calc ((2 : ℕ) : ℚ) ^ ((num.log2 : Int) - den.log2 - 1) * den
        ≤ (2 : ℚ) ^ ((num.log2 : Int) - den.log2 - 1) * 2 ^ ((den.log2 : Int) + 1) := by
          push_cast
          exact mul_le_mul_of_nonneg_left hdenlt.le hpos.le
      _ = 2 ^ (num.log2 : Int) := by
          rw [← zpow_add₀ htwo]
          congr 1
          ring
      _ ≤ num := hnumle
  · have hlt : Int.log 2 ((num : ℚ) / den) < (num.log2 : Int) - den.log2 + 1 := by
      rw [← Int.lt_zpow_iff_log_lt (by norm_num) hr, div_lt_iff₀ hden']
      have hpos : (0 : ℚ) < 2 ^ ((num.log2 : Int) - den.log2 + 1) := zpow_pos (by norm_num) _
      calc (num : ℚ) < 2 ^ ((num.log2 : Int) + 1) := hnumlt
        _ = 2 ^ ((num.log2 : Int) - den.log2 + 1) * 2 ^ (den.log2 : Int) := by
            rw [← zpow_add₀ htwo]
            congr 1
            ring
        _ ≤ ((2 : ℕ) : ℚ) ^ ((num.log2 : Int) - den.log2 + 1) * den := by
            push_cast
            exact mul_le_mul_of_nonneg_left hdenle hpos.le
    omega

theorem floorLog_eq_log {num den : Nat} (hnum : 0 < num) (hden : 0 < den) :
    floorLog num den = Int.log 2 ((num : ℚ) / den) := by
  have hr := cast_div_pos hnum hden
  obtain ⟨hlow, hhigh⟩ := log_div_bounds hnum hden
  have hscaled := @scaleDown_div 2 num den (by norm_num) ((num.log2 : Int) - den.log2)
  have hpos := @scaleDown_pos 2 num den (by norm_num) hden ((num.log2 : Int) - den.log2)
  simp only [floorLog]
  generalize scaleDown 2 num den ((num.log2 : Int) - den.log2) = scaled at hscaled hpos
  obtain ⟨n, d⟩ := scaled
  have hcast : (0 : ℚ) < d := by exact_mod_cast hpos
  -- The logarithm is one of two neighbours, and the comparison tells which.
  have htest : d ≤ n ↔ (num.log2 : Int) - den.log2 ≤ Int.log 2 ((num : ℚ) / den) := by
    have hone : d ≤ n ↔ (1 : ℚ) ≤ (n : ℚ) / d := by
      rw [one_le_div hcast]
      exact_mod_cast Iff.rfl
    have hpow : (0 : ℚ) < ((2 : ℕ) : ℚ) ^ ((num.log2 : Int) - den.log2) := zpow_pos (by norm_num) _
    rw [hone, hscaled, one_le_div hpow, Int.zpow_le_iff_le_log (by norm_num) hr]
  split
  next hle =>
    have := htest.mp hle
    omega
  next hgt =>
    have := mt htest.mpr hgt
    omega

/-! ### Nearest patterns -/

/-- The power of two by which a ratio is scaled before it is rounded. -/
def roundingExponent (r : ℚ) : Int := max (-1074) (Int.log 2 r - 52)

/-- The nearest pattern, with the scaled ratio in view. -/
theorem nearest_eq {num den n d : Nat} (hnum : 0 < num) (hden : 0 < den) (hd : 0 < d)
    (h : (n : ℚ) / d = (num : ℚ) / den / 2 ^ roundingExponent ((num : ℚ) / den)) :
    nearest num den = min infinity
      ((roundingExponent ((num : ℚ) / den) + 1074).toNat * binade + roundHalfEven n d) := by
  rw [nearest, if_neg hnum.ne', floorLog_eq_log hnum hden]
  have hpos := @scaleDown_pos 2 num den (by norm_num) hden (roundingExponent ((num : ℚ) / den))
  have hscaled := @scaleDown_div 2 num den (by norm_num) (roundingExponent ((num : ℚ) / den))
  have hround := roundHalfEven_congr hpos hd (hscaled.trans (by exact_mod_cast h.symm))
  simp only [roundingExponent] at hround ⊢
  rw [hround]

/-- The nearest pattern depends on the ratio alone. -/
theorem nearest_congr {num den num' den' : Nat} (hden : 0 < den) (hden' : 0 < den')
    (h : (num : ℚ) / den = num' / den') : nearest num den = nearest num' den' := by
  have hcross := cross_of_div_eq hden hden' h
  rcases Nat.eq_zero_or_pos num with rfl | hnum
  · have hzero : num' = 0 := by
      rw [Nat.zero_mul, eq_comm, Nat.mul_eq_zero] at hcross
      omega
    rw [hzero, nearest, nearest, if_pos rfl, if_pos rfl]
  · have hnum' : 0 < num' := by
      apply Nat.pos_of_ne_zero
      intro heq
      subst heq
      rw [Nat.zero_mul, Nat.mul_eq_zero] at hcross
      omega
    have hpos := @scaleDown_pos 2 num den (by norm_num) hden (roundingExponent ((num : ℚ) / den))
    have hscaled := @scaleDown_div 2 num den (by norm_num) (roundingExponent ((num : ℚ) / den))
    rw [Nat.cast_ofNat] at hscaled
    rw [nearest_eq hnum hden hpos hscaled, nearest_eq hnum' hden' hpos (by rw [← h, hscaled]), h]

/-! ### Ratios outside the range of doubles -/

theorem log_eq_of_bounds {r : ℚ} {e : Int} (hle : (2 : ℚ) ^ e ≤ r) (hlt : r < 2 ^ (e + 1)) :
    Int.log 2 r = e := by
  have hr : 0 < r := lt_of_lt_of_le (zpow_pos (by norm_num) _) hle
  have hge : e ≤ Int.log 2 r := (Int.zpow_le_iff_le_log (by norm_num) hr).mp (by exact_mod_cast hle)
  have hlt' : Int.log 2 r < e + 1 :=
    (Int.lt_zpow_iff_log_lt (by norm_num) hr).mp (by exact_mod_cast hlt)
  omega

theorem binade_eq : binade = 2 ^ 52 := rfl

theorem infinity_eq : infinity = 2047 * 2 ^ 52 := rfl

/-- From twice the greatest power of two on, the nearest pattern is that of infinity. -/
theorem nearest_of_large {num den : Nat} (hden : 0 < den) (h : (2 : ℚ) ^ 1024 ≤ num / den) :
    nearest num den = infinity := by
  have hden' : (0 : ℚ) < den := by exact_mod_cast hden
  have hr : (0 : ℚ) < num / den := lt_of_lt_of_le (by positivity) h
  have hnum : 0 < num := by
    have : (0 : ℚ) < num := by
      rw [lt_div_iff₀ hden', zero_mul] at hr
      exact hr
    exact_mod_cast this
  have hlog : (1024 : Int) ≤ Int.log 2 ((num : ℚ) / den) := by
    rw [← Int.zpow_le_iff_le_log (by norm_num) hr]
    exact_mod_cast h
  have hexponent : roundingExponent ((num : ℚ) / den) = Int.log 2 ((num : ℚ) / den) - 52 :=
    max_eq_right (by omega)
  have hpos := @scaleDown_pos 2 num den (by norm_num) hden (roundingExponent ((num : ℚ) / den))
  have hscaled := @scaleDown_div 2 num den (by norm_num) (roundingExponent ((num : ℚ) / den))
  rw [Nat.cast_ofNat] at hscaled
  -- The quotient has 53 bits before rounding, and rounding does not take any away.
  have hround : 2 ^ 52 ≤ roundHalfEven
      (scaleDown 2 num den (roundingExponent ((num : ℚ) / den))).1
      (scaleDown 2 num den (roundingExponent ((num : ℚ) / den))).2 := by
    apply le_roundHalfEven hpos
    rw [hscaled, hexponent, le_div_iff₀ (zpow_pos (by norm_num) _)]
    have hself := Int.zpow_log_le_self (R := ℚ) (by norm_num : 1 < 2) hr
    have htwo : (2 : ℚ) ≠ 0 := by norm_num
    calc ((2 ^ 52 : Nat) : ℚ) * 2 ^ (Int.log 2 ((num : ℚ) / den) - 52)
        = 2 ^ (52 : Int) * 2 ^ (Int.log 2 ((num : ℚ) / den) - 52) := by norm_num
      _ = 2 ^ Int.log 2 ((num : ℚ) / den) := by
          rw [← zpow_add₀ htwo]
          congr 1
          ring
      _ ≤ num / den := by exact_mod_cast hself
  rw [nearest_eq hnum hden hpos hscaled, hexponent, infinity_eq, binade_eq]
  rw [hexponent] at hround
  omega

/-- Below half of the least positive double, the nearest pattern is that of zero. -/
theorem nearest_of_small {num den : Nat} (hden : 0 < den)
    (h : (num : ℚ) / den < 2 ^ (-1075 : Int)) : nearest num den = 0 := by
  rcases Nat.eq_zero_or_pos num with rfl | hnum
  · rw [nearest, if_pos rfl]
  · have hr := cast_div_pos hnum hden
    have hlog : Int.log 2 ((num : ℚ) / den) < -1075 :=
      (Int.lt_zpow_iff_log_lt (by norm_num) hr).mp (by exact_mod_cast h)
    have hexponent : roundingExponent ((num : ℚ) / den) = -1074 := max_eq_left (by omega)
    have hpos := @scaleDown_pos 2 num den (by norm_num) hden (-1074)
    have hscaled := @scaleDown_div 2 num den (by norm_num) (-1074)
    rw [Nat.cast_ofNat] at hscaled
    -- The quotient is less than half of the least step.
    have hround : roundHalfEven (scaleDown 2 num den (-1074)).1 (scaleDown 2 num den (-1074)).2 =
        0 := by
      apply roundHalfEven_eq_zero hpos
      rw [hscaled, div_lt_iff₀ (zpow_pos (by norm_num) _)]
      calc (num : ℚ) / den < 2 ^ (-1075 : Int) := h
        _ = 2 ^ (-1 : Int) * 2 ^ (-1074 : Int) := by
            rw [← zpow_add₀ (by norm_num)]
            rfl
        _ = 1 / 2 * 2 ^ (-1074 : Int) := by rw [zpow_neg_one, one_div]
    rw [nearest_eq hnum hden hpos (by rw [hexponent, hscaled]), hexponent, hround]
    simp

/-! ### Values of patterns -/

/-- Values of finite patterns are rounded at their own exponent. -/
theorem roundingExponent_value {p : Nat} (hpos : 0 < p) :
    roundingExponent (significand p * 2 ^ exponent p) = exponent p := by
  have htwo : (2 : ℚ) ≠ 0 := by norm_num
  have hscale : ∀ e : Int, (0 : ℚ) < 2 ^ e := fun e => zpow_pos (by norm_num) e
  by_cases hsmall : p < binade
  · -- The exponent of a small pattern is the least one.
    have hexponent : exponent p = -1074 := by simp [exponent, hsmall]
    have hr : (0 : ℚ) < significand p * 2 ^ exponent p := by
      have : (0 : ℚ) < p := by exact_mod_cast hpos
      simp only [significand, hsmall, if_true]
      exact mul_pos this (hscale _)
    have hlog : Int.log 2 ((significand p : ℚ) * 2 ^ exponent p) < -1022 := by
      rw [← Int.lt_zpow_iff_log_lt (by norm_num) hr, hexponent]
      simp only [significand, hsmall, if_true]
      calc (p : ℚ) * 2 ^ (-1074 : Int) < 2 ^ (52 : Int) * 2 ^ (-1074 : Int) := by
            apply mul_lt_mul_of_pos_right _ (hscale _)
            exact_mod_cast hsmall
        _ = ((2 : ℕ) : ℚ) ^ (-1022 : Int) := by
            rw [← zpow_add₀ htwo]
            norm_num
    rw [roundingExponent, hexponent]
    rw [hexponent] at hlog
    exact max_eq_left (by omega)
  · have hge : binade ≤ p := Nat.le_of_not_lt hsmall
    have hexponent : exponent p = (p / binade : Nat) - 1075 := by simp [exponent, hsmall]
    have hsignificand : significand p = binade + p % binade := by simp [significand, hsmall]
    have hquotient : 1 ≤ p / binade := (Nat.one_le_div_iff (by decide)).mpr hge
    have hmod : p % binade < binade := Nat.mod_lt _ (by decide)
    have hlog : Int.log 2 ((significand p : ℚ) * 2 ^ exponent p) = 52 + exponent p := by
      apply log_eq_of_bounds
      · rw [zpow_add₀ htwo]
        apply mul_le_mul_of_nonneg_right _ (hscale _).le
        rw [hsignificand]
        exact_mod_cast Nat.le_add_right binade (p % binade)
      · rw [add_right_comm, zpow_add₀ htwo]
        apply mul_lt_mul_of_pos_right _ (hscale _)
        rw [hsignificand, binade_eq]
        have : binade + p % binade < 2 ^ 53 := by
          rw [binade_eq] at hmod ⊢
          omega
        exact_mod_cast this
    rw [roundingExponent, hlog]
    have : exponent p = 52 + exponent p - 52 := by ring
    rw [← this]
    exact max_eq_right (by omega)

theorem significand_pos {p : Nat} (hpos : 0 < p) : 0 < significand p := by
  rw [significand]
  split
  · exact hpos
  · exact Nat.lt_of_lt_of_le (by decide) (Nat.le_add_right binade _)

/-- The ratio of a finite pattern is nearest to that pattern. -/
theorem nearest_of_value {p num den : Nat} (hp : p < infinity) (hden : 0 < den)
    (h : (num : ℚ) / den = significand p * 2 ^ exponent p) : nearest num den = p := by
  have hden' : (0 : ℚ) < den := by exact_mod_cast hden
  have hscale : (0 : ℚ) < 2 ^ exponent p := zpow_pos (by norm_num) _
  rcases Nat.eq_zero_or_pos p with rfl | hpos
  · have hnum : num = 0 := by
      have hzero : (num : ℚ) / den = 0 := by
        rw [h]
        simp [significand, binade_eq]
      rw [div_eq_zero_iff, or_iff_left hden'.ne'] at hzero
      exact_mod_cast hzero
    rw [hnum, nearest, if_pos rfl]
  · have hnum : 0 < num := by
      have hsig : (0 : ℚ) < significand p := by exact_mod_cast significand_pos hpos
      have hr : (0 : ℚ) < num / den := by
        rw [h]
        exact mul_pos hsig hscale
      rw [lt_div_iff₀ hden', zero_mul] at hr
      exact_mod_cast hr
    -- The value is a whole number of steps, so that rounding leaves it as it is.
    have hexponent := roundingExponent_value hpos
    have hscaled : ((significand p : ℕ) : ℚ) / (1 : ℕ) =
        (num : ℚ) / den / 2 ^ roundingExponent ((num : ℚ) / den) := by
      rw [h, hexponent, mul_div_assoc, div_self hscale.ne']
      simp
    rw [nearest_eq hnum hden Nat.one_pos hscaled, h, hexponent, roundHalfEven_one]
    rw [exponent, significand]
    split
    next hsmall =>
      have : p ≤ infinity := hp.le
      simp [this]
    next hlarge =>
      have hquotient : 1 ≤ p / binade :=
        (Nat.one_le_div_iff (by decide)).mpr (Nat.le_of_not_lt hlarge)
      have htoNat : ((p / binade : Nat) - 1075 + 1074 : Int).toNat = p / binade - 1 := by omega
      have hdecompose : binade * (p / binade) + p % binade = p := Nat.div_add_mod p binade
      have hsum : (p / binade - 1) * binade + (binade + p % binade) = p := by
        obtain ⟨k, hk⟩ := Nat.exists_eq_add_of_le hquotient
        rw [hk] at hdecompose ⊢
        calc (1 + k - 1) * binade + (binade + p % binade)
            = binade * (1 + k) + p % binade := by
              rw [Nat.add_sub_cancel_left]
              ring
          _ = p := hdecompose
      rw [htoNat, hsum]
      exact Nat.min_eq_right hp.le

end ItemScoring.Binary64

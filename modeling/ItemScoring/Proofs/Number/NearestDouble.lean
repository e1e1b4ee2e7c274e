import ItemScoring.Proofs.Number.Encoding
import ItemScoring.Proofs.Number.ReadBack

/-!
# The double nearest to a number

`IsNearest` says of a finite double that no other one is nearer to a number, and that of two that
are equally near it is the even one.  What `Binary64.nearest` computes is nearest in this sense as
long as it is finite (`nearest_isNearest`).

The ratio is rounded to a whole number in units of a power of two.  Doubles with this unit or a
greater one are whole numbers of units, so that nothing is lost against them
(`roundHalfEven_isNearest`).  Doubles with a smaller unit lie below the least number with 53 bits in
the unit that was chosen, and the ratio does not.
-/

namespace ItemScoring.Binary64

open Float.Model Float.Model.UnpackedFloat

/-! ### Rounding to whole numbers -/

section Whole

variable {den : Nat} (hden : 0 < den)
include hden

/-- A ratio is its integer part and a part below one, which `roundHalfEven` compares with a half. -/
theorem exists_fractionalPart (num : Nat) : ∃ t : ℚ, (num : ℚ) / den = (num / den : Nat) + t ∧
    0 ≤ t ∧ t < 1 ∧ (2 * (num % den) < den ↔ t < 1 / 2) ∧ (2 * (num % den) = den ↔ t = 1 / 2) := by
  have hpos : (0 : ℚ) < den := by exact_mod_cast hden
  have hsplit : (num : ℚ) = den * (num / den : Nat) + (num % den : Nat) := by
    exact_mod_cast (Nat.div_add_mod num den).symm
  have hmod : ((num % den : Nat) : ℚ) < den := by exact_mod_cast Nat.mod_lt num hden
  refine ⟨(num % den : Nat) / den, ?_, by positivity, (div_lt_one hpos).mpr hmod, ?_, ?_⟩
  · rw [div_eq_iff hpos.ne', add_mul, div_mul_cancel₀ _ hpos.ne']
    linarith
  · rw [div_lt_iff₀ hpos]
    constructor
    · intro h
      have : ((2 * (num % den) : Nat) : ℚ) < den := by exact_mod_cast h
      push_cast at this
      linarith
    · intro h
      have : ((2 * (num % den) : Nat) : ℚ) < den := by
        push_cast
        linarith
      exact_mod_cast this
  · rw [div_eq_iff hpos.ne']
    constructor
    · intro h
      have : ((2 * (num % den) : Nat) : ℚ) = den := by exact_mod_cast h
      push_cast at this
      linarith
    · intro h
      have : ((2 * (num % den) : Nat) : ℚ) = den := by
        push_cast
        linarith
      exact_mod_cast this

/-- No whole number is nearer to a ratio than the rounded one, and of two that are equally near it
is the even one. -/
theorem roundHalfEven_isNearest (num k : Nat) :
    |(roundHalfEven num den : ℚ) - num / den| ≤ |(k : ℚ) - num / den| ∧
      (|(roundHalfEven num den : ℚ) - num / den| = |(k : ℚ) - num / den| →
        k = roundHalfEven num den ∨ roundHalfEven num den % 2 = 0) := by
  obtain ⟨t, hratio, hnonneg, hlt, hless, hhalf⟩ := exists_fractionalPart hden num
  rw [hratio]
  simp only [roundHalfEven, hless, hhalf]
  generalize num / den = floor
  -- Other whole numbers are at least one away from the two around the ratio.
  have hk : (k : ℚ) + 1 ≤ floor ∨ k = floor ∨ k = floor + 1 ∨ (floor : ℚ) + 2 ≤ k := by
    rcases Nat.lt_or_ge k floor with h | h
    · exact Or.inl (by exact_mod_cast h)
    · rcases Nat.lt_or_ge k (floor + 2) with h' | h'
      · omega
      · exact Or.inr (Or.inr (Or.inr (by exact_mod_cast h')))
  split
  next hdown =>
    have hleft : |(floor : ℚ) - (floor + t)| = t := by
      rw [sub_add_cancel_left, abs_neg, abs_of_nonneg hnonneg]
    have htop : t ≤ 1 / 2 := by
      rcases hdown with h | h
      · exact h.le
      · exact h.1.le
    rw [hleft]
    rcases hk with hk | rfl | rfl | hk
    · rw [abs_of_nonpos (by linarith)]
      exact ⟨by linarith, fun heq => by linarith⟩
    · exact ⟨hleft.ge, fun _ => Or.inl rfl⟩
    · push_cast
      rw [abs_of_nonneg (by linarith)]
      refine ⟨by linarith, fun heq => Or.inr ?_⟩
      rcases hdown with h | h
      · linarith
      · exact h.2
    · rw [abs_of_nonneg (by linarith)]
      exact ⟨by linarith, fun heq => by linarith⟩
  next hup =>
    have hright : |((floor + 1 : Nat) : ℚ) - (floor + t)| = 1 - t := by
      push_cast
      rw [abs_of_nonneg (by linarith)]
      ring
    have hbottom : 1 / 2 ≤ t := not_lt.mp fun h => hup (Or.inl h)
    rw [hright]
    rcases hk with hk | rfl | rfl | hk
    · rw [abs_of_nonpos (by linarith)]
      exact ⟨by linarith, fun heq => by linarith⟩
    · rw [abs_of_nonpos (by linarith)]
      refine ⟨by linarith, fun heq => Or.inr ?_⟩
      have hodd : ¬ k % 2 = 0 := fun heven => hup (Or.inr ⟨by linarith, heven⟩)
      omega
    · exact ⟨hright.ge, fun _ => Or.inl rfl⟩
    · rw [abs_of_nonneg (by linarith)]
      exact ⟨by linarith, fun heq => by linarith⟩

theorem roundHalfEven_le {num k : Nat} (h : (num : ℚ) / den ≤ k) : roundHalfEven num den ≤ k := by
  by_contra hgt
  have hcast : (k : ℚ) < roundHalfEven num den := by exact_mod_cast Nat.not_le.mp hgt
  have hnearest := (roundHalfEven_isNearest hden num k).1
  rw [abs_of_pos (by linarith), abs_of_nonneg (by linarith)] at hnearest
  linarith

/-- From half a unit below a number of units on, a ratio is rounded up to it, if this is even. -/
theorem roundHalfEven_lt_iff {num k : Nat} (hk : (k + 1) % 2 = 0)
    (h : (num : ℚ) / den ≤ (k + 1 : Nat)) :
    roundHalfEven num den < k + 1 ↔ (num : ℚ) / den < k + 1 / 2 := by
  have hle := roundHalfEven_le hden h
  push_cast at h
  constructor
  · intro hlt
    by_contra hge
    have hcast : (roundHalfEven num den : ℚ) ≤ k := by exact_mod_cast Nat.le_of_lt_succ hlt
    obtain ⟨hnearest, htie⟩ := roundHalfEven_isNearest hden num (k + 1)
    push_cast at hnearest htie
    rw [abs_of_nonpos (by linarith), abs_of_nonneg (by linarith)] at hnearest htie
    have hmiddle : (roundHalfEven num den : ℚ) = k := by linarith
    have heq : roundHalfEven num den = k := by exact_mod_cast hmiddle
    have := htie (by linarith)
    omega
  · intro hlt
    refine Nat.lt_of_le_of_ne hle fun heq => ?_
    have hnearest := (roundHalfEven_isNearest hden num k).1
    rw [heq] at hnearest
    push_cast at hnearest
    rw [abs_of_nonneg (by linarith)] at hnearest
    rcases abs_cases ((k : ℚ) - num / den) with ⟨habs, -⟩ | ⟨habs, -⟩ <;> linarith

end Whole

/-! ### Magnitudes -/

/-- The magnitude that a finite pattern stands for. -/
def magnitude (p : Nat) : ℚ := significand p * 2 ^ exponent p

theorem magnitude_nonneg (p : Nat) : 0 ≤ magnitude p :=
  mul_nonneg (Nat.cast_nonneg _) (zpow_pos (by norm_num) _).le

@[simp] theorem magnitude_zero : magnitude 0 = 0 := by
  simp [magnitude, significand, binade_eq]

theorem significand_lt (p : Nat) : significand p < 2 ^ 53 := by
  have hmod : p % binade < binade := Nat.mod_lt _ (by decide)
  rw [binade_eq] at hmod
  rw [significand, binade_eq]
  split <;> omega

theorem least_le_exponent (p : Nat) : -1074 ≤ exponent p := by
  rw [exponent]
  split
  · exact le_refl _
  next hlarge =>
    have := (Nat.one_le_div_iff (by decide)).mpr (Nat.le_of_not_lt hlarge)
    omega

/-- In its own unit or a smaller one a magnitude is a whole number of units. -/
theorem exists_units {p : Nat} {e : Int} (h : e ≤ exponent p) :
    ∃ j : Nat, magnitude p = j * 2 ^ e := by
  refine ⟨significand p * 2 ^ (exponent p - e).toNat, ?_⟩
  have hsplit : exponent p = ((exponent p - e).toNat : Int) + e := by omega
  rw [magnitude]
  conv_lhs => rw [hsplit]
  rw [zpow_add₀ (by norm_num), zpow_natCast]
  push_cast
  ring

/-- In a greater unit than its own a magnitude has less than 53 bits. -/
theorem magnitude_lt_of_exponent_lt {p : Nat} {e : Int} (h : exponent p < e) :
    magnitude p < 2 ^ 52 * 2 ^ e := by
  calc magnitude p < 2 ^ 53 * 2 ^ exponent p := by
        apply mul_lt_mul_of_pos_right _ (zpow_pos (by norm_num) _)
        exact_mod_cast significand_lt p
    _ ≤ 2 ^ 53 * 2 ^ (e - 1) := by
        apply mul_le_mul_of_nonneg_left _ (by norm_num)
        exact zpow_le_zpow_right₀ (by norm_num) (by omega)
    _ = 2 ^ 52 * 2 ^ e := by
        rw [zpow_sub_one₀ (by norm_num)]
        ring

/-- A pattern is put together from a whole number of units and the power of two that is the unit;
the greatest number of units carries into the power. -/
theorem magnitude_of_units {e : Int} {k : Nat} (he : -1074 ≤ e) (hk : k ≤ 2 ^ 53)
    (hfull : e = -1074 ∨ 2 ^ 52 ≤ k) :
    magnitude ((e + 1074).toNat * binade + k) = k * 2 ^ e := by
  obtain ⟨step, rfl⟩ : ∃ step : Nat, e = step - 1074 := ⟨(e + 1074).toNat, by omega⟩
  have hstep : ((step : Int) - 1074 + 1074).toNat = step := by omega
  rw [hstep, magnitude, significand, exponent, binade_eq]
  rcases Nat.lt_or_ge k (2 ^ 52) with hsmall | hnormal
  · have hzero : step = 0 := by omega
    subst hzero
    have hless : 0 * 2 ^ 52 + k < 2 ^ 52 := by omega
    rw [if_pos hless, if_pos hless]
    simp
  · have hlarge : ¬ step * 2 ^ 52 + k < 2 ^ 52 := by omega
    rw [if_neg hlarge, if_neg hlarge]
    -- Rounding up may carry to the next power of two, which is the first pattern of the next
    -- binade.
    rcases Nat.lt_or_ge k (2 ^ 53) with hbelow | hcarry
    · have hquotient : (step * 2 ^ 52 + k) / 2 ^ 52 = step + 1 := by omega
      have hrest : (step * 2 ^ 52 + k) % 2 ^ 52 = k - 2 ^ 52 := by omega
      rw [hquotient, hrest, Nat.add_sub_cancel' hnormal]
      congr 2
      push_cast
      ring
    · have hpower : k = 2 ^ 53 := by omega
      have hquotient : (step * 2 ^ 52 + k) / 2 ^ 52 = step + 2 := by omega
      have hrest : (step * 2 ^ 52 + k) % 2 ^ 52 = 0 := by omega
      have hexponent : ((step + 2 : Nat) : Int) - 1075 = step - 1074 + 1 := by
        push_cast
        ring
      rw [hquotient, hrest, hexponent, zpow_add_one₀ (by norm_num), hpower]
      push_cast
      ring

/-! ### The nearest pattern -/

/-- How a ratio is rounded: in a unit in which it has at most 53 bits, and as many unless the unit
is the least one. -/
theorem exists_rounding {num den : Nat} (hnum : 0 < num) (hden : 0 < den) :
    ∃ (e : Int) (n d : Nat), 0 < d ∧ (num : ℚ) / den = n / d * 2 ^ e ∧ -1074 ≤ e ∧
      (n : ℚ) / d < 2 ^ 53 ∧ (e = -1074 ∨ (2 : ℚ) ^ 52 ≤ n / d) ∧
      nearest num den = min infinity ((e + 1074).toNat * binade + roundHalfEven n d) := by
  have hr := cast_div_pos hnum hden
  obtain ⟨e, he⟩ : ∃ e, e = roundingExponent ((num : ℚ) / den) := ⟨_, rfl⟩
  have hd := @scaleDown_pos 2 num den (by norm_num) hden e
  have hscaled := @scaleDown_div 2 num den (by norm_num) e
  rw [Nat.cast_ofNat] at hscaled
  have hpow : (0 : ℚ) < 2 ^ e := zpow_pos (by norm_num) _
  have hleast : -1074 ≤ e := he ▸ le_max_left _ _
  refine ⟨e, (scaleDown 2 num den e).1, (scaleDown 2 num den e).2, hd, ?_, hleast, ?_, ?_, ?_⟩
  · rw [hscaled, div_mul_cancel₀ _ hpow.ne']
  · rw [hscaled, div_lt_iff₀ hpow]
    have hlog : Int.log 2 ((num : ℚ) / den) < 53 + e := by
      have := le_max_right (-1074) (Int.log 2 ((num : ℚ) / den) - 52)
      rw [← roundingExponent, ← he] at this
      omega
    have hlt := (Int.lt_zpow_iff_log_lt (R := ℚ) (by norm_num : 1 < 2) hr).mpr hlog
    rw [Nat.cast_ofNat, zpow_add₀ (by norm_num)] at hlt
    exact_mod_cast hlt
  · -- The exponent is the least one, or so chosen that the quotient has 53 bits.
    rcases max_choice (-1074) (Int.log 2 ((num : ℚ) / den) - 52) with hmax | hmax
    · exact Or.inl (he.trans hmax)
    · right
      rw [hscaled, le_div_iff₀ hpow]
      have hself := Int.zpow_log_le_self (R := ℚ) (by norm_num : 1 < 2) hr
      have hlog : Int.log 2 ((num : ℚ) / den) = 52 + e := by
        have : e = Int.log 2 ((num : ℚ) / den) - 52 := he.trans hmax
        omega
      rw [hlog, Nat.cast_ofNat, zpow_add₀ (by norm_num)] at hself
      exact_mod_cast hself
  · rw [he] at hd hscaled ⊢
    exact nearest_eq hnum hden hd hscaled

/-- No magnitude is nearer to a ratio than that of the nearest pattern, if this is finite, and of
two that are equally near it is the even one. -/
theorem nearest_isNearest {num den : Nat} (hden : 0 < den) (hfinite : nearest num den < infinity)
    (q : Nat) : |magnitude (nearest num den) - num / den| ≤ |magnitude q - num / den| ∧
      (|magnitude (nearest num den) - num / den| = |magnitude q - num / den| →
        magnitude q = magnitude (nearest num den) ∨ nearest num den % 2 = 0) := by
  rcases Nat.eq_zero_or_pos num with rfl | hnum
  · have hzero : nearest 0 den = 0 := by rw [nearest, if_pos rfl]
    simp [hzero]
  obtain ⟨e, n, d, hd, hratio, hleast, hupper, hlower, hnearest⟩ := exists_rounding hnum hden
  have hpow : (0 : ℚ) < 2 ^ e := zpow_pos (by norm_num) _
  have hround := roundHalfEven_isNearest hd n
  -- The number of units is rounded within the bounds of the ratio.
  have hk : roundHalfEven n d ≤ 2 ^ 53 := roundHalfEven_le hd (by exact_mod_cast hupper.le)
  have hfull : e = -1074 ∨ 2 ^ 52 ≤ roundHalfEven n d :=
    hlower.imp_right fun h => le_roundHalfEven hd (by exact_mod_cast h)
  have hp : nearest num den = (e + 1074).toNat * binade + roundHalfEven n d := by omega
  have hparity : roundHalfEven n d % 2 = 0 → nearest num den % 2 = 0 := by
    rw [hp, binade_eq]
    omega
  have hvalue : magnitude (nearest num den) = roundHalfEven n d * 2 ^ e := by
    rw [hp, magnitude_of_units hleast hk hfull]
  have hscale : ∀ u : ℚ, |u * 2 ^ e - num / den| = |u - n / d| * 2 ^ e := by
    intro u
    rw [hratio, ← sub_mul, abs_mul, abs_of_pos hpow]
  rw [hvalue, hscale]
  rcases le_or_gt e (exponent q) with hge | hlt
  · -- The other magnitude is a whole number of units.
    obtain ⟨j, hj⟩ := exists_units hge
    obtain ⟨hle, htie⟩ := hround j
    rw [hj, hscale]
    refine ⟨mul_le_mul_of_nonneg_right hle hpow.le, fun heq => ?_⟩
    rcases htie (mul_right_cancel₀ hpow.ne' heq) with rfl | heven
    · exact Or.inl rfl
    · exact Or.inr (hparity heven)
  · -- The other magnitude is below the least number with 53 bits in this unit.
    have hnormal : (2 : ℚ) ^ 52 ≤ n / d := by
      refine hlower.resolve_left fun h => ?_
      have := least_le_exponent q
      omega
    have hless := magnitude_lt_of_exponent_lt hlt
    have hbound := (hround (2 ^ 52)).1
    rw [Nat.cast_pow, Nat.cast_ofNat] at hbound
    rw [abs_sub_comm _ ((n : ℚ) / d), abs_sub_comm _ ((n : ℚ) / d),
      abs_of_nonneg (a := (n : ℚ) / d - 2 ^ 52) (by linarith)] at hbound
    have hstrict : |(roundHalfEven n d : ℚ) - n / d| * 2 ^ e < |magnitude q - num / den| := by
      rw [abs_sub_comm (magnitude q), abs_sub_comm _ ((n : ℚ) / d)]
      calc |(n : ℚ) / d - roundHalfEven n d| * 2 ^ e
          ≤ ((n : ℚ) / d - 2 ^ 52) * 2 ^ e := mul_le_mul_of_nonneg_right hbound hpow.le
        _ = num / den - 2 ^ 52 * 2 ^ e := by rw [hratio, sub_mul]
        _ < num / den - magnitude q := by linarith
        _ ≤ |(num : ℚ) / den - magnitude q| := le_abs_self _
    exact ⟨hstrict.le, fun heq => absurd heq hstrict.ne⟩

/-! ### Signs -/

section Patterns

variable {p : Nat} (hp : p ≤ infinity) (negative : Bool)
include hp

/-- Up to the pattern of infinity every pattern is kept, with its sign. -/
theorem toNat_toBits_ofPattern :
    (ofPattern negative p).toBits.toNat = if negative then signWeight + p else p := by
  have hinfinity : infinity = 2047 * 2 ^ 52 := rfl
  have hweight : signWeight = 2 ^ 63 := rfl
  obtain ⟨bits, hbits⟩ : ∃ bits, bits = if negative then signWeight + p else p := ⟨_, rfl⟩
  have hsign : bits = p ∨ bits = 2 ^ 63 + p := by
    cases negative with
    | false => exact Or.inl hbits
    | true => exact Or.inr hbits
  have hlt : bits < 2 ^ 64 := by omega
  have hnat : (UInt64.ofNat bits).toBitVec.toNat = bits := by
    simp only [UInt64.toBitVec_ofNat', BitVec.toNat_ofNat]
    omega
  -- All ones in the exponent are those of infinity, whose mantissa is zero.
  have hvalid : Format.binary64.Valid (UInt64.ofNat bits).toBitVec := by
    refine ⟨fun hexponent hmantissa => absurd (BitVec.eq_of_toNat_eq ?_) hmantissa⟩
    have hexponents := congrArg BitVec.toNat hexponent
    rw [toNat_unpackExponent, hnat] at hexponents
    have hfield : bits / 2 ^ 52 % 2 ^ 11 = 2047 := hexponents
    have hzero : bits % 2 ^ 52 = 0 := by omega
    have hrest : (unpackMantissa (UInt64.ofNat bits).toBitVec : BitVec
        Format.binary64.mantissaBitsWithoutImplicit).toNat = bits % 2 ^ 52 := by
      simp [unpackMantissa, hnat]
    exact hrest.trans hzero
  have hkept : (ofPattern negative p).toBits = UInt64.ofNat bits := by
    rw [ofPattern, ← hbits]
    exact congrArg UInt64.ofBitVec (pack_unpack_of_valid hvalid)
  rw [hkept, ← hbits]
  exact hnat

theorem pattern_ofPattern : pattern (ofPattern negative p) = p := by
  have hinfinity : infinity = 2047 * 2 ^ 52 := rfl
  have hweight : signWeight = 2 ^ 63 := rfl
  rw [pattern, toNat_toBits_ofPattern hp, hweight]
  split <;> omega

theorem isNegative_ofPattern : isNegative (ofPattern negative p) = negative := by
  have hinfinity : infinity = 2047 * 2 ^ 52 := rfl
  have hweight : signWeight = 2 ^ 63 := rfl
  rw [isNegative, toNat_toBits_ofPattern hp]
  cases negative with
  | false => simp; omega
  | true => simp

end Patterns

/-! ### Doubles -/

/-- A magnitude with a sign. -/
def signed (negative : Bool) (v : ℚ) : ℚ := if negative then -v else v

@[simp] theorem signed_zero (negative : Bool) : signed negative 0 = 0 := by
  cases negative <;> simp [signed]

theorem abs_signed_sub (negative : Bool) (u v : ℚ) :
    |signed negative u - signed negative v| = |u - v| := by
  cases negative with
  | false => rfl
  | true =>
      change |-u - -v| = |u - v|
      rw [neg_sub_neg, abs_sub_comm]

/-- Numbers of different signs are as far from each other as both are from zero. -/
theorem abs_signed_sub_of_ne {first second : Bool} (hne : first ≠ second) {u v : ℚ} (hu : 0 ≤ u)
    (hv : 0 ≤ v) : |signed first u - signed second v| = u + v := by
  cases first <;> cases second <;> simp only [ne_eq, not_true_eq_false] at hne
  · change |u - -v| = u + v
    rw [sub_neg_eq_add, abs_of_nonneg (by linarith)]
  · change |-u - v| = u + v
    rw [← neg_add', abs_neg, abs_of_nonneg (by linarith)]

/-- The number that a finite double stands for. -/
def number (x : Float) : ℚ := signed (isNegative x) (magnitude (pattern x))

/-- The double is finite, no other finite double is nearer to the number, and of two that are
equally near it is the even one. -/
structure IsNearest (x : Float) (v : ℚ) : Prop where
  finite : x.isFinite = true
  le : ∀ y : Float, y.isFinite = true → |number x - v| ≤ |number y - v|
  even : ∀ y : Float, y.isFinite = true → |number x - v| = |number y - v| →
    number y = number x ∨ pattern x % 2 = 0

theorem nearest_le (num den : Nat) : nearest num den ≤ infinity := by
  rw [nearest]
  split
  · exact Nat.zero_le _
  · exact Nat.min_le_left _ _

/-- With a sign the nearest pattern is that of the nearest double. -/
theorem isNearest_ofPattern {num den : Nat} (hden : 0 < den) (negative : Bool)
    (hfinite : nearest num den < infinity) :
    IsNearest (ofPattern negative (nearest num den)) (signed negative (num / den)) := by
  have hp := hfinite.le
  have hpattern := pattern_ofPattern hp negative
  have hnumber : number (ofPattern negative (nearest num den)) =
      signed negative (magnitude (nearest num den)) := by
    rw [number, hpattern, isNegative_ofPattern hp]
  have hratio : (0 : ℚ) ≤ num / den := by positivity
  -- Against a double of the other sign, zero is at least as near.
  have hzero := nearest_isNearest hden hfinite 0
  rw [magnitude_zero, zero_sub, abs_neg, abs_of_nonneg hratio] at hzero
  refine ⟨(isFinite_iff _).mpr (hpattern.trans_lt hfinite), fun y _ => ?_, fun y _ => ?_⟩ <;>
    rw [hnumber, abs_signed_sub] <;> by_cases hsign : isNegative y = negative
  · rw [number, hsign, abs_signed_sub]
    exact (nearest_isNearest hden hfinite (pattern y)).1
  · rw [number, abs_signed_sub_of_ne hsign (magnitude_nonneg _) hratio]
    have := magnitude_nonneg (pattern y)
    linarith [hzero.1]
  · rw [number, hsign, abs_signed_sub, hpattern]
    intro heq
    exact ((nearest_isNearest hden hfinite (pattern y)).2 heq).imp_left (congrArg _)
  · rw [number, abs_signed_sub_of_ne hsign (magnitude_nonneg _) hratio, hpattern]
    intro heq
    have hnone : magnitude (pattern y) = 0 := by
      have := magnitude_nonneg (pattern y)
      linarith [hzero.1]
    rw [hnone, zero_add] at heq
    rw [hnone]
    exact (hzero.2 heq).imp_left fun h => by rw [← h, signed_zero, signed_zero]

/-- A ratio has a finite nearest pattern if it is less than half a unit above the greatest finite
double. -/
theorem nearest_lt_infinity_iff {num den : Nat} (hden : 0 < den) :
    nearest num den < infinity ↔ (num : ℚ) / den < 2 ^ 1024 - 2 ^ 970 := by
  have hinfinity : infinity = 2047 * 2 ^ 52 := rfl
  have hlimit : (2 : ℚ) ^ 1024 - 2 ^ 970 = (2 ^ 54 - 1) * 2 ^ (970 : Int) := by
    rw [sub_mul, one_mul]
    exact congrArg₂ _ (pow_add 2 54 970) rfl
  have hunit : (0 : ℚ) < 2 ^ (970 : Int) := zpow_pos (by norm_num) _
  rw [hlimit]
  rcases Nat.eq_zero_or_pos num with rfl | hnum
  · have hzero : nearest 0 den = 0 := by rw [nearest, if_pos rfl]
    rw [hzero, hinfinity, Nat.cast_zero, zero_div]
    exact iff_of_true (by norm_num) (mul_pos (by norm_num) hunit)
  obtain ⟨e, n, d, hd, hratio, hleast, hupper, hlower, hnearest⟩ := exists_rounding hnum hden
  have hk : roundHalfEven n d ≤ 2 ^ 53 := roundHalfEven_le hd (by exact_mod_cast hupper.le)
  rw [hnearest, hratio, hinfinity, binade_eq]
  rcases lt_trichotomy e 971 with hsmall | rfl | hlarge
  · -- With a smaller unit neither the ratio nor the number of units reaches the bound.
    have hpow : (2 : ℚ) ^ e ≤ 2 ^ (970 : Int) := zpow_le_zpow_right₀ (by norm_num) (by omega)
    refine iff_of_true (by omega) ?_
    calc (n : ℚ) / d * 2 ^ e ≤ 2 ^ 53 * 2 ^ (970 : Int) :=
          mul_le_mul hupper.le hpow (zpow_pos (by norm_num) _).le (by norm_num)
      _ < (2 ^ 54 - 1) * 2 ^ (970 : Int) := by
          apply mul_lt_mul_of_pos_right _ hunit
          norm_num
  · -- In the greatest unit the last number of units with 53 bits is odd.
    have hround : roundHalfEven n d < (2 ^ 53 - 1) + 1 ↔
        (n : ℚ) / d < (2 ^ 53 - 1 : Nat) + 1 / 2 :=
      roundHalfEven_lt_iff hd (by norm_num) (by norm_num; norm_num at hupper; exact hupper.le)
    have hdouble : (2 : ℚ) ^ (971 : Int) = 2 * 2 ^ (970 : Int) := by
      rw [← zpow_one_add₀ (by norm_num)]
      rfl
    have hhalf : (n : ℚ) / d * 2 ^ (971 : Int) < (2 ^ 54 - 1) * 2 ^ (970 : Int) ↔
        (n : ℚ) / d < (2 ^ 53 - 1 : Nat) + 1 / 2 := by
      rw [hdouble, ← mul_assoc, mul_lt_mul_iff_left₀ hunit]
      norm_num
      constructor <;> intro h <;> linarith
    rw [hhalf, ← hround]
    omega
  · have hpow : (2 : ℚ) ^ (972 : Int) ≤ 2 ^ e := zpow_le_zpow_right₀ (by norm_num) (by omega)
    have hnormal : (2 : ℚ) ^ 52 ≤ n / d := hlower.resolve_left (by omega)
    have hge : 2 ^ 52 ≤ roundHalfEven n d := le_roundHalfEven hd (by exact_mod_cast hnormal)
    refine iff_of_false (by omega) (not_lt.mpr ?_)
    calc (2 ^ 54 - 1) * (2 : ℚ) ^ (970 : Int) ≤ 2 ^ 54 * 2 ^ (970 : Int) := by
          apply mul_le_mul_of_nonneg_right _ hunit.le
          norm_num
      _ = 2 ^ 52 * (2 ^ (2 : Int) * 2 ^ (970 : Int)) := by
          rw [← mul_assoc]
          norm_num
      _ = 2 ^ 52 * 2 ^ (972 : Int) := by
          rw [← zpow_add₀ (by norm_num)]
          rfl
      _ ≤ n / d * 2 ^ e := by
          apply mul_le_mul hnormal hpow (zpow_pos (by norm_num) _).le
          exact le_trans (by norm_num) hnormal

theorem signed_natAbs (n : Int) : signed (n < 0) n.natAbs = n := by
  have hcast : ((n.natAbs : Int) : ℚ) = |(n : ℚ)| := by
    rw [Int.natCast_natAbs, Int.cast_abs]
  rw [Int.cast_natCast] at hcast
  rw [signed, hcast]
  split
  next hneg =>
    have : (n : ℚ) < 0 := by exact_mod_cast of_decide_eq_true hneg
    rw [abs_of_neg this, neg_neg]
  next hpos =>
    have : (0 : ℚ) ≤ n := by exact_mod_cast not_lt.mp fun h => hpos (decide_eq_true h)
    exact abs_of_nonneg this

theorem two_pow_le_limit : (2 : ℚ) ^ 64 ≤ 2 ^ 1024 - 2 ^ 970 := by
  rw [le_sub_iff_add_le]
  calc (2 : ℚ) ^ 64 + 2 ^ 970 ≤ 2 ^ 970 + 2 ^ 970 :=
        add_le_add_left (pow_le_pow_right₀ (by norm_num) (by norm_num)) _
    _ = 2 ^ 971 := by rw [← mul_two, ← pow_succ]
    _ ≤ 2 ^ 1024 := pow_le_pow_right₀ (by norm_num) (by norm_num)

theorem cast_natAbs_lt_limit {n : Int} (h : Decimal.isInt64 n = true) :
    (n.natAbs : ℚ) < 2 ^ 1024 - 2 ^ 970 := by
  have hrange : n.natAbs ≤ 2 ^ 63 := by
    have hpow : (Nat.pow 2 63 : Nat) = 2 ^ 63 := rfl
    simp only [Decimal.isInt64, hpow, Bool.and_eq_true, decide_eq_true_eq] at h
    omega
  calc (n.natAbs : ℚ) ≤ 2 ^ 63 := by exact_mod_cast hrange
    _ < 2 ^ 64 := by norm_num
    _ ≤ 2 ^ 1024 - 2 ^ 970 := two_pow_le_limit

/-- An integer of 64 bits is rounded to the nearest double. -/
theorem isNearest_ofInt {n : Int} (h : Decimal.isInt64 n = true) : IsNearest (ofInt n) n := by
  have hfinite : nearest n.natAbs 1 < infinity := by
    rw [nearest_lt_infinity_iff Nat.one_pos, Nat.cast_one, div_one]
    exact cast_natAbs_lt_limit h
  have hnearest := isNearest_ofPattern Nat.one_pos (n < 0) hfinite
  rwa [Nat.cast_one, div_one, signed_natAbs] at hnearest

end ItemScoring.Binary64

namespace ItemScoring.Decimal

open Binary64

/-- The number that a decimal stands for. -/
def number (x : Decimal) : ℚ := signed x.negative x.value

theorem pattern_le (x : Decimal) : x.pattern ≤ infinity := by
  rw [pattern_eq_nearest]
  exact nearest_le _ _

/-- Decimals are in the range of doubles up to half a unit above the greatest one. -/
theorem isFinite_toFloat_iff {x : Decimal} :
    x.toFloat.isFinite = true ↔ x.value < 2 ^ 1024 - 2 ^ 970 := by
  have hden := @scaleDown_pos 10 x.digits 1 (by norm_num) Nat.one_pos (-x.exponent)
  rw [isFinite_iff, toFloat, pattern_ofPattern x.pattern_le, pattern_eq_nearest,
    nearest_lt_infinity_iff hden, scaleDown_value]

/-- A decimal is rounded to the nearest double, unless it is beyond the range of doubles. -/
theorem isNearest_toFloat {x : Decimal} (hfinite : x.toFloat.isFinite = true) :
    IsNearest x.toFloat x.number := by
  have hden := @scaleDown_pos 10 x.digits 1 (by norm_num) Nat.one_pos (-x.exponent)
  rw [isFinite_iff, toFloat, pattern_ofPattern x.pattern_le, pattern_eq_nearest] at hfinite
  have hnearest := isNearest_ofPattern hden x.negative hfinite
  rwa [scaleDown_value, ← pattern_eq_nearest] at hnearest

end ItemScoring.Decimal

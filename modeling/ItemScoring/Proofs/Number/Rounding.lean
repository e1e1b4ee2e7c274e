import ItemScoring.Proofs.Number.Arithmetic

/-!
# Rounding does not cross a double

The sum or quotient of two doubles is rounded, but what it is rounded to lies on the same
side of every double as the exact result (`RoundsTo`).  So an operation on doubles keeps
every inequality between its exact result and a double.

Rounding shifts bits out of a mantissa and remembers whether one of them was set.  Whatever
the shift, the number stays between the mantissa and its successor (`InCell.shiftRight`), and
is rounded to one of these two; whole numbers lie outside (`InCell.le_rounded`,
`InCell.rounded_le`), and in units of the exponent that was chosen doubles are whole, or too
small to matter (`InCell.roundsTo`).

`Denotes` says which number a double stands for, if it is finite and not negative.
`Denotes.exists_add` and `Denotes.exists_div` carry it over to sums and quotients.
-/

namespace ItemScoring.Binary64

open Float.Model Float.Model.UnpackedFloat

/-! ### Shifting out bits -/

/-- The number lies between the mantissa and its successor, and above the mantissa if a
bit was shifted out. -/
structure InCell (x : ℚ) (em : ExtendedMantissa) : Prop where
  le : (em.mantissa : ℚ) ≤ x
  lt_succ : x < em.mantissa + 1
  lt : (em.roundBit || em.stickyBit) = true → (em.mantissa : ℚ) < x

variable {x : ℚ} {em : ExtendedMantissa}

theorem inCell_natCast (m : Nat) : InCell m (.mk m false false) :=
  ⟨le_refl _, lt_add_one _, by simp⟩

theorem InCell.shiftRightOne (h : InCell x em) : InCell (x / 2) em.shiftRightOne := by
  obtain ⟨hle, hlt, hbits⟩ := h
  have hsplit : (em.mantissa : ℚ) = 2 * (em.mantissa / 2 : Nat) + (em.mantissa % 2 : Nat) := by
    exact_mod_cast (Nat.div_add_mod em.mantissa 2).symm
  have hmod : ((em.mantissa % 2 : Nat) : ℚ) ≤ 1 := by exact_mod_cast (by omega)
  have hmod0 : (0 : ℚ) ≤ (em.mantissa % 2 : Nat) := Nat.cast_nonneg _
  refine ⟨?_, ?_, fun hbit => ?_⟩ <;> simp only [ExtendedMantissa.shiftRightOne] at *
  · linarith
  · linarith
  · rcases Nat.mod_two_eq_zero_or_one em.mantissa with hzero | hone
    · have := hbits (by simpa [hzero] using hbit)
      linarith
    · rw [hone, Nat.cast_one] at hsplit
      linarith

theorem InCell.shiftRight (h : InCell x em) (k : Nat) : InCell (x / 2 ^ k) (em >>> k) := by
  change InCell (x / 2 ^ k) (k.repeat ExtendedMantissa.shiftRightOne em)
  induction k with
  | zero => simpa [Nat.repeat] using h
  | succ k ih =>
      rw [Nat.repeat, pow_succ, ← div_div]
      exact ih.shiftRightOne

theorem roundedMantissa_bounds (em : ExtendedMantissa) :
    em.mantissa ≤ em.roundedMantissa ∧ em.roundedMantissa ≤ em.mantissa + 1 ∧
      ((em.roundBit || em.stickyBit) = false → em.roundedMantissa = em.mantissa) := by
  obtain ⟨m, r, s⟩ := em
  cases r <;> cases s <;>
    simp [ExtendedMantissa.roundedMantissa, ExtendedMantissa.accuracy,
      Accuracy.roundToNearestEven]
  omega

/-- A whole number is on the same side of the rounded mantissa as it was of the number. -/
theorem InCell.le_rounded (h : InCell x em) {k : Nat} (hk : (k : ℚ) ≤ x) :
    k ≤ em.roundedMantissa := by
  have hlt : (k : ℚ) < (em.mantissa + 1 : Nat) := by
    push_cast
    exact lt_of_le_of_lt hk h.lt_succ
  have hcell : k < em.mantissa + 1 := by exact_mod_cast hlt
  have := (roundedMantissa_bounds em).1
  omega

theorem InCell.rounded_le (h : InCell x em) {k : Nat} (hk : x ≤ k) : em.roundedMantissa ≤ k := by
  obtain ⟨-, hup, hexact⟩ := roundedMantissa_bounds em
  cases hbits : em.roundBit || em.stickyBit with
  | false =>
      rw [hexact hbits]
      exact_mod_cast h.le.trans hk
  | true =>
      have hcell : em.mantissa < k := by exact_mod_cast lt_of_lt_of_le (h.lt hbits) hk
      omega

/-! ### Rounding to a double -/

/-- No double lies strictly between the number and what it is rounded to. -/
def RoundsTo (x r : ℚ) : Prop :=
  ∀ k e, Canonical k e → ((k : ℚ) * 2 ^ e ≤ x → (k : ℚ) * 2 ^ e ≤ r) ∧
    (x ≤ k * 2 ^ e → r ≤ k * 2 ^ e)

theorem two_zpow_pos (e : Int) : (0 : ℚ) < 2 ^ e := zpow_pos (by norm_num) e

theorem two_zpow_add (e d : Int) : (2 : ℚ) ^ (e + d) = 2 ^ e * 2 ^ d :=
  zpow_add₀ (by norm_num) e d

/-- A number that is no multiple of the unit is below all that have full significands. -/
theorem Canonical.lt_of_lt {k : Nat} {e g : Int} (h : Canonical k e) (hlt : e < g) :
    (k : ℚ) * 2 ^ e < 2 ^ 52 * 2 ^ g := by
  have hk : (k : ℚ) < 2 ^ 53 := by exact_mod_cast h.lt
  calc (k : ℚ) * 2 ^ e < 2 ^ 53 * 2 ^ e := mul_lt_mul_of_pos_right hk (two_zpow_pos e)
    _ = 2 ^ 52 * 2 ^ (e + 1) := by rw [two_zpow_add, zpow_one]; ring
    _ ≤ 2 ^ 52 * 2 ^ g := by
      have := zpow_le_zpow_right₀ (show (1 : ℚ) ≤ 2 by norm_num) (show e + 1 ≤ g by omega)
      linarith

theorem InCell.roundsTo (h : InCell x em) {g : Int} (hfull : g = -1074 ∨ 2 ^ 52 ≤ x) :
    RoundsTo (x * 2 ^ g) (em.roundedMantissa * 2 ^ g) := by
  intro k e hcanonical
  have hunit := two_zpow_pos g
  by_cases hge : g ≤ e
  · -- The double is a multiple of the unit.
    obtain ⟨n, rfl⟩ := Int.le.dest hge
    have hmultiple : (k : ℚ) * 2 ^ (g + (n : Int)) = (k * 2 ^ n : Nat) * 2 ^ g := by
      rw [two_zpow_add, zpow_natCast]
      push_cast
      ring
    rw [hmultiple]
    refine ⟨fun hle => ?_, fun hle => ?_⟩
    · have := h.le_rounded (le_of_mul_le_mul_right hle hunit)
      exact mul_le_mul_of_nonneg_right (by exact_mod_cast this) hunit.le
    · have := h.rounded_le (le_of_mul_le_mul_right hle hunit)
      exact mul_le_mul_of_nonneg_right (by exact_mod_cast this) hunit.le
  · -- The double is too small to be anywhere near.
    have hx : (2 : ℚ) ^ 52 ≤ x := by
      refine hfull.resolve_left fun hg => hge ?_
      rw [hg]
      exact hcanonical.least
    have hsmall := hcanonical.lt_of_lt (not_le.mp hge)
    have hrounded : (2 : ℚ) ^ 52 ≤ em.roundedMantissa := by
      exact_mod_cast h.le_rounded (k := 2 ^ 52) (by exact_mod_cast hx)
    refine ⟨fun _ => ?_, fun hle => absurd hle (not_le.mpr ?_)⟩
    · exact hsmall.le.trans (mul_le_mul_of_nonneg_right hrounded hunit.le)
    · exact hsmall.trans_le (mul_le_mul_of_nonneg_right hx hunit.le)

/-- A rounded mantissa is canonical, unless all of its bits were carried over. -/
theorem exists_canonical {r : Nat} {g : Int} (hr : r ≠ 0) (hle : r ≤ 2 ^ 53) (hleast : -1074 ≤ g)
    (hfull : g = -1074 ∨ 2 ^ 52 ≤ r) :
    ∃ m e, Canonical m e ∧ (r : ℚ) * 2 ^ g = m * 2 ^ e ∧
      shiftToTargetExponent .binary64 r g .exact = (.mk m false false, e) := by
  by_cases hcarry : r = 2 ^ 53
  · have hcanonical : Canonical (2 ^ 52) (g + 1) :=
      ⟨by norm_num, by norm_num, by omega, Or.inl (le_refl _)⟩
    refine ⟨2 ^ 52, g + 1, hcanonical, ?_, ?_⟩
    · rw [hcarry, two_zpow_add, zpow_one]
      push_cast
      ring
    · have hshift := shiftToTargetExponent_of_canonical hcanonical 1
      rwa [← pow_add, Nat.cast_one, add_sub_cancel_right, ← hcarry] at hshift
  · have hcanonical : Canonical r g :=
      ⟨by omega, by omega, hleast, hfull.symm⟩
    refine ⟨r, g, hcanonical, rfl, ?_⟩
    have hshift := shiftToTargetExponent_of_canonical hcanonical 0
    rwa [pow_zero, mul_one, Nat.cast_zero, sub_zero] at hshift

theorem mantissa_ofMantissaAndAccuracy (m : Nat) (accuracy : Accuracy) :
    (ExtendedMantissa.ofMantissaAndAccuracy m accuracy).mantissa = m := by
  rcases accuracy with _ | _ | _ | _ <;> rfl

theorem mantissa_shiftToTargetExponent_zero (g : Int) :
    (shiftToTargetExponent .binary64 0 g .exact).1.mantissa = 0 := by
  have hshift := shiftRight_mul_pow 0 (Format.binary64.targetExponent (totalExponent 0 g) - g).toNat
  rw [Nat.zero_mul] at hshift
  simp only [shiftToTargetExponent, shiftToExponent, ExtendedMantissa.ofMantissaAndAccuracy, hshift]

/-- In units of the target exponent a number is at most a full significand, and at least
one unless the exponent is the least. -/
theorem InCell.bounds {m : Nat} {accuracy : Accuracy}
    (h : InCell x (.ofMantissaAndAccuracy m accuracy)) {e g : Int} {k : Nat} (hk : e + k = g)
    (hg : max ((m.log2 : Int) + e - 52) (-1074) = g) :
    x / 2 ^ k ≤ (2 ^ 53 : Nat) ∧ (g = -1074 ∨ 2 ^ 52 ≤ x / 2 ^ k) := by
  have hle := h.le
  have hlt := h.lt_succ
  rw [mantissa_ofMantissaAndAccuracy] at hle hlt
  constructor
  · have hsucc : m + 1 ≤ 2 ^ 53 * 2 ^ k := by
      rw [← pow_add]
      exact Nat.lt_log2_self.trans_le (Nat.pow_le_pow_right (by norm_num) (by omega))
    rw [div_le_iff₀ (by positivity)]
    exact hlt.le.trans (by exact_mod_cast hsucc)
  · -- Above the least exponent the mantissa fills all of its bits.
    by_cases hleast : g = -1074
    · exact Or.inl hleast
    · have hlog : m.log2 = 52 + k := by omega
      have hm : m ≠ 0 := by
        rintro rfl
        rw [Nat.log2_zero] at hlog
        omega
      have hfull : 2 ^ 52 * 2 ^ k ≤ m := by
        rw [← pow_add, ← hlog]
        exact Nat.log2_self_le hm
      refine Or.inr ((le_div_iff₀ (by positivity)).mpr (le_trans ?_ hle))
      exact_mod_cast hfull

/-- The number is rounded to the value of this double, which may be zero. -/
def IsRounded (sign : Sign) (x : ℚ) (u : UnpackedFloat) : Prop :=
  ∃ r, RoundsTo x r ∧ (r = 0 ∧ u = .zero sign ∨
    ∃ m e, ∃ h : Canonical m e, r = m * 2 ^ e ∧ u = .finite sign m e h.pos)

theorem isRounded_roundWithAccuracy (sign : Sign) {m : Nat} {e : Int} {accuracy : Accuracy}
    (h : InCell x (.ofMantissaAndAccuracy m accuracy))
    (hle : e ≤ Format.binary64.targetExponent (totalExponent m e)) :
    IsRounded sign (x * 2 ^ e) (roundWithAccuracy .binary64 sign m e accuracy) := by
  -- The first shift rounds; the second one only makes room for a carry.
  generalize hg : Format.binary64.targetExponent (totalExponent m e) = g at hle
  obtain ⟨k, hk⟩ := Int.le.dest hle
  have hshift : shiftToTargetExponent .binary64 m e accuracy =
      (ExtendedMantissa.ofMantissaAndAccuracy m accuracy >>> k, g) := by
    have hcount : (g - e).toNat = k := by omega
    simp only [shiftToTargetExponent, shiftToExponent, hg, hcount, hk]
  rw [targetExponent_eq] at hg
  obtain ⟨hbelow, hfull⟩ := h.bounds hk hg
  have hcell := h.shiftRight k
  have hscale : x * 2 ^ e = x / 2 ^ k * 2 ^ g := by
    rw [← hk, two_zpow_add, zpow_natCast]
    field_simp
  generalize ExtendedMantissa.ofMantissaAndAccuracy m accuracy >>> k = em at hcell hshift
  refine ⟨em.roundedMantissa * 2 ^ g, hscale ▸ hcell.roundsTo hfull, ?_⟩
  unfold roundWithAccuracy
  simp only [hshift]
  by_cases hzero : em.roundedMantissa = 0
  · refine Or.inl ⟨by rw [hzero, Nat.cast_zero, zero_mul], ?_⟩
    simp only [hzero, mantissa_shiftToTargetExponent_zero, dif_pos]
  · obtain ⟨r, d, hcanonical, hvalue, hagain⟩ := exists_canonical hzero (hcell.rounded_le hbelow)
      (by omega) (hfull.imp_right fun h => hcell.le_rounded (by exact_mod_cast h))
    refine Or.inr ⟨r, d, hcanonical, hvalue, ?_⟩
    simp only [hagain, dif_neg hcanonical.pos.ne']

/-- Rounding an exact number. -/
theorem isRounded_round (sign : Sign) {m : Nat} (hm : 0 < m) (e : Int) :
    IsRounded sign (m * 2 ^ e) (UnpackedFloat.round .binary64 sign m e) := by
  unfold UnpackedFloat.round decreaseExponent
  dsimp only
  generalize hk : (e - Format.binary64.targetExponent (totalExponent m e)).toNat = k
  rw [targetExponent_eq] at hk
  rw [Nat.shiftLeft_eq]
  have hscale : (m : ℚ) * 2 ^ e = (m * 2 ^ k : Nat) * 2 ^ (e - (k : Int)) := by
    push_cast
    rw [mul_assoc, ← zpow_natCast, ← two_zpow_add]
    congr 2
    omega
  rw [hscale]
  refine isRounded_roundWithAccuracy sign (inCell_natCast _) ?_
  rw [targetExponent_eq, log2_mul_pow hm.ne']
  push_cast
  omega

/-! ### Powers of two -/

theorem canonical_power {e : Int} (h : -1022 ≤ e) : Canonical (2 ^ 52) (e - 52) :=
  ⟨by norm_num, by norm_num, by omega, Or.inl (le_refl _)⟩

theorem value_power (e : Int) : ((2 ^ 52 : Nat) : ℚ) * 2 ^ (e - 52) = 2 ^ e := by
  have hcast : ((2 ^ 52 : Nat) : ℚ) = 2 ^ (52 : Int) := by norm_num
  rw [hcast, ← two_zpow_add]
  congr 1
  omega

theorem RoundsTo.power_le {r : ℚ} (h : RoundsTo x r) {e : Int} (he : -1022 ≤ e)
    (hle : (2 : ℚ) ^ e ≤ x) : (2 : ℚ) ^ e ≤ r := by
  have hside := (h _ _ (canonical_power he)).1
  rw [value_power] at hside
  exact hside hle

theorem RoundsTo.le_power {r : ℚ} (h : RoundsTo x r) {e : Int} (he : -1022 ≤ e)
    (hle : x ≤ (2 : ℚ) ^ e) : r ≤ (2 : ℚ) ^ e := by
  have hside := (h _ _ (canonical_power he)).2
  rw [value_power] at hside
  exact hside hle

/-! ### Values of doubles -/

theorem decoded_encoded (sign : Sign) {m : Nat} {e : Int} (h : Canonical m e) (hfits : e ≤ 971) :
    decoded (encoded (.finite sign m e h.pos)) = .finite sign m e h.pos :=
  unpack_pack_of_canonical sign h hfits

/-- The double is finite and not negative, and this is the number it stands for. -/
def Denotes (x : Float) (v : ℚ) : Prop :=
  IsZero x ∧ v = 0 ∨
    ∃ m e, ∃ h : 0 < m, decoded x = .finite .positive m e h ∧ v = m * 2 ^ e

theorem denotes_zero : Denotes 0 0 := Or.inl ⟨isZero_zero, rfl⟩

theorem denotes_one : Denotes 1 1 := by
  refine Or.inr ⟨2 ^ 52, -52, by norm_num, decoded_one, ?_⟩
  norm_num [zpow_neg]

theorem denotes_half : Denotes 0.5 (1 / 2) := by
  refine Or.inr ⟨2 ^ 52, -53, by norm_num, rfl, ?_⟩
  norm_num [zpow_neg]

variable {a b : Float} {v w : ℚ}

theorem canonical_of_decoded {sign : Sign} {m : Nat} {e : Int} {h : 0 < m}
    (ha : decoded a = .finite sign m e h) : Canonical m e ∧ e ≤ 971 :=
  ⟨canonical_of_unpack ha, exponent_le_of_unpack ha⟩

theorem Denotes.nonneg (h : Denotes a v) : 0 ≤ v := by
  rcases h with ⟨-, rfl⟩ | ⟨m, e, -, -, rfl⟩
  · exact le_refl 0
  · exact mul_nonneg (Nat.cast_nonneg m) (two_zpow_pos e).le

theorem Denotes.congr (h : Denotes a v) (hsame : Same b a) : Denotes b v := by
  rcases hsame with rfl | ⟨hb, sign, ha⟩
  · exact h
  · rcases h with ⟨-, rfl⟩ | ⟨m, e, hm, hfinite, -⟩
    · exact Or.inl ⟨hb, rfl⟩
    · rw [ha] at hfinite
      contradiction

theorem Canonical.value_pos {m : Nat} {e : Int} (h : Canonical m e) : (0 : ℚ) < m * 2 ^ e :=
  mul_pos (Nat.cast_pos.mpr h.pos) (two_zpow_pos e)

/-- Canonical numbers compare by exponents first. -/
theorem Canonical.value_lt {m n : Nat} {e d : Int} (hm : Canonical m e) (hn : Canonical n d)
    (h : e < d) : (m : ℚ) * 2 ^ e < n * 2 ^ d := by
  have hfull : (2 : ℚ) ^ 52 ≤ n := by
    have := hm.least
    exact_mod_cast hn.normal.resolve_right (by omega)
  exact (hm.lt_of_lt h).trans_le (mul_le_mul_of_nonneg_right hfull (two_zpow_pos d).le)

theorem Denotes.le_iff (ha : Denotes a v) (hb : Denotes b w) : a ≤ b ↔ v ≤ w := by
  rw [le_eq]
  rcases ha with ⟨⟨s, ha⟩, rfl⟩ | ⟨m, e, hm, ha, rfl⟩ <;>
    rcases hb with ⟨⟨t, hb⟩, rfl⟩ | ⟨n, d, hn, hb, rfl⟩ <;> rw [ha, hb]
  · exact iff_of_true rfl (le_refl 0)
  · exact iff_of_true rfl (canonical_of_decoded hb).1.value_pos.le
  · exact iff_of_false Bool.false_ne_true (not_le.mpr (canonical_of_decoded ha).1.value_pos)
  · have hcm := (canonical_of_decoded ha).1
    have hcn := (canonical_of_decoded hb).1
    change (some ((compare e d).then (compare m n))).any (·.isLE) = true ↔ _
    rcases lt_trichotomy e d with hlt | rfl | hgt
    · rw [Int.compare_eq_lt.mpr hlt]
      exact iff_of_true rfl (hcm.value_lt hcn hlt).le
    · rw [Int.compare_eq_eq.mpr rfl, mul_le_mul_iff_left₀ (two_zpow_pos e), Nat.cast_le]
      change (compare m n).isLE = true ↔ _
      exact Nat.isLE_compare
    · rw [Int.compare_eq_gt.mpr hgt]
      exact iff_of_false Bool.false_ne_true (not_le.mpr (hcn.value_lt hcm hgt))

/-- What lies between zero and a finite double is finite. -/
theorem Denotes.exists_of_le (hb : Denotes b w) (hnonneg : 0 ≤ a) (hle : a ≤ b) :
    ∃ v, Denotes a v := by
  rw [le_eq, decoded_zero] at hnonneg
  rw [le_eq] at hle
  cases ha : decoded a with
  | notANumber =>
      rw [ha] at hnonneg
      contradiction
  | infinity sign =>
      rw [ha] at hnonneg hle
      cases sign with
      | negative => contradiction
      | positive =>
          rcases hb with ⟨⟨t, hb⟩, -⟩ | ⟨n, d, hn, hb, -⟩ <;> rw [hb] at hle <;> contradiction
  | zero sign => exact ⟨0, Or.inl ⟨⟨sign, ha⟩, rfl⟩⟩
  | finite sign m e hm =>
      rw [ha] at hnonneg
      cases sign with
      | negative => contradiction
      | positive => exact ⟨_, Or.inr ⟨m, e, hm, ha, rfl⟩⟩

/-! ### Sums and quotients -/

theorem roundsTo_self (x : ℚ) : RoundsTo x x := fun _ _ _ => ⟨id, id⟩

/-- A number of which some power of two is no less is rounded to a finite double. -/
theorem IsRounded.exists_denotes {u : UnpackedFloat} (h : IsRounded .positive x u) {g : Int}
    (hleast : -1022 ≤ g) (hfits : g ≤ 1023) (hx : x ≤ 2 ^ g) :
    ∃ r, Denotes (encoded u) r ∧ RoundsTo x r := by
  obtain ⟨r, hrounds, ⟨hr, rfl⟩ | ⟨m, e, hcanonical, hr, rfl⟩⟩ := h
  · exact ⟨r, Or.inl ⟨isZero_encoded _, hr⟩, hrounds⟩
  · have hle := hrounds.le_power hleast hx
    rw [hr, ← value_power g] at hle
    have hexponent : e ≤ 971 := by
      by_contra hlarge
      exact absurd ((canonical_power hleast).value_lt hcanonical (by omega)) (not_lt.mpr hle)
    exact ⟨r, Or.inr ⟨m, e, hcanonical.pos, decoded_encoded _ hcanonical hexponent, hr⟩, hrounds⟩

theorem decreaseExponent_value (m : Nat) {e g : Int} (h : g ≤ e) :
    ((decreaseExponent m e g).1 : ℚ) * 2 ^ g = m * 2 ^ e := by
  obtain ⟨k, rfl⟩ := Int.le.dest h
  have hcount : (g + k - g).toNat = k := by omega
  unfold decreaseExponent
  simp only [hcount, Nat.shiftLeft_eq]
  rw [two_zpow_add, zpow_natCast]
  push_cast
  ring

theorem decreaseExponent_pos {m : Nat} (hm : 0 < m) (e g : Int) :
    0 < (decreaseExponent m e g).1 := by
  unfold decreaseExponent
  dsimp only
  rw [Nat.shiftLeft_eq]
  positivity

theorem normalize_of_pos {m : Nat} (hm : 0 < m) (e : Int) (sign : Sign) :
    UnpackedFloat.normalize .binary64 m e sign = UnpackedFloat.round .binary64 .positive m e := by
  have hcompare : compare (m : Int) 0 = .gt := Int.compare_eq_gt.mpr (by exact_mod_cast hm)
  unfold UnpackedFloat.normalize
  rw [hcompare]
  rfl

/-- A sum is rounded from what the terms denote. -/
theorem Denotes.exists_add (ha : Denotes a v) (hb : Denotes b w) {g : Int} (hleast : -1022 ≤ g)
    (hfits : g ≤ 1023) (hle : v + w ≤ 2 ^ g) :
    ∃ r, Denotes (a + b) r ∧ RoundsTo (v + w) r := by
  rcases ha with ⟨ha, rfl⟩ | ⟨m, e, hm, ha, rfl⟩
  · rw [zero_add]
    exact ⟨w, hb.congr (Binary64.zero_add ha b), roundsTo_self w⟩
  · rcases hb with ⟨hb, rfl⟩ | ⟨n, d, hn, hb, rfl⟩
    · rw [add_zero]
      have hdenotes : Denotes a (m * 2 ^ e) := Or.inr ⟨m, e, hm, ha, rfl⟩
      exact ⟨_, hdenotes.congr (Binary64.add_zero hb a), roundsTo_self _⟩
    · have hsum : ∀ m' n' : Nat, Sign.positive.apply (m' : Int) + Sign.positive.apply (n' : Int) =
          ((m' + n' : Nat) : Int) := fun m' n' => (Nat.cast_add m' n').symm
      have hpos := decreaseExponent_pos hm e (min e d)
      have hvalue : ((((decreaseExponent m e (min e d)).1 + (decreaseExponent n d (min e d)).1 :
          Nat) : ℚ)) * 2 ^ min e d = m * 2 ^ e + n * 2 ^ d := by
        rw [Nat.cast_add, add_mul, decreaseExponent_value m (min_le_left e d),
          decreaseExponent_value n (min_le_right e d)]
      have hrounded := isRounded_round .positive (Nat.add_pos_left hpos
        (decreaseExponent n d (min e d)).1) (min e d)
      rw [hvalue] at hrounded
      rw [add_eq, ha, hb]
      unfold UnpackedFloat.add
      dsimp only
      rw [hsum, normalize_of_pos (Nat.add_pos_left hpos _)]
      exact hrounded.exists_denotes hleast hfits hle

theorem inCell_div (p : Nat) {n : Nat} (hn : 0 < n) :
    InCell ((p : ℚ) / n) (.ofMantissaAndAccuracy (p / n) (accuracyOfFraction (p % n) n)) := by
  have hn' : (0 : ℚ) < n := by exact_mod_cast hn
  have hsplit : (p : ℚ) / n = (p / n : Nat) + (p % n : Nat) / (n : ℚ) := by
    have : (p : ℚ) = n * (p / n : Nat) + (p % n : Nat) := by
      exact_mod_cast (Nat.div_add_mod p n).symm
    field_simp
    exact this
  have hbelow : ((p % n : Nat) : ℚ) / n < 1 := by
    rw [div_lt_one hn']
    exact_mod_cast Nat.mod_lt p hn
  refine ⟨?_, ?_, fun hbits => ?_⟩
  · rw [mantissa_ofMantissaAndAccuracy, hsplit]
    exact le_add_of_nonneg_right (div_nonneg (Nat.cast_nonneg _) hn'.le)
  · rw [mantissa_ofMantissaAndAccuracy, hsplit]
    linarith
  · have hrest : 0 < p % n := by
      refine Nat.pos_of_ne_zero fun hzero => ?_
      rw [accuracyOfFraction, if_pos hzero] at hbits
      contradiction
    rw [mantissa_ofMantissaAndAccuracy, hsplit]
    exact lt_add_of_pos_right _ (div_pos (by exact_mod_cast hrest) hn')

/-- The exponent that is chosen for a quotient leaves it enough bits. -/
theorem le_targetExponent_div {m n s : Nat} (hm : 0 < m) (hn : 0 < n) {e d g : Int}
    (hs : g + s = e - d)
    (hg : g ≤ Format.binary64.targetExponent (totalExponent m e - totalExponent n d)) :
    g ≤ Format.binary64.targetExponent (totalExponent (m * 2 ^ s / n) g) := by
  rw [targetExponent_eq]
  unfold Format.targetExponent totalExponent at hg
  rw [mantissaBits_binary64, minExponent_binary64] at hg
  by_cases hleast : g ≤ -1074
  · omega
  · obtain ⟨j, hj⟩ : ∃ j : Nat, n.log2 + 1 + j = m.log2 + s ∧ 52 ≤ j :=
      ⟨m.log2 + s - (n.log2 + 1), by push_cast at hg; omega, by push_cast at hg; omega⟩
    have hfull : 2 ^ j ≤ m * 2 ^ s / n := by
      rw [Nat.le_div_iff_mul_le hn]
      calc 2 ^ j * n ≤ 2 ^ j * 2 ^ (n.log2 + 1) := Nat.mul_le_mul_left _ Nat.lt_log2_self.le
        _ = 2 ^ m.log2 * 2 ^ s := by rw [← pow_add, ← pow_add, ← hj.1, add_comm]
        _ ≤ m * 2 ^ s := Nat.mul_le_mul_right _ (Nat.log2_self_le hm.ne')
    have hquotient : m * 2 ^ s / n ≠ 0 := fun hzero => by
      rw [hzero] at hfull
      exact absurd hfull (not_le.mpr (Nat.two_pow_pos j))
    have := (Nat.le_log2 hquotient).mpr hfull
    omega

/-- The quotient of two significands, with the exponent that is chosen for it. -/
theorem isRounded_divCore (sign : Sign) {m n : Nat} (hm : 0 < m) (hn : 0 < n) (e d : Int) :
    IsRounded sign (m * 2 ^ e / (n * 2 ^ d))
      (roundWithAccuracy .binary64 sign (divCore .binary64 m e n d).1
        (divCore .binary64 m e n d).2.1 (divCore .binary64 m e n d).2.2) := by
  unfold divCore
  dsimp only
  generalize hg : min (e - d)
    (Format.binary64.targetExponent (totalExponent m e - totalExponent n d)) = g
  have hle : g ≤ e - d := hg ▸ min_le_left _ _
  obtain ⟨s, hs⟩ := Int.le.dest hle
  have hcount : (e - d - g).toNat = s := by omega
  rw [hcount, Nat.shiftLeft_eq]
  have hscale : (m : ℚ) * 2 ^ e / (n * 2 ^ d) = (m * 2 ^ s : Nat) / (n : ℚ) * 2 ^ g := by
    have he : e = g + s + d := by omega
    have hn' : (n : ℚ) ≠ 0 := by exact_mod_cast hn.ne'
    have hd := (two_zpow_pos d).ne'
    rw [he, two_zpow_add, two_zpow_add, zpow_natCast]
    push_cast
    field_simp
  rw [hscale]
  exact isRounded_roundWithAccuracy sign (inCell_div _ hn)
    (le_targetExponent_div hm hn hs (hg ▸ min_le_right _ _))

theorem div_eq (x y : Float) :
    x / y = encoded (UnpackedFloat.div .binary64 (decoded x) (decoded y)) := rfl

/-- A quotient is rounded from what the parts denote. -/
theorem Denotes.exists_div (ha : Denotes a v) (hb : Denotes b w) (hw : 0 < w) {g : Int}
    (hleast : -1022 ≤ g) (hfits : g ≤ 1023) (hle : v / w ≤ 2 ^ g) :
    ∃ r, Denotes (a / b) r ∧ RoundsTo (v / w) r := by
  rcases hb with ⟨-, rfl⟩ | ⟨n, d, hn, hb, rfl⟩
  · exact absurd hw (lt_irrefl 0)
  · rcases ha with ⟨⟨sign, ha⟩, rfl⟩ | ⟨m, e, hm, ha, rfl⟩
    · rw [zero_div, div_eq, ha, hb]
      exact ⟨0, Or.inl ⟨isZero_encoded _, rfl⟩, roundsTo_self 0⟩
    · have hrounded := isRounded_divCore .positive hm hn e d
      rw [div_eq, ha, hb]
      exact hrounded.exists_denotes hleast hfits hle

/-! ### Sums that are zero -/

theorem encoded_of_large (sign : Sign) {m : Nat} {e : Int} (hm : 0 < m) (h : 971 < e) :
    encoded (.finite sign m e hm) = encoded (.infinity sign) := by
  have hlarge : 2 ^ Format.binary64.exponentBits ≤ (e + (Format.binary64.exponentBias : Int) +
      (Format.binary64.mantissaBitsWithoutImplicit : Int)).toNat + 1 := by
    change 2048 ≤ (e + (1023 : Nat) + (52 : Nat)).toNat + 1
    omega
  have hpack : UnpackedFloat.pack .binary64 (.finite sign m e hm) =
      UnpackedFloat.pack .binary64 (.infinity sign) := by
    unfold UnpackedFloat.pack
    dsimp only
    rw [if_pos hlarge]
  unfold encoded Float.Model.pack
  simp only [hpack]

/-- What is not too small is not rounded to zero. -/
theorem IsRounded.not_isZero {sign : Sign} {x : ℚ} {u : UnpackedFloat} (h : IsRounded sign x u)
    (hx : (2 : ℚ) ^ (-1074 : Int) ≤ x) : ¬ IsZero (encoded u) := by
  have hleast : Canonical 1 (-1074) := ⟨by norm_num, by norm_num, by norm_num, Or.inr rfl⟩
  rintro ⟨other, hzero⟩
  obtain ⟨r, hrounds, ⟨hr, rfl⟩ | ⟨m, e, hcanonical, -, rfl⟩⟩ := h
  · have hle := (hrounds 1 (-1074) hleast).1 (by rwa [Nat.cast_one, one_mul])
    rw [hr] at hle
    exact absurd hleast.value_pos (not_lt.mpr hle)
  · by_cases hfits : e ≤ 971
    · rw [decoded_encoded sign hcanonical hfits] at hzero
      contradiction
    · rw [encoded_of_large sign hcanonical.pos (not_le.mp hfits)] at hzero
      cases sign <;> contradiction

theorem decoded_encoded_notANumber : decoded (encoded .notANumber) = .notANumber := rfl

theorem decoded_encoded_infinity (sign : Sign) :
    decoded (encoded (.infinity sign)) = .infinity sign := by
  cases sign <;> rfl

theorem decoded_encoded_zero (sign : Sign) : decoded (encoded (.zero sign)) = .zero sign := by
  cases sign <;> rfl

theorem isRounded_normalize {m : Int} (hm : m ≠ 0) (e : Int) (sign : Sign) :
    ∃ other, IsRounded other (m.natAbs * 2 ^ e) (UnpackedFloat.normalize .binary64 m e sign) := by
  unfold UnpackedFloat.normalize
  have hpos : 0 < m.natAbs := Int.natAbs_pos.mpr hm
  rcases lt_or_gt_of_ne hm with hlt | hgt
  · have habs : (-m).toNat = m.natAbs := by omega
    rw [Int.compare_eq_lt.mpr hlt, habs]
    exact ⟨_, isRounded_round .negative hpos e⟩
  · have habs : m.toNat = m.natAbs := by omega
    rw [Int.compare_eq_gt.mpr hgt, habs]
    exact ⟨_, isRounded_round .positive hpos e⟩

theorem two_zpow_least_le {n : Nat} (hn : 0 < n) {e : Int} (he : -1074 ≤ e) :
    (2 : ℚ) ^ (-1074 : Int) ≤ n * 2 ^ e := by
  have hone : (1 : ℚ) ≤ n := by exact_mod_cast hn
  calc (2 : ℚ) ^ (-1074 : Int) ≤ 2 ^ e := zpow_le_zpow_right₀ (by norm_num) he
    _ ≤ n * 2 ^ e := le_mul_of_one_le_left (two_zpow_pos e).le hone

/-- A sum is a negative zero only if both of its terms are. -/
theorem decoded_add_ne {a : Float} (ha : decoded a ≠ .zero .negative) (b : Float) :
    decoded (a + b) ≠ .zero .negative := by
  rw [add_eq]
  unfold UnpackedFloat.add
  split
  · simp [decoded_encoded_notANumber]
  · simp [decoded_encoded_notANumber]
  · split
    · simp [decoded_encoded_infinity]
    · simp [decoded_encoded_notANumber]
  · simp [decoded_encoded_infinity]
  · simp [decoded_encoded_infinity]
  -- Two zeros add up to a negative one only if both are negative.
  next s t hx hy =>
    have hs : s = .positive := by cases s <;> simp_all
    split <;> simp [decoded_encoded_zero, hs]
  next hb =>
    rw [encoded_decoded]
    exact hb .negative
  next _ =>
    rw [encoded_decoded]
    exact ha
  next s m e hm t n d hn hx hy =>
    dsimp only
    generalize s.apply (decreaseExponent m e (min e d)).1 +
      t.apply (decreaseExponent n d (min e d)).1 = sum
    by_cases hsum : sum = 0
    · have hzero : UnpackedFloat.normalize .binary64 sum (min e d) .positive = .zero .positive := by
        unfold UnpackedFloat.normalize
        rw [Int.compare_eq_eq.mpr hsum]
      rw [hzero, decoded_encoded_zero]
      simp
    · have hleast : -1074 ≤ min e d :=
        le_min (canonical_of_decoded hx).1.least (canonical_of_decoded hy).1.least
      obtain ⟨other, hrounded⟩ := isRounded_normalize hsum (min e d) .positive
      intro hzero
      exact hrounded.not_isZero (two_zpow_least_le (Int.natAbs_pos.mpr hsum) hleast) ⟨_, hzero⟩

theorem add_isZero {x z : Float} (hx : decoded x ≠ .zero .negative) (hz : IsZero z) :
    x + z = x := by
  rcases Binary64.add_zero hz x with heq | ⟨⟨s, hsum⟩, ⟨t, hzero⟩⟩
  · exact heq
  · -- Both sides are zeros, and neither is the negative one.
    have hpositive : ∀ sign : Sign, sign ≠ .negative → sign = .positive := by
      intro sign hsign
      cases sign
      · exact absurd rfl hsign
      · rfl
    have hs : s = .positive := hpositive s fun h => decoded_add_ne hx z (h ▸ hsum)
    have ht : t = .positive := hpositive t fun h => hx (h ▸ hzero)
    rw [← encoded_decoded (x + z), hsum, hs, ← ht, ← hzero, encoded_decoded]

/-- A sum does not tell terms apart that differ in the sign of zero. -/
theorem add_congr {x v w : Float} (hx : decoded x ≠ .zero .negative) (h : Same v w) :
    x + v = x + w := by
  rcases h with rfl | ⟨hv, hw⟩
  · rfl
  · rw [add_isZero hx hv, add_isZero hx hw]

/-! ### Opposites -/

theorem neg_eq (x : Float) : -x = encoded (UnpackedFloat.neg (decoded x)) := rfl

theorem neg_nonpos {x : Float} (h : 0 ≤ x) : -x ≤ 0 := by
  rw [le_eq, decoded_zero] at h
  rw [le_eq, decoded_zero, neg_eq]
  -- Of the numbers that are not negative, only zero may have either sign.
  cases hx : decoded x with
  | notANumber =>
      rw [hx] at h
      contradiction
  | infinity sign =>
      rw [hx] at h
      cases sign with
      | negative => contradiction
      | positive => rfl
  | zero sign =>
      rw [UnpackedFloat.neg, decoded_encoded_zero]
      rfl
  | finite sign m e hm =>
      rw [hx] at h
      cases sign with
      | negative => contradiction
      | positive =>
          obtain ⟨hcanonical, hfits⟩ := canonical_of_decoded hx
          rw [UnpackedFloat.neg]
          change ((decoded (encoded (.finite .negative m e hm))).compare _).any _ = true
          rw [decoded_encoded .negative hcanonical hfits]
          rfl

end ItemScoring.Binary64

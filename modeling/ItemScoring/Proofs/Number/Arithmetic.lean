import ItemScoring.Proofs.Number.Encoding

/-!
# Where arithmetic on doubles is exact

Products and sums of doubles are rounded, but not when a factor is one or a term
is zero.  This file proves the few identities of that kind that the value of an
expression depends on: `one_mul` and `mul_one` hold bit for bit, `isZero_mul`
gives a zero of either sign for a finite factor, and a zero of either sign
leaves a sum as it was (`zero_add`, `add_zero`).

Zeros are why these laws are not plain equations.  `Same` is equality up to the
sign of zero; sums and products keep it (`Same.add_right`, `Same.mul_left`), and among
numbers it is what `==` tests (`Same.beq`, `Same.of_beq`).
-/

namespace ItemScoring.Binary64

open Float.Model Float.Model.UnpackedFloat

/-- What a double stands for. -/
def decoded (x : Float) : UnpackedFloat := x.toModel.unpack

/-- The double that stands for a correctly rounded value. -/
def encoded (u : UnpackedFloat) : Float := .ofModel (Float.Model.pack u)

@[simp] theorem encoded_decoded (x : Float) : encoded (decoded x) = x :=
  congrArg Float.ofModel (pack_unpack x.toModel)

theorem mul_eq (x y : Float) :
    x * y = encoded (UnpackedFloat.mul .binary64 (decoded x) (decoded y)) := rfl

theorem add_eq (x y : Float) :
    x + y = encoded (UnpackedFloat.add .binary64 (decoded x) (decoded y)) := rfl

theorem decoded_one : decoded 1 = .finite .positive (2 ^ 52) (-52) (Nat.two_pow_pos 52) := rfl

theorem decoded_zero : decoded 0 = .zero .positive := rfl

/-! ### Rounding what needs no rounding -/

theorem targetExponent_eq (m : Nat) (e : Int) :
    Format.binary64.targetExponent (totalExponent m e) = max ((m.log2 : Int) + e - 52) (-1074) := by
  unfold Format.targetExponent totalExponent
  rw [mantissaBits_binary64, minExponent_binary64]
  congr 1
  push_cast
  omega

theorem targetExponent_of_canonical {m : Nat} {e : Int} (h : Canonical m e) :
    Format.binary64.targetExponent (totalExponent m e) = e := by
  have hlog : m.log2 ≤ 52 := by
    have := (Nat.log2_lt h.pos.ne').mpr h.lt
    omega
  have hleast := h.least
  rw [targetExponent_eq]
  rcases h.normal with hnormal | hnormal
  · rw [log2_of_normal hnormal h.lt]
    omega
  · omega

theorem log2_mul_pow {m : Nat} (hm : m ≠ 0) (k : Nat) : (m * 2 ^ k).log2 = m.log2 + k := by
  induction k with
  | zero => simp
  | succ k ih =>
      have hpos : m * 2 ^ k ≠ 0 := Nat.mul_ne_zero hm (by positivity)
      have hsplit : m * 2 ^ (k + 1) = 2 * (m * 2 ^ k) := by ring
      rw [hsplit, Nat.log2_two_mul hpos, ih]
      rfl

/-- Shifting out zeros loses nothing. -/
theorem shiftRight_mul_pow (m k : Nat) :
    (ExtendedMantissa.mk (m * 2 ^ k) false false) >>> k = ExtendedMantissa.mk m false false := by
  change k.repeat ExtendedMantissa.shiftRightOne _ = _
  induction k generalizing m with
  | zero => simp [Nat.repeat]
  | succ k ih =>
      have hsplit : m * 2 ^ (k + 1) = (m * 2) * 2 ^ k := by ring
      rw [Nat.repeat, hsplit, ih]
      simp [ExtendedMantissa.shiftRightOne]

theorem shiftToTargetExponent_of_canonical {m : Nat} {e : Int} (h : Canonical m e) (k : Nat) :
    shiftToTargetExponent .binary64 (m * 2 ^ k) (e - k) .exact =
      (ExtendedMantissa.mk m false false, e) := by
  have htotal : totalExponent (m * 2 ^ k) (e - k) = totalExponent m e := by
    unfold totalExponent
    rw [log2_mul_pow h.pos.ne']
    push_cast
    ring
  have hshift : (e - (e - (k : Int))).toNat = k := by omega
  have hexponent : e - (k : Int) + k = e := by omega
  simp only [shiftToTargetExponent, shiftToExponent, htotal, targetExponent_of_canonical h, hshift,
    hexponent, ExtendedMantissa.ofMantissaAndAccuracy, shiftRight_mul_pow]

/-- A canonical significand survives rounding, however many zeros follow it. -/
theorem roundWithAccuracy_of_canonical (sign : Sign) {m : Nat} {e : Int} (h : Canonical m e)
    (k : Nat) :
    roundWithAccuracy .binary64 sign (m * 2 ^ k) (e - k) .exact = .finite sign m e h.pos := by
  have hrounded : (ExtendedMantissa.mk m false false).roundedMantissa = m := rfl
  have hagain := shiftToTargetExponent_of_canonical h 0
  simp only [pow_zero, mul_one, Nat.cast_zero, sub_zero] at hagain
  unfold roundWithAccuracy
  simp only [shiftToTargetExponent_of_canonical h k, hrounded, hagain, h.pos.ne', dif_neg,
    not_false_eq_true]

/-! ### Multiplying by one -/

protected theorem one_mul (x : Float) : 1 * x = x := by
  rw [mul_eq, decoded_one]
  cases hx : decoded x with
  | infinity sign => cases sign <;> rw [← encoded_decoded x, hx] <;> rfl
  | notANumber => rw [← encoded_decoded x, hx]; rfl
  | zero sign => cases sign <;> rw [← encoded_decoded x, hx] <;> rfl
  | finite sign m e hpos =>
      have hround := roundWithAccuracy_of_canonical sign (canonical_of_unpack hx) 52
      have hcomm : 2 ^ 52 * m = m * 2 ^ 52 := Nat.mul_comm _ _
      have hexponent : -52 + e = e - (52 : Nat) := by omega
      have hsign : Sign.positive * sign = sign := by cases sign <;> rfl
      rw [← encoded_decoded x, hx]
      simp only [UnpackedFloat.mul, hcomm, hexponent, hsign, hround]

protected theorem mul_one (x : Float) : x * 1 = x := by
  rw [mul_eq, decoded_one]
  cases hx : decoded x with
  | infinity sign => cases sign <;> rw [← encoded_decoded x, hx] <;> rfl
  | notANumber => rw [← encoded_decoded x, hx]; rfl
  | zero sign => cases sign <;> rw [← encoded_decoded x, hx] <;> rfl
  | finite sign m e hpos =>
      have hround := roundWithAccuracy_of_canonical sign (canonical_of_unpack hx) 52
      have hexponent : e + -52 = e - (52 : Nat) := by omega
      have hsign : sign * Sign.positive = sign := by cases sign <;> rfl
      rw [← encoded_decoded x, hx]
      simp only [UnpackedFloat.mul, hexponent, hsign, hround]

/-! ### Zeros -/

/-- Zero of either sign. -/
def IsZero (x : Float) : Prop := ∃ sign, decoded x = .zero sign

theorem isZero_encoded (sign : Sign) : IsZero (encoded (.zero sign)) :=
  ⟨sign, by cases sign <;> rfl⟩

theorem isZero_zero : IsZero 0 := ⟨.positive, decoded_zero⟩

theorem IsZero.isFinite {x : Float} (h : IsZero x) : x.isFinite = true := by
  obtain ⟨sign, hx⟩ := h
  change (decoded x).isFinite = true
  rw [hx]
  rfl

theorem isZero_mul {x : Float} (h : x.isFinite = true) : IsZero (x * 0) := by
  change (decoded x).isFinite = true at h
  rw [mul_eq, decoded_zero]
  cases hx : decoded x with
  | infinity sign => rw [hx] at h; contradiction
  | notANumber => rw [hx] at h; contradiction
  | zero sign => exact isZero_encoded _
  | finite sign m e hpos => exact isZero_encoded _

/-! ### Equality up to the sign of zero -/

/-- Two doubles are the same number, or the same special value. -/
def Same (x y : Float) : Prop := x = y ∨ IsZero x ∧ IsZero y

namespace Same

theorem refl (x : Float) : Same x x := Or.inl rfl

theorem symm {x y : Float} (h : Same x y) : Same y x := by
  rcases h with rfl | ⟨hx, hy⟩
  · exact refl x
  · exact Or.inr ⟨hy, hx⟩

theorem trans {x y z : Float} (hxy : Same x y) (hyz : Same y z) : Same x z := by
  rcases hxy with rfl | ⟨hx, hy⟩
  · exact hyz
  · rcases hyz with rfl | ⟨-, hz⟩
    · exact Or.inr ⟨hx, hy⟩
    · exact Or.inr ⟨hx, hz⟩

end Same

/-- A zero in front of a sum changes it in the sign of zero at most. -/
protected theorem zero_add {z : Float} (hz : IsZero z) (x : Float) : Same (z + x) x := by
  obtain ⟨sign, hz⟩ := hz
  rw [add_eq, hz]
  cases hx : decoded x with
  | infinity _ => exact Or.inl (by rw [← encoded_decoded x, hx]; rfl)
  | notANumber => exact Or.inl (by rw [← encoded_decoded x, hx]; rfl)
  | zero other =>
      refine Or.inr ⟨?_, ⟨other, hx⟩⟩
      unfold UnpackedFloat.add
      dsimp only
      split <;> exact isZero_encoded _
  | finite _ _ _ _ => exact Or.inl (by rw [← encoded_decoded x, hx]; rfl)

/-- A zero behind a sum changes it in the sign of zero at most. -/
protected theorem add_zero {z : Float} (hz : IsZero z) (x : Float) : Same (x + z) x := by
  obtain ⟨sign, hz⟩ := hz
  rw [add_eq, hz]
  cases hx : decoded x with
  | infinity _ => exact Or.inl (by rw [← encoded_decoded x, hx]; rfl)
  | notANumber => exact Or.inl (by rw [← encoded_decoded x, hx]; rfl)
  | zero other =>
      refine Or.inr ⟨?_, ⟨other, hx⟩⟩
      unfold UnpackedFloat.add
      dsimp only
      split <;> exact isZero_encoded _
  | finite _ _ _ _ => exact Or.inl (by rw [← encoded_decoded x, hx]; rfl)

theorem Same.add_right {x y : Float} (h : Same x y) (c : Float) : Same (x + c) (y + c) := by
  rcases h with rfl | ⟨hx, hy⟩
  · exact refl _
  · exact (Binary64.zero_add hx c).trans (Binary64.zero_add hy c).symm

theorem Same.add_left {x y : Float} (h : Same x y) (c : Float) : Same (c + x) (c + y) := by
  rcases h with rfl | ⟨hx, hy⟩
  · exact refl _
  · exact (Binary64.add_zero hx c).trans (Binary64.add_zero hy c).symm

theorem Same.mul_left {x y : Float} (h : Same x y) (c : Float) : Same (c * x) (c * y) := by
  rcases h with rfl | ⟨⟨s, hx⟩, ⟨t, hy⟩⟩
  · exact refl _
  · rw [mul_eq, mul_eq, hx, hy]
    cases decoded c with
    | infinity sign => exact refl _
    | notANumber => exact refl _
    | zero sign => exact Or.inr ⟨isZero_encoded _, isZero_encoded _⟩
    | finite sign m e hpos => exact Or.inr ⟨isZero_encoded _, isZero_encoded _⟩

theorem Same.mul_right {x y : Float} (h : Same x y) (c : Float) : Same (x * c) (y * c) := by
  rcases h with rfl | ⟨⟨s, hx⟩, ⟨t, hy⟩⟩
  · exact refl _
  · rw [mul_eq, mul_eq, hx, hy]
    cases decoded c with
    | infinity sign => exact refl _
    | notANumber => exact refl _
    | zero sign => exact Or.inr ⟨isZero_encoded _, isZero_encoded _⟩
    | finite sign m e hpos => exact Or.inr ⟨isZero_encoded _, isZero_encoded _⟩

/-! ### What is a number -/

theorem isNaN_unpack (b : BitVec Format.binary64.numBits) :
    (UnpackedFloat.unpack .binary64 b).isNaN = true ↔
      unpackExponent b = -1#11 ∧ unpackMantissa b ≠ 0#52 := by
  unfold UnpackedFloat.unpack
  dsimp only
  split
  next h => split <;> simp [UnpackedFloat.isNaN, *]
  next h =>
    refine iff_of_false ?_ fun hnan => h hnan.1
    split
    · split <;> simp [UnpackedFloat.isNaN]
    · simp [UnpackedFloat.isNaN]

/-- Encoding makes a number into a number. -/
theorem isNaN_encoded {u : UnpackedFloat} (h : u.isNaN = false) : (encoded u).isNaN = false := by
  suffices key :
      ¬ (UnpackedFloat.unpack .binary64 (UnpackedFloat.pack .binary64 u)).isNaN = true from
    Bool.not_eq_true _ ▸ key
  rw [isNaN_unpack]
  -- The pattern of a number has either another exponent than infinity or an empty mantissa.
  rintro ⟨hexponent, hmantissa⟩
  cases u with
  | notANumber => contradiction
  | infinity sign => exact hmantissa unpackMantissa_packComponents
  | zero sign =>
      rw [UnpackedFloat.pack, packedZero, unpackExponent_packComponents] at hexponent
      contradiction
  | finite sign m e hpos =>
      unfold UnpackedFloat.pack at hexponent hmantissa
      dsimp only at hexponent hmantissa
      split at hexponent
      next hlarge =>
        rw [if_pos hlarge] at hmantissa
        exact hmantissa unpackMantissa_packComponents
      next hlarge =>
        split at hexponent
        · rw [unpackExponent_packComponents] at hexponent
          have hall : (-1#11 : BitVec 11).toNat = 2047 := rfl
          have := congrArg BitVec.toNat hexponent
          rw [BitVec.toNat_ofNat, Nat.mod_eq_of_lt (by omega), hall] at this
          norm_num at hlarge
          omega
        · rw [unpackExponent_packComponents] at hexponent
          contradiction

theorem isNaN_roundWithAccuracy (sign : Sign) (m : Nat) (e : Int) (accuracy : Accuracy) :
    (roundWithAccuracy .binary64 sign m e accuracy).isNaN = false := by
  unfold roundWithAccuracy
  dsimp only
  split <;> rfl

theorem isNaN_normalize (m e : Int) (sign : Sign) :
    (UnpackedFloat.normalize .binary64 m e sign).isNaN = false := by
  unfold UnpackedFloat.normalize UnpackedFloat.round
  split
  · exact isNaN_roundWithAccuracy ..
  · rfl
  · exact isNaN_roundWithAccuracy ..

theorem isNaN_unpacked_mul {u v : UnpackedFloat} (hu : u.isFinite = true)
    (hv : v.isFinite = true) : (UnpackedFloat.mul .binary64 u v).isNaN = false := by
  cases u <;> cases v <;> first | contradiction | rfl | exact isNaN_roundWithAccuracy ..

theorem isNaN_unpacked_add {u v : UnpackedFloat} (hu : u.isNaN = false)
    (hv : v.isFinite = true) : (UnpackedFloat.add .binary64 u v).isNaN = false := by
  cases u <;> cases v <;> try first | contradiction | rfl | exact isNaN_normalize ..
  case zero.zero first second => cases first <;> cases second <;> rfl

/-- A product of finite doubles may overflow, but it is a number. -/
theorem isNaN_mul {x y : Float} (hx : x.isFinite = true) (hy : y.isFinite = true) :
    (x * y).isNaN = false :=
  isNaN_encoded (isNaN_unpacked_mul hx hy)

theorem isNaN_of_isFinite {x : Float} (h : x.isFinite = true) : x.isNaN = false := by
  change (decoded x).isFinite = true at h
  change (decoded x).isNaN = false
  cases hx : decoded x <;> rw [hx] at h <;> first | contradiction | rfl

/-- Adding a finite double to a number gives a number. -/
theorem isNaN_add {x c : Float} (hx : x.isNaN = false) (hc : c.isFinite = true) :
    (x + c).isNaN = false :=
  isNaN_encoded (isNaN_unpacked_add hx hc)

/-! ### Comparing -/

theorem compare_swap (u v : UnpackedFloat) : v.compare u = (u.compare v).map Ordering.swap := by
  have hlex (e d : Int) (m n : Nat) : (compare d e).then (compare n m) =
      ((compare e d).then (compare m n)).swap := by
    rw [Ordering.swap_then, ← Std.OrientedOrd.eq_swap, ← Std.OrientedOrd.eq_swap]
  rcases u with s | _ | s | ⟨s, m, e, hm⟩ <;> rcases v with t | _ | t | ⟨t, n, d, hn⟩ <;>
    (try cases s) <;> (try cases t) <;> try rfl
  case finite.finite.negative.negative =>
    exact congrArg (some ∘ Ordering.swap) (hlex e d m n)
  case finite.finite.positive.positive => exact congrArg some (hlex e d m n)

theorem compare_self {u : UnpackedFloat} (h : u.isNaN = false) : u.compare u = some .eq := by
  cases u with
  | notANumber => contradiction
  | infinity sign => cases sign <;> rfl
  | zero sign => rfl
  | finite sign m e hpos => cases sign <;> simp [UnpackedFloat.compare]

theorem exists_compare {u v : UnpackedFloat} (hu : u.isNaN = false) (hv : v.isNaN = false) :
    ∃ order, u.compare v = some order := by
  rcases u with s | _ | s | ⟨s, m, e, hm⟩ <;> rcases v with t | _ | t | ⟨t, n, d, hn⟩ <;>
    (try cases s) <;> (try cases t) <;> first | contradiction | exact ⟨_, rfl⟩

/-- What is not a number does not compare with anything. -/
theorem compare_of_isNaN {u v : UnpackedFloat} (h : u.isNaN = true ∨ v.isNaN = true) :
    u.compare v = none := by
  rcases u with s | _ | s | ⟨s, m, e, hm⟩ <;> rcases v with t | _ | t | ⟨t, n, d, hn⟩ <;>
    (try cases s) <;> (try cases t) <;> first | rfl | simp [UnpackedFloat.isNaN] at h

/-- Numbers that are the same up to the sign of zero compare as equal. -/
theorem Same.beq {x y : Float} (h : Same x y) (hy : y.isNaN = false) : (x == y) = true := by
  change ((decoded x).compare (decoded y) == some .eq) = true
  change (decoded y).isNaN = false at hy
  rcases h with rfl | ⟨⟨s, hx⟩, ⟨t, hy⟩⟩
  · rw [compare_self hy]
    rfl
  · rw [hx, hy]
    rfl

theorem compare_zero (s t : Sign) (u : UnpackedFloat) :
    (UnpackedFloat.zero s).compare u = (UnpackedFloat.zero t).compare u := by
  cases u with
  | infinity sign => cases sign <;> rfl
  | notANumber => rfl
  | zero sign => rfl
  | finite sign m e hpos => cases sign <;> rfl

theorem Same.compare_eq {x y : Float} (h : Same x y) (c : Float) :
    (decoded x).compare (decoded c) = (decoded y).compare (decoded c) := by
  rcases h with rfl | ⟨⟨s, hx⟩, ⟨t, hy⟩⟩
  · rfl
  · rw [hx, hy, compare_zero s t]

theorem eq_or_zero_of_compare {u v : UnpackedFloat} (h : u.compare v = some .eq) :
    u = v ∨ (∃ s, u = .zero s) ∧ ∃ t, v = .zero t := by
  rcases u with s | _ | s | ⟨s, m, e, hm⟩ <;> rcases v with t | _ | t | ⟨t, n, d, hn⟩ <;>
    (try cases s) <;> (try cases t) <;> simp_all [UnpackedFloat.compare, Ordering.then_eq_eq]

/-- Doubles that compare as equal are the same up to the sign of zero. -/
theorem Same.of_beq {x y : Float} (h : (x == y) = true) : Same x y := by
  change ((decoded x).compare (decoded y) == some .eq) = true at h
  rcases eq_or_zero_of_compare (beq_iff_eq.mp h) with heq | ⟨hx, hy⟩
  · have := congrArg encoded heq
    rw [encoded_decoded, encoded_decoded] at this
    exact Or.inl this
  · exact Or.inr ⟨hx, hy⟩

theorem isNaN_of_beq {x y : Float} (h : (x == y) = true) : x.isNaN = false := by
  change ((decoded x).compare (decoded y) == some .eq) = true at h
  change (decoded x).isNaN = false
  cases hx : decoded x with
  | notANumber => rw [hx] at h; contradiction
  | infinity sign => rfl
  | zero sign => rfl
  | finite sign m e hpos => rfl

theorem lt_eq (x y : Float) :
    x < y ↔ (decoded x).compare (decoded y) = some .lt := by
  change decide (x.toModel < y.toModel) = true ↔ _
  rw [decide_eq_true_iff]
  change ((decoded x).compare (decoded y) == some .lt) = true ↔ _
  rw [beq_iff_eq]

theorem le_eq (x y : Float) :
    x ≤ y ↔ ((decoded x).compare (decoded y)).any (·.isLE) = true := by
  change decide (x.toModel ≤ y.toModel) = true ↔ _
  rw [decide_eq_true_iff]
  rfl

protected theorem le_of_lt {x y : Float} (h : x < y) : x ≤ y := by
  rw [lt_eq] at h
  rw [le_eq, h]
  rfl

/-- Of two numbers, the first is above the second or at most the second. -/
theorem lt_iff_not_le {x t : Float} (hx : x.isNaN = false) (ht : t.isNaN = false) :
    t < x ↔ ¬ x ≤ t := by
  obtain ⟨order, horder⟩ := exists_compare (u := decoded x) (v := decoded t) hx ht
  rw [lt_eq, le_eq, compare_swap (decoded x), horder]
  cases order <;> decide

/-- A comparison does not tell apart what differs in the sign of zero. -/
theorem Same.le_iff {x y t u : Float} (hvalue : Same x y) (hthreshold : Same t u) :
    x ≤ t ↔ y ≤ u := by
  rw [le_eq, le_eq, hvalue.compare_eq, compare_swap (decoded t), hthreshold.compare_eq,
    ← compare_swap]

theorem Same.lt_iff {x y t u : Float} (hvalue : Same x y) (hthreshold : Same t u) :
    t < x ↔ u < y := by
  rw [lt_eq, lt_eq, hthreshold.compare_eq, compare_swap (decoded x), hvalue.compare_eq,
    ← compare_swap]

end ItemScoring.Binary64

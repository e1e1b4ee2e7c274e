import Mathlib
import ItemScoring.Number.Binary64

/-!
# Doubles and their bits

A double is known by its bits alone: encoding what a bit pattern stands for
gives the pattern back (`pack_unpack`).  On this rest the two views of a double
that the library uses.

* The view as a sign and a pattern, by which numbers are written and read:
  `ofPattern_pattern` puts a double together from its own sign and pattern, and
  `isFinite_iff` finds the finite doubles below the pattern of infinity.
* The view as a sign, a significand and an exponent, in which arithmetic is
  defined: `canonical_of_unpack` says which significands and exponents occur.
-/

namespace ItemScoring.Binary64

open Float.Model Float.Model.UnpackedFloat

/-! ### The format -/

theorem exponentBias_binary64 : Format.binary64.exponentBias = 1023 := rfl

theorem mantissaBits_binary64 : Format.binary64.mantissaBits = 53 := rfl

theorem minExponent_binary64 : Format.binary64.minExponent = -1074 := rfl

theorem log2_of_normal {m : Nat} (hlow : 2 ^ 52 ≤ m) (hhigh : m < 2 ^ 53) : m.log2 = 52 :=
  (Nat.log2_eq_iff (by omega)).mpr ⟨hlow, hhigh⟩

/-! ### The fields of a bit pattern -/

theorem toNat_unpackExponent (b : BitVec Format.binary64.numBits) :
    (unpackExponent b).toNat = b.toNat / 2 ^ 52 % 2 ^ 11 := by
  simp [unpackExponent, Nat.shiftRight_eq_div_pow]

/-- The leading one of a normal number is not stored. -/
theorem toNat_implicit_append (v : BitVec 52) : (1#1 ++ v).toNat = 2 ^ 52 + v.toNat := by
  rw [BitVec.toNat_append, ← Nat.shiftLeft_add_eq_or_of_lt v.isLt]
  rfl

/-! ### Encoding and decoding -/

/-- A double is the encoding of what it stands for. -/
theorem pack_unpack (f : Float.Model) : Float.Model.pack f.unpack = f := by
  obtain ⟨bits, valid⟩ := f
  have hbits := pack_unpack_of_valid valid
  simp only [Float.Model.pack, Float.Model.unpack, hbits]

/-! ### Canonical significands -/

/-- The significands and exponents of nonzero finite doubles: the significand
fills 53 bits unless the exponent is the least one. -/
structure Canonical (m : Nat) (e : Int) : Prop where
  pos : 0 < m
  lt : m < 2 ^ 53
  least : -1074 ≤ e
  normal : 2 ^ 52 ≤ m ∨ e = -1074

theorem canonical_of_unpack_bits {b : BitVec Format.binary64.numBits} {sign : Sign} {m : Nat}
    {e : Int} {hpos : 0 < m} (h : UnpackedFloat.unpack .binary64 b = .finite sign m e hpos) :
    Canonical m e := by
  have hmantissa : (unpackMantissa b).toNat < 2 ^ 52 := (unpackMantissa b).isLt
  unfold UnpackedFloat.unpack at h
  dsimp only at h
  split at h
  -- Infinities and values that are not numbers have no significand.
  next hexponent => split at h <;> simp at h
  next hexponent =>
    split at h
    next hsmall =>
      split at h
      next hzero => simp at h
      next hzero =>
        simp only [UnpackedFloat.finite.injEq] at h
        obtain ⟨-, rfl, rfl⟩ := h
        refine ⟨hpos, by omega, ?_, Or.inr ?_⟩ <;> simp [hsmall, exponentBias_binary64]
    next hsmall =>
      simp only [UnpackedFloat.finite.injEq] at h
      obtain ⟨-, rfl, rfl⟩ := h
      have hpositive : 0 < (unpackExponent b).toNat :=
        Nat.pos_of_ne_zero fun h => hsmall (BitVec.eq_of_toNat_eq h)
      rw [toNat_implicit_append]
      refine ⟨by omega, by omega, ?_, Or.inl (by omega)⟩
      rw [exponentBias_binary64]
      omega

theorem canonical_of_unpack {f : Float.Model} {sign : Sign} {m : Nat} {e : Int} {hpos : 0 < m}
    (h : f.unpack = .finite sign m e hpos) : Canonical m e :=
  canonical_of_unpack_bits h

theorem exponent_le_of_unpack {b : BitVec Format.binary64.numBits} {sign : Sign} {m : Nat}
    {e : Int} {hpos : 0 < m} (h : UnpackedFloat.unpack .binary64 b = .finite sign m e hpos) :
    e ≤ 971 := by
  have hfield : (unpackExponent b).toNat < 2 ^ 11 := (unpackExponent b).isLt
  have hbias : (Format.binary64.exponentBias : Int) + Format.binary64.mantissaBitsWithoutImplicit =
      1075 := rfl
  unfold UnpackedFloat.unpack at h
  dsimp only at h
  -- A field of all ones is no finite number, and one of zeros has the least exponent.
  split at h
  next hexponent => split at h <;> simp at h
  next hexponent =>
    have hall : (unpackExponent b).toNat ≠ 2047 := fun heq =>
      hexponent (BitVec.eq_of_toNat_eq heq)
    split at h
    next hsmall =>
      split at h
      next hzero => simp at h
      next hzero =>
        simp only [UnpackedFloat.finite.injEq] at h
        obtain ⟨-, -, rfl⟩ := h
        simp [hsmall, exponentBias_binary64]
    next hsmall =>
      simp only [UnpackedFloat.finite.injEq] at h
      obtain ⟨-, -, rfl⟩ := h
      have hbound : (unpackExponent b).toNat < 2047 := by omega
      rw [hbias]
      omega

theorem sign_ofBitVec (sign : Sign) : Sign.ofBitVec sign.toBitVec = sign := by
  cases sign <;> rfl

/-- A significand that is in its place is not lost in the bit pattern. -/
theorem unpack_pack_of_canonical (sign : Sign) {m : Nat} {e : Int} (h : Canonical m e)
    (hfits : e ≤ 971) :
    UnpackedFloat.unpack .binary64 (UnpackedFloat.pack .binary64 (.finite sign m e h.pos)) =
      .finite sign m e h.pos := by
  obtain ⟨hpos, hlt, hleast, hnormal⟩ := h
  have hbias : (Format.binary64.exponentBias : Int) + Format.binary64.mantissaBitsWithoutImplicit =
      1075 := rfl
  obtain ⟨biased, hbiased⟩ : ∃ biased : Nat, (biased : Int) = e + 1075 :=
    ⟨(e + 1075).toNat, by omega⟩
  have hfield : (e + (Format.binary64.exponentBias : Int) +
      (Format.binary64.mantissaBitsWithoutImplicit : Int)).toNat = biased := by
    rw [add_assoc, hbias]
    omega
  have hsmall : ¬ 2 ^ Format.binary64.exponentBits ≤ biased + 1 := by
    have : (2 : Nat) ^ Format.binary64.exponentBits = 2048 := rfl
    omega
  unfold UnpackedFloat.pack
  simp only [hfield, if_neg hsmall]
  by_cases hlow : 2 ^ 52 ≤ m
  · -- A normal number: the leading one is left out and put back.
    have hlog : m.log2 + 1 = Format.binary64.mantissaBits := by
      rw [log2_of_normal hlow hlt, mantissaBits_binary64]
    have hexponent : (BitVec.ofNat 11 biased).toNat = biased := by
      rw [BitVec.toNat_ofNat, Nat.mod_eq_of_lt (by omega)]
    have hones : ¬ BitVec.ofNat 11 biased = -1#11 := by
      intro heq
      have hall : (-1#11 : BitVec 11).toNat = 2047 := rfl
      have := congrArg BitVec.toNat heq
      omega
    have hzeros : ¬ BitVec.ofNat 11 biased = 0#11 := by
      intro heq
      have hnone : (0#11 : BitVec 11).toNat = 0 := rfl
      have := congrArg BitVec.toNat heq
      omega
    have hmantissa : (1#1 ++ BitVec.ofNat 52 m).toNat = m := by
      rw [toNat_implicit_append, BitVec.toNat_ofNat]
      omega
    rw [if_pos hlog]
    unfold UnpackedFloat.unpack
    simp only [unpackExponent_packComponents, unpackMantissa_packComponents,
      unpackSign_packComponents, sign_ofBitVec]
    rw [if_neg hones, if_neg hzeros]
    simp only [UnpackedFloat.finite.injEq, true_and]
    refine ⟨hmantissa, ?_⟩
    rw [hbias, hexponent]
    omega
  · -- A number below the normal ones: its exponent is known from the field of zeros.
    have hleastExponent : e = -1074 := hnormal.resolve_left hlow
    have hlog : ¬ m.log2 + 1 = Format.binary64.mantissaBits := by
      have := (Nat.log2_lt hpos.ne').mpr (show m < 2 ^ 52 by omega)
      rw [mantissaBits_binary64]
      omega
    have hmantissa : (BitVec.ofNat 52 m).toNat = m := by
      rw [BitVec.toNat_ofNat, Nat.mod_eq_of_lt (by omega)]
    have hnonzero : ¬ BitVec.ofNat 52 m = 0#52 := by
      intro heq
      have hnone : (0#52 : BitVec 52).toNat = 0 := rfl
      have := congrArg BitVec.toNat heq
      omega
    have hones : ¬ (0#11 : BitVec 11) = -1#11 := by decide
    rw [if_neg hlog]
    unfold UnpackedFloat.unpack
    simp only [unpackExponent_packComponents, unpackMantissa_packComponents,
      unpackSign_packComponents, sign_ofBitVec]
    rw [if_neg hones, if_pos trivial, dif_neg hnonzero]
    simp only [UnpackedFloat.finite.injEq, true_and]
    refine ⟨hmantissa, ?_⟩
    rw [hbias, hleastExponent]
    rfl

/-! ### Signs and patterns -/

/-- A double is put together from its sign and its pattern. -/
theorem ofPattern_pattern (x : Float) : ofPattern (isNegative x) (pattern x) = x := by
  have hbits : (if isNegative x then signWeight + pattern x else pattern x) = x.toBits.toNat := by
    have hlt : x.toBits.toNat < 2 * signWeight := UInt64.toNat_lt x.toBits
    have hsplit := Nat.div_add_mod x.toBits.toNat signWeight
    unfold isNegative pattern
    by_cases hsign : signWeight ≤ x.toBits.toNat
    · have hone : x.toBits.toNat / signWeight = 1 :=
        Nat.div_eq_of_lt_le (by omega) (by omega)
      rw [hone] at hsplit
      simp only [hsign, decide_true, if_true]
      omega
    · simp only [hsign, decide_false, Bool.false_eq_true, if_false]
      exact Nat.mod_eq_of_lt (by omega)
  unfold ofPattern
  rw [hbits, UInt64.ofNat_toNat, Float.ofBits_toBits]

theorem isFinite_unpack (b : BitVec Format.binary64.numBits) :
    (UnpackedFloat.unpack .binary64 b).isFinite = true ↔ unpackExponent b ≠ -1#11 := by
  unfold UnpackedFloat.unpack
  dsimp only
  split
  next h => split <;> simp [UnpackedFloat.isFinite, h]
  next h =>
    refine iff_of_true ?_ h
    split
    · split <;> rfl
    · rfl

/-- The finite doubles are those with a pattern below that of infinity. -/
theorem isFinite_iff (x : Float) : x.isFinite = true ↔ pattern x < infinity := by
  have hexponent : @unpackExponent .binary64 x.toBits.toBitVec ≠ -1#11 ↔
      x.toBits.toNat / 2 ^ 52 % 2 ^ 11 ≠ 2047 := by
    rw [← UInt64.toNat_toBitVec, ← toNat_unpackExponent]
    exact not_congr BitVec.toNat_inj.symm
  have hfinite : x.isFinite = true ↔ @unpackExponent .binary64 x.toBits.toBitVec ≠ -1#11 :=
    isFinite_unpack x.toBits.toBitVec
  rw [hfinite, hexponent]
  have hsign : signWeight = 2 ^ 63 := rfl
  have hinfinity : infinity = 2047 * 2 ^ 52 := rfl
  unfold pattern
  rw [hsign, hinfinity]
  omega

end ItemScoring.Binary64

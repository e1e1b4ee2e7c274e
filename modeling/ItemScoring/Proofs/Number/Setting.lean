import ItemScoring.Number.Layout
import ItemScoring.Proofs.Number.Encoding
import ItemScoring.Proofs.Number.ReadBack

/-!
# What numbers look like

A finite double is written as an optional minus and digits, with a point among them unless
nothing stands behind it.  Where the point is set does not matter for the value: the digits
in front of it and behind it, put together, are the shortest digits with zeros at one end
(`setPoint_parts`).  The rest is `Decimal.pattern_shortest`: the shortest digits read back.

All of this is about layouts that never write an exponent; whether a whole number ends in
`.0` is left open.
-/

namespace ItemScoring

theorem ne_of_isDigit {c d : Char} (hc : c.isDigit) (hd : d.isDigit = false) : c ≠ d := by
  intro heq
  subst heq
  simp [hd] at hc

namespace Layout

open Binary64 (infinity isNegative)

/-! ### Runs of digits -/

/-- Zero alone, or digits without a zero in front. -/
structure IsWhole (ds : List Char) : Prop where
  nonempty : ds ≠ []
  isDigit : ∀ d ∈ ds, d.isDigit
  plain : ds.head? = some '0' → ds = ['0']

theorem head?_toDigits_ne_zero {n : Nat} (hn : 0 < n) : (Nat.toDigits 10 n).head? ≠ some '0' := by
  induction n using Nat.strongRecOn with
  | ind n ih =>
      by_cases hsmall : n < 10
      · rw [Nat.toDigits_of_lt_base hsmall]
        intro hzero
        have hvalue := Nat.toNat_digitChar_sub_48_of_lt_ten hsmall
        rw [Option.some.inj hzero] at hvalue
        exact absurd hvalue hn.ne
      · rw [Nat.toDigits_of_base_le (by norm_num) (by omega),
          List.head?_append_of_ne_nil _ Nat.toDigits_ne_nil]
        exact ih (n / 10) (by omega) (by omega)

theorem isWhole_zero : IsWhole ['0'] :=
  ⟨by simp, List.forall_mem_singleton.mpr rfl, fun _ => rfl⟩

theorem isWhole_toDigits (n : Nat) : IsWhole (Nat.toDigits 10 n) := by
  refine ⟨Nat.toDigits_ne_nil, ?_, ?_⟩
  · intro d hd
    exact Nat.isDigit_of_mem_toDigits (by norm_num) (by norm_num) hd
  · intro hzero
    rcases Nat.eq_zero_or_pos n with rfl | hn
    · exact Nat.toDigits_zero 10
    · exact absurd hzero (head?_toDigits_ne_zero hn)

theorem valueOfDigits_toDigits (n : Nat) : Decimal.valueOfDigits (Nat.toDigits 10 n) = n :=
  Nat.ofDigitChars_ten_toDigits

theorem valueOfDigits_replicate_zero (zeros : Nat) :
    Decimal.valueOfDigits (List.replicate zeros '0') = 0 :=
  Nat.ofDigitChars_replicate_zero

theorem valueOfDigits_append (front back : List Char) :
    Decimal.valueOfDigits (front ++ back) =
      10 ^ back.length * Decimal.valueOfDigits front + Decimal.valueOfDigits back :=
  (Nat.ofDigitChars_append 0).trans Nat.ofDigitChars_eq_ofDigitChars_zero

theorem valueOfDigits_zeros_behind (n zeros : Nat) :
    Decimal.valueOfDigits (Nat.toDigits 10 n ++ List.replicate zeros '0') = 10 ^ zeros * n := by
  rw [valueOfDigits_append, valueOfDigits_toDigits, valueOfDigits_replicate_zero,
    List.length_replicate, Nat.add_zero]

theorem valueOfDigits_zeros_ahead (n zeros : Nat) :
    Decimal.valueOfDigits (List.replicate zeros '0' ++ Nat.toDigits 10 n) = n := by
  rw [valueOfDigits_append, valueOfDigits_toDigits, valueOfDigits_replicate_zero, Nat.mul_zero,
    Nat.zero_add]

theorem isDigit_of_mem_replicate {zeros : Nat} : ∀ d ∈ List.replicate zeros '0', d.isDigit := by
  intro d hd
  rw [List.eq_of_mem_replicate hd]
  rfl

/-- Digits and the zeros that fill them up are a whole number, unless zero is filled up. -/
theorem isWhole_zeros_behind {n zeros : Nat} (h : n = 0 → zeros = 0) :
    IsWhole (Nat.toDigits 10 n ++ List.replicate zeros '0') := by
  have hds := isWhole_toDigits n
  refine ⟨by simp [hds.nonempty], ?_, ?_⟩
  · intro d hd
    rcases List.mem_append.mp hd with hd | hd
    · exact hds.isDigit d hd
    · exact isDigit_of_mem_replicate d hd
  · intro hzero
    rw [List.head?_append_of_ne_nil _ hds.nonempty] at hzero
    rcases Nat.eq_zero_or_pos n with rfl | hn
    · rw [h rfl]
      rfl
    · exact absurd hzero (head?_toDigits_ne_zero hn)

/-- The first of some digits without a zero in front are so too. -/
theorem IsWhole.take {ds : List Char} {count : Nat} (h : IsWhole ds) (hcount : 0 < count) :
    IsWhole (ds.take count) := by
  obtain ⟨more, rfl⟩ : ∃ more, count = more + 1 := ⟨count - 1, by omega⟩
  obtain ⟨d, ds, rfl⟩ := List.exists_cons_of_ne_nil h.nonempty
  refine ⟨by simp, fun d hd => h.isDigit d (List.mem_of_mem_take hd), ?_⟩
  intro hzero
  rw [h.plain hzero]
  simp

/-! ### The point -/

/-- The minus of a number, if it has one. -/
def minus (negative : Bool) : List Char := if negative then ['-'] else []

/-- The point and the digits behind it, if there are any. -/
def behindPoint : List Char → List Char
  | [] => []
  | d :: ds => '.' :: d :: ds

theorem behindPoint_of_ne_nil {ds : List Char} (h : ds ≠ []) : behindPoint ds = '.' :: ds := by
  obtain ⟨d, ds, rfl⟩ := List.exists_cons_of_ne_nil h
  rfl

/-- The writer sets the point between two runs of digits whose value, as a reader takes it, is
that of the digits and the power of ten they were made from. -/
theorem setPoint_parts {n : Nat} {exponent : Int} (h : n = 0 → exponent = 0)
    (point negative : Bool) :
    ∃ whole part, setPoint point (Nat.toDigits 10 n) exponent = whole ++ behindPoint part ∧
      IsWhole whole ∧ (point = true → part ≠ []) ∧ (∀ d ∈ part, d.isDigit) ∧
      (Decimal.ofParts negative whole part 0).value = (Decimal.mk negative n exponent).value := by
  have hds := isWhole_toDigits n
  cases exponent with
  | ofNat zeros =>
      -- Zeros fill up to the point, and one more may stand behind it.
      have hwhole := @isWhole_zeros_behind n zeros (by simpa using h)
      cases point with
      | false =>
          refine ⟨Nat.toDigits 10 n ++ List.replicate zeros '0', [], rfl, hwhole, by simp, by simp,
            ?_⟩
          have hdigits := valueOfDigits_zeros_behind n zeros
          simp only [Decimal.value, Decimal.ofParts, List.append_nil, hdigits]
          push_cast
          simp
          ring
      | true =>
          refine ⟨Nat.toDigits 10 n ++ List.replicate zeros '0', ['0'], rfl, hwhole, by simp,
            List.forall_mem_singleton.mpr rfl, ?_⟩
          have hdigits := valueOfDigits_zeros_behind n (zeros + 1)
          rw [List.replicate_succ', ← List.append_assoc] at hdigits
          simp only [Decimal.value, Decimal.ofParts, hdigits]
          push_cast
          rw [pow_succ]
          simp
          ring
  | negSucc e =>
      -- The point stands among the digits, or zeros fill up from the point to the digits.
      by_cases hlength : e + 1 < (Nat.toDigits 10 n).length
      · have hne : (Nat.toDigits 10 n).drop ((Nat.toDigits 10 n).length - (e + 1)) ≠ [] := by
          intro hnil
          have := congrArg List.length hnil
          simp only [List.length_drop, List.length_nil] at this
          omega
        refine ⟨(Nat.toDigits 10 n).take ((Nat.toDigits 10 n).length - (e + 1)),
          (Nat.toDigits 10 n).drop ((Nat.toDigits 10 n).length - (e + 1)),
          ?_, hds.take (by omega), fun _ => hne, ?_, ?_⟩
        · simp [setPoint, hlength, behindPoint_of_ne_nil hne]
        · intro d hd
          exact hds.isDigit d (List.mem_of_mem_drop hd)
        · simp only [Decimal.value, Decimal.ofParts, List.take_append_drop, valueOfDigits_toDigits,
            List.length_drop]
          congr 2
          omega
      · have hne : List.replicate (e + 1 - (Nat.toDigits 10 n).length) '0' ++
            Nat.toDigits 10 n ≠ [] := by
          simp [hds.nonempty]
        refine ⟨['0'], List.replicate (e + 1 - (Nat.toDigits 10 n).length) '0' ++
          Nat.toDigits 10 n, ?_, isWhole_zero, fun _ => hne, ?_, ?_⟩
        · simp [setPoint, hlength, behindPoint_of_ne_nil hne]
        · intro d hd
          rcases List.mem_append.mp hd with hd | hd
          · exact isDigit_of_mem_replicate d hd
          · exact hds.isDigit d hd
        · have hdigits := valueOfDigits_zeros_ahead n (e + 1 - (Nat.toDigits 10 n).length + 1)
          rw [List.replicate_succ, List.cons_append] at hdigits
          simp only [Decimal.value, Decimal.ofParts, List.singleton_append, hdigits,
            List.length_append, List.length_replicate]
          congr 2
          omega

/-! ### Finite doubles -/

variable {layout : Layout}

/-- The magnitude of a finite double is set from digits that read back. -/
theorem magnitude_eq_setPoint (hlayout : layout.positional = none) {p : Nat} (hp : p < infinity) :
    ∃ n exponent,
      layout.magnitude p = setPoint layout.point (Nat.toDigits 10 n) exponent ∧
      (n = 0 → exponent = 0) ∧ ∀ negative, (Decimal.mk negative n exponent).pattern = p := by
  by_cases hzero : p = 0
  · subst hzero
    exact ⟨0, 0, rfl, fun _ => rfl, fun _ => rfl⟩
  · have hback := fun negative => Decimal.pattern_shortest negative layout.tie hp
    refine ⟨(Decimal.shortest layout.tie p).1, (Decimal.shortest layout.tie p).2, ?_, ?_, hback⟩
    · simp only [magnitude, if_neg hzero, isPositional, hlayout, if_true]
    · intro hdigits
      have hpattern := hback false
      rw [Decimal.pattern, if_pos hdigits] at hpattern
      exact absurd hpattern.symm hzero

theorem render_of_isFinite {x : Float} (hx : x.isFinite) :
    (layout.render x).toList =
      minus (isNegative x) ++ layout.magnitude (Binary64.pattern x) := by
  have hp := (Binary64.isFinite_iff x).mp hx
  rw [render]
  simp [hp.not_gt, hp.ne, minus]

/-- The text of a finite double, and the value that a reader makes of its parts. -/
theorem render_parts (hlayout : layout.positional = none) {x : Float} (hx : x.isFinite) :
    ∃ whole part, (layout.render x).toList = minus (isNegative x) ++ (whole ++ behindPoint part) ∧
      IsWhole whole ∧ (layout.point = true → part ≠ []) ∧ (∀ d ∈ part, d.isDigit) ∧
      (Decimal.ofParts (isNegative x) whole part 0).toFloat = x := by
  obtain ⟨n, exponent, htext, hexponent, hback⟩ :=
    magnitude_eq_setPoint hlayout ((Binary64.isFinite_iff x).mp hx)
  obtain ⟨whole, part, hparts, hwhole, hne, hpart, hvalue⟩ :=
    setPoint_parts hexponent layout.point (isNegative x)
  refine ⟨whole, part, by rw [render_of_isFinite hx, htext, hparts], hwhole, hne, hpart, ?_⟩
  rw [Decimal.toFloat, Decimal.pattern_congr hvalue, hback]
  exact Binary64.ofPattern_pattern x

end Layout

end ItemScoring

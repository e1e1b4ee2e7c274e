import ItemScoring.Proofs.Number.Setting

/-!
# Numbers behind digits

The digits of a number can be taken for the end of another number, with other digits in front.
These must not start with a zero, and they are digits of a number themselves then
(`IsNumeral.toDigits_eq`).  The least number that goes on so has a one behind them
(`IsNumeral.toDigits_concat_one`, `isNumeral_of_toDigits`).
-/

namespace ItemScoring

open Decimal (valueOfDigits)
open Layout (head?_toDigits_ne_zero valueOfDigits_append valueOfDigits_toDigits)

/-- At least one digit, and no zero in front. -/
structure IsNumeral (digits : List Char) : Prop where
  nonempty : digits ≠ []
  isDigit : ∀ d ∈ digits, d.isDigit
  noZero : digits.head? ≠ some '0'

theorem digitChar_of_isDigit {c : Char} (h : c.isDigit) :
    c.toNat - '0'.toNat < 10 ∧ Nat.digitChar (c.toNat - '0'.toNat) = c := by
  obtain ⟨hlow, hhigh⟩ := Char.isDigit_iff_toNat.mp h
  have hzero : '0'.toNat = 48 := rfl
  have hnine : '9'.toNat = 57 := rfl
  have hlt : c.toNat - '0'.toNat < 10 := by omega
  refine ⟨hlt, Char.toNat_inj.mp ?_⟩
  rw [Nat.toNat_digitChar_of_lt_ten hlt]
  omega

/-- Digits without a zero in front are the digits of their value. -/
theorem IsNumeral.toDigits_eq {digits : List Char} (h : IsNumeral digits) :
    0 < valueOfDigits digits ∧ Nat.toDigits 10 (valueOfDigits digits) = digits := by
  -- Digits are split off at the end, where the value has its remainder by ten.
  induction digits using List.reverseRecOn with
  | nil => exact absurd rfl h.nonempty
  | append_singleton front d ih =>
      obtain ⟨hlt, hchar⟩ := digitChar_of_isDigit (h.isDigit d (by simp))
      have hvalue : valueOfDigits (front ++ [d]) =
          10 * valueOfDigits front + (d.toNat - '0'.toNat) := by
        simp [valueOfDigits]
      rw [hvalue]
      by_cases hfront : front = []
      · subst hfront
        have hd : d ≠ '0' := fun heq => h.noZero (by simp [heq])
        have hpos : 0 < d.toNat - '0'.toNat := by
          refine Nat.pos_of_ne_zero fun hzero => hd ?_
          rw [← hchar, hzero]
          rfl
        have hnil : valueOfDigits [] = 0 := rfl
        rw [hnil, Nat.mul_zero, Nat.zero_add, Nat.toDigits_of_lt_base hlt, hchar]
        exact ⟨hpos, rfl⟩
      · have hshorter : IsNumeral front := by
          refine ⟨hfront, fun c hc => h.isDigit c (by simp [hc]), ?_⟩
          rw [← List.head?_append_of_ne_nil _ hfront]
          exact h.noZero
        obtain ⟨hpos, heq⟩ := ih hshorter
        rw [← Nat.toDigits_append_toDigits (by norm_num) hpos hlt, heq,
          Nat.toDigits_of_lt_base hlt, hchar]
        exact ⟨by omega, rfl⟩

/-- A number that goes on with the digits of another one behind some digits is as large as these
digits with a one behind them. -/
theorem isNumeral_of_toDigits {digits : List Char} {i j : Nat} (hnonempty : digits ≠ [])
    (hi : 0 < i) (hj : 0 < j) (h : Nat.toDigits 10 i = digits ++ Nat.toDigits 10 j) :
    IsNumeral digits ∧ 10 * valueOfDigits digits + 1 ≤ i := by
  constructor
  · refine ⟨hnonempty, fun d hd => ?_, ?_⟩
    · have hmem : d ∈ Nat.toDigits 10 i := h ▸ List.mem_append_left _ hd
      exact Nat.isDigit_of_mem_toDigits (by norm_num) (by norm_num) hmem
    · rw [← List.head?_append_of_ne_nil _ hnonempty, ← h]
      exact head?_toDigits_ne_zero hi
  · have hvalue := valueOfDigits_append digits (Nat.toDigits 10 j)
    rw [← h, valueOfDigits_toDigits, valueOfDigits_toDigits] at hvalue
    have hpower : 10 ^ 1 ≤ 10 ^ (Nat.toDigits 10 j).length :=
      Nat.pow_le_pow_right (by norm_num) Nat.length_toDigits_pos
    calc 10 * valueOfDigits digits + 1
        ≤ 10 ^ (Nat.toDigits 10 j).length * valueOfDigits digits + j :=
          Nat.add_le_add (Nat.mul_le_mul_right _ hpower) hj
      _ = i := hvalue.symm

theorem IsNumeral.toDigits_concat_one {digits : List Char} (h : IsNumeral digits) :
    Nat.toDigits 10 (10 * valueOfDigits digits + 1) = digits ++ Nat.toDigits 10 1 := by
  obtain ⟨hpos, heq⟩ := h.toDigits_eq
  rw [← Nat.toDigits_append_toDigits (by norm_num) hpos (by norm_num), heq]

end ItemScoring

import ItemScoring.Number.Reading
import ItemScoring.Proofs.Number.Arithmetic
import ItemScoring.Proofs.Number.Setting

/-!
# Texts of numbers

A layout that never writes an exponent gives every double a text of its own, since the
reader of data files returns the double that the text was made from (`floatOfText?_render`).
That includes the sign of a zero and of an infinity; a value that is not a number is one
value, whatever it came from.

Such a text is made of digits, a minus, a point and letters (`mem_render`).
-/

namespace ItemScoring

open Binary64 (infinity notANumber isNegative pattern ofPattern)

namespace Binary64

/-- A double is finite, infinite, or the one value that is not a number. -/
theorem finite_or_special (x : Float) : x.isFinite = true ∨
    (∃ negative, x = ofPattern negative infinity) ∨ x = ofPattern false notANumber := by
  have hfinite : x.isFinite = (decoded x).isFinite := rfl
  cases hx : decoded x with
  | zero sign => exact Or.inl (by rw [hfinite, hx]; rfl)
  | finite sign m e hpos => exact Or.inl (by rw [hfinite, hx]; rfl)
  | infinity sign =>
      refine Or.inr (Or.inl ?_)
      rw [← encoded_decoded x, hx]
      cases sign with
      | positive => exact ⟨false, rfl⟩
      | negative => exact ⟨true, rfl⟩
  | notANumber =>
      refine Or.inr (Or.inr ?_)
      rw [← encoded_decoded x, hx]
      rfl

end Binary64

namespace Layout

variable {layout : Layout}

theorem render_infinity (negative : Bool) :
    (layout.render (ofPattern negative infinity)).toList = minus negative ++ ['i', 'n', 'f'] := by
  have hpattern : pattern (ofPattern negative infinity) = infinity := by
    cases negative <;> rfl
  have hsign : isNegative (ofPattern negative infinity) = negative := by
    cases negative <;> rfl
  simp [render, hpattern, hsign, minus]

theorem render_notANumber : layout.render (ofPattern false notANumber) = layout.nan := by
  have hlt : infinity < pattern (ofPattern false notANumber) := by decide
  simp [render, hlt]

/-- What the text of a double is made of. -/
theorem mem_render (hlayout : layout.positional = none) {x : Float} {c : Char}
    (hc : c ∈ (layout.render x).toList) :
    c.isDigit ∨ c ∈ ['-', '.', 'i', 'n', 'f'] ∨ c ∈ layout.nan.toList := by
  have hminus : ∀ negative, c ∈ minus negative → c = '-' := by
    intro negative hmem
    cases negative <;> simp_all [minus]
  -- A finite number is written by digits, and each of the others by a word of its own.
  rcases Binary64.finite_or_special x with hx | ⟨negative, rfl⟩ | rfl
  · obtain ⟨whole, part, htext, hwhole, -, hpart, -⟩ := render_parts hlayout hx
    rw [htext, List.mem_append, List.mem_append] at hc
    rcases hc with hc | hc | hc
    · simp [hminus _ hc]
    · exact Or.inl (hwhole.isDigit c hc)
    · cases part with
      | nil => simp [behindPoint] at hc
      | cons d ds =>
          rcases List.mem_cons.mp hc with rfl | hc
          · simp
          · exact Or.inl (hpart c hc)
  · rw [render_infinity, List.mem_append] at hc
    rcases hc with hc | hc
    · simp [hminus _ hc]
    · exact Or.inr (Or.inl (by simp_all))
  · rw [render_notANumber] at hc
    exact Or.inr (Or.inr hc)

end Layout

namespace Decimal

open Layout (minus behindPoint IsWhole)

theorem splitSign_minus {c : Char} {cs : List Char} (negative : Bool) (hplus : c ≠ '+')
    (hminus : c ≠ '-') : splitSign (minus negative ++ c :: cs) = (negative, c :: cs) := by
  cases negative with
  | false => simp [minus, splitSign, hplus, hminus]
  | true => rfl

theorem splitDigits_append {ds rest : List Char} (hds : ∀ d ∈ ds, d.isDigit)
    (hrest : ∀ c ∈ rest.head?, c.isDigit = false) : splitDigits (ds ++ rest) = (ds, rest) := by
  have hstop : rest.takeWhile Char.isDigit = [] ∧ rest.dropWhile Char.isDigit = rest := by
    cases rest with
    | nil => exact ⟨rfl, rfl⟩
    | cons c cs => simp [hrest c rfl]
  rw [splitDigits, List.span_eq_takeWhile_dropWhile, List.takeWhile_append_of_pos hds,
    List.dropWhile_append_of_pos hds, hstop.1, hstop.2, List.append_nil]

/-- The parts of a number are read as they are set. -/
theorem ofUnsigned?_parts (negative : Bool) {whole part : List Char} (hwhole : IsWhole whole)
    (hpart : ∀ d ∈ part, d.isDigit) :
    ofUnsigned? negative (whole ++ behindPoint part) = some (ofParts negative whole part 0) := by
  have hpoint : ∀ c ∈ (behindPoint part).head?, c.isDigit = false := by
    intro c hc
    cases part with
    | nil => simp [behindPoint] at hc
    | cons d ds =>
        obtain rfl := Option.some.inj hc
        rfl
  have hfraction : splitFraction (behindPoint part) = (part, []) := by
    cases part with
    | nil => rfl
    | cons d ds =>
        have hall := @splitDigits_append (d :: ds) [] hpart (by simp)
        rwa [List.append_nil] at hall
  simp [ofUnsigned?, splitDigits_append hwhole.isDigit hpoint, hfraction, hwhole.nonempty, power?]

/-- A double reads back from its text. -/
theorem floatOfText?_render {layout : Layout} (hlayout : layout.positional = none)
    (hnan : floatOfText? layout.nan = some (ofPattern false notANumber)) (x : Float) :
    floatOfText? (layout.render x) = some x := by
  rcases Binary64.finite_or_special x with hx | ⟨negative, rfl⟩ | rfl
  · obtain ⟨whole, part, htext, hwhole, -, hpart, hfloat⟩ := Layout.render_parts hlayout hx
    have hread := ofUnsigned?_parts (isNegative x) hwhole hpart
    obtain ⟨d, ds, rfl⟩ := List.exists_cons_of_ne_nil hwhole.nonempty
    have hd := hwhole.isDigit d List.mem_cons_self
    have hsign := @splitSign_minus d (ds ++ behindPoint part) (isNegative x)
      (ne_of_isDigit hd rfl) (ne_of_isDigit hd rfl)
    rw [List.cons_append] at hread htext
    simp only [floatOfText?, htext, hsign, hread, hfloat]
  · have hsign := @splitSign_minus 'i' ['n', 'f'] negative (by decide) (by decide)
    simp only [floatOfText?, Layout.render_infinity, hsign]
    cases negative <;> rfl
  · rw [Layout.render_notANumber, hnan]

end Decimal

end ItemScoring

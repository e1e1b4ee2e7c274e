import ItemScoring.Proofs.Number.Setting
import ItemScoring.Toml.Scalar
import ItemScoring.Toml.Writing

/-!
# Numbers that read back

A number is written as an optional minus, digits and, if it is a float, a point and
more digits.  The reader takes each run of digits up to the first other character, so
what it returns is settled by what stands behind the number (`Delimited`).

That the digits around the point have the value of the float is known from how they are
set (`Layout.render_parts`).
-/

namespace ItemScoring.Toml

open Binary64 (isNegative)
open Layout (IsWhole isWhole_toDigits valueOfDigits_toDigits minus behindPoint_of_ne_nil)

/-- A comma, a closing bracket or a line end comes next. -/
def Delimited : List Char → Prop
  | c :: _ => c = ',' ∨ c = ']' ∨ c = '\n'
  | [] => False

theorem Delimited.exists_cons {rest : List Char} (h : Delimited rest) :
    ∃ c cs, rest = c :: cs ∧ (c = ',' ∨ c = ']' ∨ c = '\n') := by
  cases rest with
  | nil => exact h.elim
  | cons c cs => exact ⟨c, cs, rfl, h⟩

/-! ### Runs of digits -/

/-- Neither a digit nor an underscore comes next. -/
def EndsDigits (rest : List Char) : Prop := ∀ c ∈ rest.head?, c.isDigit = false ∧ c ≠ '_'

theorem Delimited.endsDigits {rest : List Char} (h : Delimited rest) : EndsDigits rest := by
  obtain ⟨c, cs, rfl, hc⟩ := h.exists_cons
  intro d hd
  obtain rfl := Option.some.inj hd
  rcases hc with rfl | rfl | rfl <;> decide

theorem endsDigits_point (cs : List Char) : EndsDigits ('.' :: cs) := by
  intro d hd
  obtain rfl := Option.some.inj hd
  decide

theorem ne_underscore_of_isDigit {c : Char} (h : c.isDigit) : c ≠ '_' := by
  intro heq
  subst heq
  exact absurd h (by decide)

theorem moreDigits_of_endsDigits {rest : List Char} (hrest : EndsDigits rest) :
    moreDigits Char.isDigit rest = some ([], rest) := by
  cases rest with
  | nil => simp [moreDigits]
  | cons c cs =>
      obtain ⟨hdigit, hunderscore⟩ := hrest c rfl
      simp [moreDigits, hdigit, hunderscore]

theorem moreDigits_append {ds rest : List Char} (hds : ∀ d ∈ ds, d.isDigit)
    (hrest : EndsDigits rest) : moreDigits Char.isDigit (ds ++ rest) = some (ds, rest) := by
  induction ds with
  | nil => exact moreDigits_of_endsDigits hrest
  | cons d ds ih =>
      obtain ⟨hd, hmore⟩ := List.forall_mem_cons.mp hds
      have hunderscore := ne_underscore_of_isDigit hd
      simp [moreDigits, hd, hunderscore, ih hmore]

theorem digits_append {ds rest : List Char} (hne : ds ≠ []) (hds : ∀ d ∈ ds, d.isDigit)
    (hrest : EndsDigits rest) : digits Char.isDigit (ds ++ rest) = some (ds, rest) := by
  cases ds with
  | nil => contradiction
  | cons d ds =>
      obtain ⟨hd, hmore⟩ := List.forall_mem_cons.mp hds
      simp [digits, hd, moreDigits_append hmore hrest]

/-! ### Digits in front of a point -/

theorem wholeDigits_append {ds rest : List Char} (hds : IsWhole ds) (hrest : EndsDigits rest) :
    wholeDigits (ds ++ rest) = some (ds, rest) := by
  cases ds with
  | nil => exact absurd rfl hds.nonempty
  | cons d ds =>
      by_cases hzero : d = '0'
      · subst hzero
        obtain rfl : ds = [] := (List.cons.inj (hds.plain rfl)).2
        rfl
      · have hdigits := digits_append hds.nonempty hds.isDigit hrest
        simpa [wholeDigits, hzero] using hdigits

/-! ### Numbers are no moments -/

/-- Behind any number of digits, a separator that does not follow is not found. -/
theorem fixedDigits_bind_expect {ds cs : List Char} {c separator : Char} (count : Nat)
    (hc : c.isDigit = false) (hne : c ≠ separator) (hds : ∀ d ∈ ds, d.isDigit)
    (hseparator : separator.isDigit = false) :
    ((fixedDigits count (ds ++ c :: cs)).map Prod.snd).bind (expect separator) = none := by
  rw [fixedDigits]
  split
  next htaken =>
    obtain ⟨hlength, hall⟩ := htaken
    -- A character that is no digit would be among those taken otherwise.
    have hle : count ≤ ds.length := by
      by_contra hlt
      obtain ⟨more, rfl⟩ : ∃ more, count = ds.length + (more + 1) :=
        ⟨count - ds.length - 1, by omega⟩
      rw [List.take_length_add_append, List.take_succ_cons, List.all_append, List.all_cons,
        hc] at hall
      simp at hall
    rw [List.drop_append_of_le_length hle]
    cases hdropped : ds.drop count with
    | nil => simp [expect, hne]
    | cons d more =>
        have hd : d.isDigit := hds d (List.mem_of_mem_drop (hdropped ▸ List.mem_cons_self))
        have hne' : d ≠ separator := by
          intro heq
          subst heq
          simp [hseparator] at hd
        simp [expect, hne']
  next => rfl

theorem startsMoment_digits {ds cs : List Char} {c : Char} (hds : ∀ d ∈ ds, d.isDigit)
    (hc : c.isDigit = false) (hdash : c ≠ '-') (hcolon : c ≠ ':') :
    startsMoment (ds ++ c :: cs) = false := by
  rw [startsMoment, fixedDigits_bind_expect 4 hc hdash hds rfl,
    fixedDigits_bind_expect 2 hc hcolon hds rfl]
  rfl

theorem startsMoment_minus (cs : List Char) : startsMoment ('-' :: cs) = false := by
  simp [startsMoment, fixedDigits]

/-! ### Parts of a number -/

theorem Delimited.fraction {rest : List Char} (h : Delimited rest) :
    fraction rest = some (none, rest) := by
  rcases h.exists_cons with ⟨c, cs, rfl, rfl | rfl | rfl⟩ <;> rfl

theorem Delimited.power {rest : List Char} (h : Delimited rest) :
    power rest = some (none, rest) := by
  rcases h.exists_cons with ⟨c, cs, rfl, rfl | rfl | rfl⟩ <;> rfl

theorem fraction_append {ds rest : List Char} (hne : ds ≠ []) (hds : ∀ d ∈ ds, d.isDigit)
    (hrest : EndsDigits rest) : fraction ('.' :: (ds ++ rest)) = some (some ds, rest) := by
  simp [fraction, digits_append hne hds hrest]

theorem sign_minus {d : Char} {cs : List Char} (negative : Bool) (hd : d.isDigit) :
    sign (minus negative ++ d :: cs) = ((negative, negative), d :: cs) := by
  have hplus := ne_of_isDigit hd (show '+'.isDigit = false from rfl)
  have hminus := ne_of_isDigit hd (show '-'.isDigit = false from rfl)
  cases negative <;> simp [minus, sign, hplus, hminus]

/-- Digits without the sign of another base are read as a decimal number. -/
theorem number_of_whole {ds rest : List Char} (negative : Bool) (hds : IsWhole ds)
    (hrest : ∀ c ∈ rest.head?, c ≠ 'x' ∧ c ≠ 'o' ∧ c ≠ 'b') :
    number (minus negative ++ (ds ++ rest)) = decimalNumber negative (ds ++ rest) := by
  obtain ⟨d, ds, rfl⟩ := List.exists_cons_of_ne_nil hds.nonempty
  have hd := hds.isDigit d List.mem_cons_self
  -- A zero in front stands alone, so that what comes next is in `rest`.
  have hnext : ∀ c cs, d :: (ds ++ rest) = '0' :: c :: cs → c ≠ 'x' ∧ c ≠ 'o' ∧ c ≠ 'b' := by
    intro c cs heq
    obtain ⟨hzero, hcs⟩ := List.cons.inj heq
    obtain rfl : ds = [] := (List.cons.inj (hds.plain (by rw [hzero, List.head?_cons]))).2
    rw [List.nil_append] at hcs
    subst hcs
    exact hrest c rfl
  rw [number, List.cons_append, sign_minus negative hd]
  split
  next heq => exact absurd rfl (hnext _ _ (Prod.mk.inj heq).2).1
  next heq => exact absurd rfl (hnext _ _ (Prod.mk.inj heq).2).2.1
  next heq => exact absurd rfl (hnext _ _ (Prod.mk.inj heq).2).2.2
  next heq =>
    have hi : d = 'i' := (List.cons.inj (Prod.mk.inj heq).2).1
    exact absurd hi (ne_of_isDigit hd rfl)
  next heq =>
    have hn : d = 'n' := (List.cons.inj (Prod.mk.inj heq).2).1
    exact absurd hn (ne_of_isDigit hd rfl)
  next heq =>
    obtain ⟨hsign, rfl⟩ := Prod.mk.inj heq
    rw [← (Prod.mk.inj hsign).2]

/-- What starts with digits or a minus is a number. -/
theorem scalar_of_whole {ds cs : List Char} {c : Char} (negative : Bool) (hds : IsWhole ds)
    (hc : c = '.' ∨ c = ',' ∨ c = ']' ∨ c = '\n') :
    scalar (minus negative ++ (ds ++ c :: cs)) = decimalNumber negative (ds ++ c :: cs) := by
  -- Digits could also begin a date or a time, but not with such a character behind them.
  have hmoment : startsMoment (minus negative ++ (ds ++ c :: cs)) = false := by
    cases negative with
    | true => exact startsMoment_minus _
    | false =>
        apply startsMoment_digits hds.isDigit <;> obtain rfl | rfl | rfl | rfl := hc <;> decide
  have hnumber : number (minus negative ++ (ds ++ c :: cs)) =
      decimalNumber negative (ds ++ c :: cs) := by
    apply number_of_whole negative hds
    intro d hd
    obtain rfl := Option.some.inj hd
    rcases hc with rfl | rfl | rfl | rfl <;> decide
  obtain ⟨d, ds, rfl⟩ := List.exists_cons_of_ne_nil hds.nonempty
  have hd := hds.isDigit d List.mem_cons_self
  have ht := ne_of_isDigit hd (show 't'.isDigit = false from rfl)
  have hf := ne_of_isDigit hd (show 'f'.isDigit = false from rfl)
  rw [← hnumber]
  cases negative <;> simp [scalar, minus, ht, hf] at hmoment ⊢ <;> simp [hmoment]

/-- A minus or a digit comes first. -/
def StartsNumber (cs : List Char) : Prop := ∃ c ∈ cs.head?, c = '-' ∨ c.isDigit

theorem startsNumber_minus {ds : List Char} (negative : Bool) (hds : IsWhole ds) (cs : List Char) :
    StartsNumber (minus negative ++ (ds ++ cs)) := by
  obtain ⟨d, ds, rfl⟩ := List.exists_cons_of_ne_nil hds.nonempty
  cases negative with
  | true => exact ⟨'-', rfl, .inl rfl⟩
  | false => exact ⟨d, rfl, .inr (hds.isDigit d List.mem_cons_self)⟩

/-! ### Integers -/

theorem toString_natural (n : Nat) :
    (toString (n : Int)).toList = minus false ++ (Nat.toDigits 10 n ++ []) := by
  rw [List.append_nil]
  exact Nat.toList_repr

theorem startsNumber_integer (n : Nat) : StartsNumber (toString (n : Int)).toList := by
  rw [toString_natural]
  exact startsNumber_minus false (isWhole_toDigits n) []

/-- An integer that fits into 64 bits reads back. -/
theorem scalar_integer {n : Nat} {rest : List Char} (hn : Decimal.isInt64 n)
    (hrest : Delimited rest) :
    scalar ((toString (n : Int)).toList ++ rest) = some (.integer n, rest) := by
  have hds := isWhole_toDigits n
  have hwhole := wholeDigits_append hds hrest.endsDigits
  have hread : decimalNumber false (Nat.toDigits 10 n ++ rest) = some (.integer n, rest) := by
    simp [decimalNumber, hwhole, hrest.fraction, hrest.power, numberOfParts,
      valueOfDigits_toDigits, integer?, hn]
  rw [toString_natural, List.append_nil, List.append_assoc, ← hread]
  obtain ⟨c, cs, rfl, hc⟩ := hrest.exists_cons
  exact scalar_of_whole false hds (.inr hc)

/-! ### Floats -/

/-- The text of a finite double, and the value that the reader makes of its parts. -/
theorem render_parts {x : Float} (hx : x.isFinite) :
    ∃ whole part, (numbers.render x).toList = minus (isNegative x) ++ (whole ++ '.' :: part) ∧
      IsWhole whole ∧ part ≠ [] ∧ (∀ d ∈ part, d.isDigit) ∧
      (Decimal.ofParts (isNegative x) whole part 0).toFloat = x := by
  obtain ⟨whole, part, htext, hwhole, hne, hpart, hfloat⟩ := @Layout.render_parts numbers rfl x hx
  rw [behindPoint_of_ne_nil (hne rfl)] at htext
  exact ⟨whole, part, htext, hwhole, hne rfl, hpart, hfloat⟩

theorem startsNumber_float {x : Float} (hx : x.isFinite) :
    StartsNumber (numbers.render x).toList := by
  obtain ⟨whole, part, htext, hwhole, -⟩ := render_parts hx
  rw [htext]
  exact startsNumber_minus _ hwhole _

/-- A finite double reads back, with all its digits and the sign of a zero. -/
theorem scalar_float {x : Float} {rest : List Char} (hx : x.isFinite) (hrest : Delimited rest) :
    scalar ((numbers.render x).toList ++ rest) = some (.float x, rest) := by
  obtain ⟨whole, part, htext, hwhole, hne, hpart, hfloat⟩ := render_parts hx
  have hread : decimalNumber (isNegative x) (whole ++ '.' :: (part ++ rest)) =
      some (.float x, rest) := by
    simp [decimalNumber, wholeDigits_append hwhole (endsDigits_point _),
      fraction_append hne hpart hrest.endsDigits, hrest.power, numberOfParts, hfloat, hx]
  rw [htext, ← hread, ← scalar_of_whole (isNegative x) hwhole (.inl rfl)]
  simp

end ItemScoring.Toml

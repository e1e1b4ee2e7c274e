import ItemScoring.Proofs.Number.NearestDouble
import ItemScoring.Proofs.Number.Texts

/-!
# Numbers and their spellings

`Decimal.Spells` says which texts are numbers, and which number a text is: an optional sign, digits
with an optional point among them or at either end, and an optional exponent.  The reader finds
these parts in exactly the texts that have them (`Decimal.spells_iff`), so that a number has the
nearest double (`Decimal.floatOfText?_isNearest`), and a text that is no number has none but for the
words of values that are not finite (`Decimal.floatOfText?_eq_none_iff`).
-/

namespace ItemScoring.Decimal

open Binary64 (signed IsNearest)

/-! ### Spellings -/

/-- An optional sign in front of a number, and whether it is a minus. -/
inductive IsSign : List Char → Bool → Prop
  | none : IsSign [] false
  | plus : IsSign ['+'] false
  | minus : IsSign ['-'] true

/-- Digits with an optional point among them or at either end, and the number they make. -/
inductive IsMantissa : List Char → ℚ → Prop
  | whole {digits : List Char} (nonempty : digits ≠ []) (isDigit : ∀ d ∈ digits, d.isDigit) :
      IsMantissa digits (valueOfDigits digits)
  | pointed {front back : List Char} (nonempty : front ≠ [] ∨ back ≠ [])
      (isDigit_front : ∀ d ∈ front, d.isDigit) (isDigit_back : ∀ d ∈ back, d.isDigit) :
      IsMantissa (front ++ '.' :: back) (valueOfDigits (front ++ back) / 10 ^ back.length)

/-- An optional exponent behind a number, and its value. -/
inductive IsExponent : List Char → Int → Prop
  | none : IsExponent [] 0
  | power {letter : Char} {sign digits : List Char} {negative : Bool}
      (isLetter : letter = 'e' ∨ letter = 'E') (isSign : IsSign sign negative)
      (nonempty : digits ≠ []) (isDigit : ∀ d ∈ digits, d.isDigit) :
      IsExponent (letter :: (sign ++ digits))
        (if negative then -valueOfDigits digits else valueOfDigits digits)

/-- The text is a decimal number, and which one. -/
def Spells (text : List Char) (v : ℚ) : Prop :=
  ∃ sign negative mantissa m exponent e, IsSign sign negative ∧ IsMantissa mantissa m ∧
    IsExponent exponent e ∧ text = sign ++ (mantissa ++ exponent) ∧ v = signed negative (m * 10 ^ e)

/-- The text is a word for a value that is not finite, in any case of letters. -/
def IsSpecialWord (text : List Char) : Prop :=
  ∃ sign negative word, IsSign sign negative ∧ text = sign ++ word ∧
    String.ofList (word.map Char.toLower) ∈ ["nan", "inf", "infinity"]

/-! ### Parts of a text -/

theorem isSign_splitSign (text : List Char) :
    ∃ sign, IsSign sign (splitSign text).1 ∧ text = sign ++ (splitSign text).2 := by
  unfold splitSign
  split
  · exact ⟨['-'], .minus, rfl⟩
  · exact ⟨['+'], .plus, rfl⟩
  · exact ⟨[], .none, rfl⟩

theorem splitSign_append {sign rest : List Char} {negative : Bool} (h : IsSign sign negative)
    (hrest : ∀ c ∈ rest.head?, c ≠ '+' ∧ c ≠ '-') :
    splitSign (sign ++ rest) = (negative, rest) := by
  cases h with
  | plus => rfl
  | minus => rfl
  | none =>
      cases rest with
      | nil => rfl
      | cons c rest =>
          obtain ⟨hplus, hminus⟩ := hrest c rfl
          simp [splitSign, hplus, hminus]

theorem splitDigits_spec (cs : List Char) :
    cs = (splitDigits cs).1 ++ (splitDigits cs).2 ∧ ∀ d ∈ (splitDigits cs).1, d.isDigit := by
  rw [splitDigits, List.span_eq_takeWhile_dropWhile]
  exact ⟨List.takeWhile_append_dropWhile.symm, List.all_eq_true.mp List.all_takeWhile⟩

theorem power?_eq_some_iff {cs : List Char} {e : Int} : power? cs = some e ↔ IsExponent cs e := by
  constructor
  · intro h
    cases cs with
    | nil =>
        obtain rfl := Option.some.inj h
        exact .none
    | cons letter rest =>
        rw [power?] at h
        split at h
        next hletter =>
          -- Behind the letter stands a sign or none, and then one digit or more.
          obtain ⟨sign, hsign, hrest⟩ := isSign_splitSign rest
          generalize splitSign rest = split at h hsign hrest
          obtain ⟨negative, digits⟩ := split
          dsimp only at h hsign hrest
          split at h
          · contradiction
          next hdigits =>
            obtain ⟨hnonempty, hall⟩ := not_or.mp hdigits
            obtain rfl := Option.some.inj h
            rw [hrest]
            refine .power hletter hsign (by simpa using hnonempty) ?_
            simpa using hall
        · contradiction
  · intro h
    cases h with
    | none => rfl
    | @power letter sign digits negative hletter hsign hnonempty hdigits =>
        have hhead : ∀ c ∈ digits.head?, c ≠ '+' ∧ c ≠ '-' := by
          intro c hc
          have hdigit := hdigits c (List.mem_of_mem_head? hc)
          exact ⟨ne_of_isDigit hdigit rfl, ne_of_isDigit hdigit rfl⟩
        have hvalid : ¬ (digits.isEmpty ∨ ¬ digits.all Char.isDigit) := by
          simp only [not_or, not_not, List.all_eq_true]
          exact ⟨by simpa using hnonempty, hdigits⟩
        simp only [power?, if_pos hletter, splitSign_append hsign hhead, if_neg hvalid]

theorem IsExponent.head {cs : List Char} {e : Int} (h : IsExponent cs e) :
    ∀ c ∈ cs.head?, c.isDigit = false ∧ c ≠ '.' := by
  intro c hc
  cases h with
  | none => simp at hc
  | power hletter =>
      obtain rfl := Option.some.inj hc
      rcases hletter with rfl | rfl <;> exact ⟨rfl, by decide⟩

theorem splitFraction_of_head {cs : List Char} (h : ∀ c ∈ cs.head?, c ≠ '.') :
    splitFraction cs = ([], cs) := by
  cases cs with
  | nil => rfl
  | cons c cs =>
      have hc := h c rfl
      simp [splitFraction, hc]

theorem ofParts_value (negative : Bool) (whole fraction : List Char) (e : Int) :
    (ofParts negative whole fraction e).value =
      valueOfDigits (whole ++ fraction) / 10 ^ fraction.length * 10 ^ e := by
  rw [ofParts, value, zpow_sub₀ (by norm_num), zpow_natCast]
  ring

/-- The reader of numbers finds a mantissa and an exponent behind it. -/
theorem ofUnsigned?_sound {negative : Bool} {cs : List Char} {x : Decimal}
    (h : ofUnsigned? negative cs = some x) :
    ∃ mantissa m exponent e, IsMantissa mantissa m ∧ IsExponent exponent e ∧
      cs = mantissa ++ exponent ∧ x.negative = negative ∧ x.value = m * 10 ^ e := by
  obtain ⟨hwhole, hwholeDigits⟩ := splitDigits_spec cs
  rw [ofUnsigned?] at h
  generalize splitDigits cs = split at h hwhole hwholeDigits
  obtain ⟨whole, rest⟩ := split
  dsimp only at h hwhole hwholeDigits
  have hparts : ∀ fraction exponent, splitFraction rest = (fraction, exponent) →
      ¬ (whole.isEmpty ∧ fraction.isEmpty) ∧ ∃ e, IsExponent exponent e ∧
        x.negative = negative ∧
        x.value = valueOfDigits (whole ++ fraction) / 10 ^ fraction.length * 10 ^ e := by
    intro fraction exponent hsplit
    rw [hsplit] at h
    dsimp only at h
    split at h
    · contradiction
    next hnonempty =>
      obtain ⟨e, he, rfl⟩ := Option.map_eq_some_iff.mp h
      exact ⟨hnonempty, e, power?_eq_some_iff.mp he, rfl, ofParts_value ..⟩
  -- Behind the whole digits stands a point with a fraction, or the exponent already.
  by_cases hpoint : ∃ behind, rest = '.' :: behind
  · obtain ⟨behind, rfl⟩ := hpoint
    obtain ⟨hfraction, hdigits⟩ := splitDigits_spec behind
    have hsplit : splitFraction ('.' :: behind) =
        ((splitDigits behind).1, (splitDigits behind).2) := rfl
    obtain ⟨hnonempty, e, he, hnegative, hvalue⟩ := hparts _ _ hsplit
    refine ⟨_, _, _, e, .pointed ?_ hwholeDigits hdigits, he, ?_, hnegative, hvalue⟩
    · by_contra hnone
      rw [not_or, not_not, not_not] at hnone
      exact hnonempty (by simp [hnone])
    · rw [hwhole, List.append_assoc, List.cons_append, ← hfraction]
  · have hsplit : splitFraction rest = ([], rest) := by
      refine splitFraction_of_head fun c hc heq => hpoint ⟨rest.tail, ?_⟩
      obtain ⟨behind, rfl⟩ := List.head?_eq_some_iff.mp hc
      rw [heq, List.tail_cons]
    obtain ⟨hnonempty, e, he, hnegative, hvalue⟩ := hparts _ _ hsplit
    rw [List.append_nil, List.length_nil, pow_zero, div_one] at hvalue
    exact ⟨whole, _, rest, e, .whole (by simpa using hnonempty) hwholeDigits, he, hwhole,
      hnegative, hvalue⟩

/-- Whatever is a mantissa and an exponent is read so. -/
theorem ofUnsigned?_complete (negative : Bool) {mantissa exponent : List Char} {m : ℚ} {e : Int}
    (hmantissa : IsMantissa mantissa m) (hexponent : IsExponent exponent e) :
    ∃ x, ofUnsigned? negative (mantissa ++ exponent) = some x ∧ x.negative = negative ∧
      x.value = m * 10 ^ e := by
  have hhead := hexponent.head
  have hpower := power?_eq_some_iff.mpr hexponent
  cases hmantissa with
  | whole hnonempty hdigits =>
      have hdigitsSplit := splitDigits_append hdigits fun c hc => (hhead c hc).1
      have hfraction := splitFraction_of_head fun c hc => (hhead c hc).2
      refine ⟨ofParts negative mantissa [] e, ?_, rfl, ?_⟩
      · simp [ofUnsigned?, hdigitsSplit, hfraction, hnonempty, hpower]
      · rw [ofParts_value, List.append_nil, List.length_nil, pow_zero, div_one]
  | @pointed front back hnonempty hfront hback =>
      -- The digits end at the point, and the fraction ends where the exponent begins.
      have hpoint : ∀ c ∈ ('.' :: (back ++ exponent)).head?, c.isDigit = false := by
        intro c hc
        obtain rfl := Option.some.inj hc
        rfl
      have hdigitsSplit := splitDigits_append hfront hpoint
      have hfraction : splitFraction ('.' :: (back ++ exponent)) = (back, exponent) :=
        splitDigits_append hback fun c hc => (hhead c hc).1
      have hsome : ¬ (front.isEmpty ∧ back.isEmpty) := by
        simpa only [List.isEmpty_iff, not_and_or] using hnonempty
      refine ⟨ofParts negative front back e, ?_, rfl, ofParts_value ..⟩
      rw [List.append_assoc, List.cons_append]
      simp only [ofUnsigned?, hdigitsSplit, hfraction, if_neg hsome, hpower, Option.map_some]

theorem IsMantissa.head {mantissa : List Char} {m : ℚ} (h : IsMantissa mantissa m) :
    ∃ c cs, mantissa = c :: cs ∧ (c.isDigit ∨ c = '.') := by
  cases h with
  | whole hnonempty hdigits =>
      obtain ⟨d, ds, rfl⟩ := List.exists_cons_of_ne_nil hnonempty
      exact ⟨d, ds, rfl, Or.inl (hdigits d List.mem_cons_self)⟩
  | @pointed front back hnonempty hfront hback =>
      cases front with
      | nil => exact ⟨'.', back, rfl, Or.inr rfl⟩
      | cons d ds => exact ⟨d, ds ++ '.' :: back, rfl, Or.inl (hfront d List.mem_cons_self)⟩

/-- A mantissa is told from a sign in front of it. -/
theorem splitSign_mantissa {sign mantissa rest : List Char} {negative : Bool} {m : ℚ}
    (hsign : IsSign sign negative) (hmantissa : IsMantissa mantissa m) :
    splitSign (sign ++ (mantissa ++ rest)) = (negative, mantissa ++ rest) := by
  obtain ⟨first, cs, rfl, hfirst⟩ := hmantissa.head
  refine splitSign_append hsign fun c hc => ?_
  obtain rfl := Option.some.inj hc
  rcases hfirst with hdigit | rfl
  · exact ⟨ne_of_isDigit hdigit rfl, ne_of_isDigit hdigit rfl⟩
  · exact ⟨by decide, by decide⟩

/-- A text is a number exactly if the reader finds one in it, and then it is that number. -/
theorem spells_iff {text : List Char} {v : ℚ} : Spells text v ↔
    ∃ x, ofUnsigned? (splitSign text).1 (splitSign text).2 = some x ∧ x.number = v := by
  constructor
  · rintro ⟨sign, negative, mantissa, m, exponent, e, hsign, hmantissa, hexponent, rfl, rfl⟩
    obtain ⟨x, hx, hnegative, hvalue⟩ := ofUnsigned?_complete negative hmantissa hexponent
    rw [splitSign_mantissa hsign hmantissa]
    exact ⟨x, hx, by rw [number, hnegative, hvalue]⟩
  · rintro ⟨x, hx, rfl⟩
    obtain ⟨sign, hsign, htext⟩ := isSign_splitSign text
    obtain ⟨mantissa, m, exponent, e, hmantissa, hexponent, hrest, hnegative, hvalue⟩ :=
      ofUnsigned?_sound hx
    refine ⟨sign, _, mantissa, m, exponent, e, hsign, hmantissa, hexponent, ?_, ?_⟩
    · rw [← hrest]
      exact htext
    · rw [number, hnegative, hvalue]

/-- A text is at most one number. -/
theorem Spells.unique {text : List Char} {v w : ℚ} (hv : Spells text v) (hw : Spells text w) :
    v = w := by
  obtain ⟨x, hx, rfl⟩ := spells_iff.mp hv
  obtain ⟨y, hy, rfl⟩ := spells_iff.mp hw
  obtain rfl := Option.some.inj (hx.symm.trans hy)
  rfl

/-! ### Reading numbers -/

theorem not_isFinite_special {negative : Bool} {cs : List Char} {x : Float}
    (h : specialOfWord? negative cs = some x) : x.isFinite = false := by
  rw [specialOfWord?] at h
  split at h
  · obtain rfl := Option.some.inj h
    cases negative <;> rfl
  · split at h
    · obtain rfl := Option.some.inj h
      cases negative <;> rfl
    · contradiction

theorem abs_number (x : Decimal) : |x.number| = x.value := by
  have hvalue : 0 ≤ x.value := by
    rw [value]
    positivity
  have hsub := Binary64.abs_signed_sub x.negative x.value 0
  rw [Binary64.signed_zero, sub_zero, sub_zero, abs_of_nonneg hvalue] at hsub
  exact hsub

/-- A finite double is only read from a number in the range of doubles, and is nearest to it. -/
theorem floatOfText?_isNearest {text : String} {x : Float} (h : floatOfText? text = some x)
    (hfinite : x.isFinite = true) :
    ∃ v, Spells text.toList v ∧ |v| < 2 ^ 1024 - 2 ^ 970 ∧ IsNearest x v := by
  rw [floatOfText?] at h
  dsimp only at h
  split at h
  next d hd =>
    obtain rfl := Option.some.inj h
    refine ⟨d.number, spells_iff.mpr ⟨d, hd, rfl⟩, ?_, isNearest_toFloat hfinite⟩
    rw [abs_number]
    exact isFinite_toFloat_iff.mp hfinite
  · rw [not_isFinite_special h] at hfinite
    contradiction

/-- A number is read, and as a finite double if it is in the range of doubles. -/
theorem floatOfText?_of_spells {text : String} {v : ℚ} (h : Spells text.toList v) :
    ∃ x, floatOfText? text = some x ∧ (x.isFinite = true ↔ |v| < 2 ^ 1024 - 2 ^ 970) := by
  obtain ⟨d, hd, rfl⟩ := spells_iff.mp h
  refine ⟨d.toFloat, ?_, ?_⟩
  · rw [floatOfText?]
    simp only [hd]
  · rw [isFinite_toFloat_iff, abs_number]

theorem specialOfWord?_eq_none_iff {negative : Bool} {cs : List Char} :
    specialOfWord? negative cs = none ↔
      String.ofList (cs.map Char.toLower) ∉ ["nan", "inf", "infinity"] := by
  rw [specialOfWord?]
  split
  next hnan => simp [hnan]
  next hnan =>
    split
    next hinf => simp [hinf]
    next hinf => simp [hnan, hinf]

theorem isSpecialWord_iff {text : List Char} : IsSpecialWord text ↔
    String.ofList ((splitSign text).2.map Char.toLower) ∈ ["nan", "inf", "infinity"] := by
  constructor
  · rintro ⟨sign, negative, word, hsign, rfl, hword⟩
    have hwords : ∀ text ∈ ["nan", "inf", "infinity"],
        text.toList.head? ≠ some '+' ∧ text.toList.head? ≠ some '-' := by
      decide
    have hhead : ∀ c ∈ word.head?, c ≠ '+' ∧ c ≠ '-' := by
      intro c hc
      obtain ⟨rest, rfl⟩ := List.head?_eq_some_iff.mp hc
      obtain ⟨hplus, hminus⟩ := hwords _ hword
      rw [String.toList_ofList, List.map_cons, List.head?_cons] at hplus hminus
      constructor <;> rintro rfl
      · exact hplus rfl
      · exact hminus rfl
    rwa [splitSign_append hsign hhead]
  · intro hword
    obtain ⟨sign, hsign, htext⟩ := isSign_splitSign text
    exact ⟨sign, _, _, hsign, htext, hword⟩

theorem toLower_of_isDigit {c : Char} (h : c.isDigit) : c.toLower = c := by
  simp only [Char.isDigit, Bool.and_eq_true, decide_eq_true_eq] at h
  refine dif_neg fun hcapital => ?_
  have hlt : 'A'.val ≤ '9'.val := UInt32.le_trans hcapital.1 h.2
  exact absurd hlt (by decide)

/-- No word for a value that is not finite is a number. -/
theorem Spells.not_isSpecialWord {text : List Char} {v : ℚ} (h : Spells text v) :
    ¬ IsSpecialWord text := by
  obtain ⟨sign, negative, mantissa, m, exponent, e, hsign, hmantissa, -, rfl, -⟩ := h
  rw [isSpecialWord_iff, splitSign_mantissa hsign hmantissa]
  intro hword
  -- Capital letters aside, the words start with another character than a mantissa.
  have hwords : ∀ text ∈ ["nan", "inf", "infinity"],
      text.toList.head? = some 'n' ∨ text.toList.head? = some 'i' := by
    decide
  obtain ⟨first, cs, rfl, hfirst⟩ := hmantissa.head
  have hletter := hwords _ hword
  rw [String.toList_ofList, List.cons_append, List.map_cons, List.head?_cons] at hletter
  rcases hfirst with hdigit | rfl
  · rw [toLower_of_isDigit hdigit] at hletter
    rcases hletter with h | h <;> rw [Option.some.inj h] at hdigit <;> contradiction
  · exact absurd hletter (by decide)

/-- Other texts than numbers and words for values that are not finite are not read. -/
theorem floatOfText?_eq_none_iff {text : String} :
    floatOfText? text = none ↔ (∀ v, ¬ Spells text.toList v) ∧ ¬ IsSpecialWord text.toList := by
  rw [isSpecialWord_iff, ← @specialOfWord?_eq_none_iff (splitSign text.toList).1, floatOfText?]
  dsimp only
  cases hread : ofUnsigned? (splitSign text.toList).1 (splitSign text.toList).2 with
  | none =>
      have hnone : ∀ v, ¬ Spells text.toList v := by
        intro v hv
        obtain ⟨x, hx, -⟩ := spells_iff.mp hv
        rw [hread] at hx
        contradiction
      simp [hnone]
  | some x =>
      have hsome : Spells text.toList x.number := spells_iff.mpr ⟨x, hread, rfl⟩
      refine iff_of_false (by simp) fun h => h.1 _ hsome

/-! ### The range of doubles -/

/-- The text is a word for a value that is not finite, or a number beyond the range of doubles. -/
def IsUnbounded (text : List Char) : Prop :=
  IsSpecialWord text ∨ ∃ v, Spells text v ∧ 2 ^ 1024 - 2 ^ 970 ≤ |v|

theorem IsUnbounded.not_bounded {text : List Char} {v : ℚ} (h : IsUnbounded text)
    (hspells : Spells text v) : ¬ |v| < 2 ^ 1024 - 2 ^ 970 := by
  obtain hspecial | ⟨w, hw, hlarge⟩ := h
  · exact absurd hspecial hspells.not_isSpecialWord
  · obtain rfl := hspells.unique hw
    exact not_lt.mpr hlarge

theorem not_isUnbounded {text : List Char} (hnumber : ∀ v, ¬ Spells text v)
    (hspecial : ¬ IsSpecialWord text) : ¬ IsUnbounded text := by
  rintro (h | ⟨v, hv, -⟩)
  · exact hspecial h
  · exact hnumber v hv

/-- A double that is not finite is only read from such a text. -/
theorem isUnbounded_of_floatOfText? {text : String} {x : Float} (h : floatOfText? text = some x)
    (hinfinite : x.isFinite = false) : IsUnbounded text.toList := by
  by_cases hspecial : IsSpecialWord text.toList
  · exact Or.inl hspecial
  · have hsome : ¬ ∀ v, ¬ Spells text.toList v := by
      intro hnone
      rw [floatOfText?_eq_none_iff.mpr ⟨hnone, hspecial⟩] at h
      contradiction
    obtain ⟨v, hv⟩ := not_forall_not.mp hsome
    obtain ⟨y, hy, hbounded⟩ := floatOfText?_of_spells hv
    obtain rfl := Option.some.inj (h.symm.trans hy)
    exact Or.inr ⟨v, hv, not_lt.mp (mt hbounded.mpr (by simp [hinfinite]))⟩

end ItemScoring.Decimal

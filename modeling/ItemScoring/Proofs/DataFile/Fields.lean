import ItemScoring.DataFile.Loading
import ItemScoring.Proofs.Number.Spelling

/-!
# Numbers in fields

The kind of a column decides how its fields are read.  `CellKind.Finds` says what a field comes to
in the end: nothing, a number, a word that is none, or a number beyond the range of doubles.
Numbers are told by their spelling, except in a column of truth values, whose words count as one
and zero.

What the loader makes of a cell that was read from a field is what the field comes to
(`CellKind.finds_found`), and a field comes to one thing only (`CellKind.Finds.agrees`).
-/

namespace ItemScoring

open Binary64 (IsNearest)
open Decimal (Spells IsSpecialWord IsUnbounded)

/-! ### Fields -/

/-- What a field may come to. -/
inductive Finding
  | empty
  | word
  | unbounded
  | finite (x : Float)

/-- What a number, if there is any, counts as. -/
def Finding.ofNumber : Option Float → Finding
  | none => .word
  | some x => if x.isFinite then .finite x else .unbounded

theorem Finding.ofNumber_of_isFinite {x : Float} (h : x.isFinite = true) :
    ofNumber (some x) = .finite x :=
  if_pos h

/-- The findings are the same, but for which number it is. -/
def Finding.Agrees : Finding → Finding → Prop
  | finite _, finite _ => True
  | first, second => first = second

theorem Finding.Agrees.eq {a b : Finding} (h : a.Agrees b) (ha : ∀ x, a ≠ .finite x) : a = b := by
  cases a with
  | finite x => exact absurd rfl (ha x)
  | empty => exact h
  | word => exact h
  | unbounded => exact h

namespace CellKind

/-- The text in a field, without the quotes around it and without blanks in front of numbers.
Outside of texts, the last byte of a field that starts with a quote is taken for its closing
quote. -/
def shown? : CellKind → Tsv.Piece → Option (List Char)
  | boolean, field => Text.whole? (Text.decode (Tsv.strip field))
  | text, field => (Tsv.text? field).map String.toList
  | _, field => (Text.whole? (Text.decode (Tsv.strip field))).map Tsv.dropBlanks

/-- Nothing is in the field.  Quotes alone are a text. -/
def IsBlank (kind : CellKind) (field : Tsv.Piece) : Prop :=
  if kind = text then field = [] else kind.shown? field = some []

/-- What a field of a column of the given kind comes to. -/
inductive Finds (kind : CellKind) (field : Tsv.Piece) : Finding → Prop
  | empty (blank : kind.IsBlank field) : Finds kind field .empty
  /-- The words for truth values count as numbers. -/
  | truth {word : List Char} {positive : Bool} (isBoolean : kind = boolean)
      (shown : kind.shown? field = some word)
      (word_eq : word.map Char.toLower = (if positive then "true" else "false").toList) :
      Finds kind field (.finite (if positive then 1 else 0))
  | number {text : List Char} {v : ℚ} {x : Float} (notBoolean : kind ≠ boolean)
      (filled : ¬ kind.IsBlank field) (shown : kind.shown? field = some text)
      (spells : Spells text v) (bounded : |v| < 2 ^ 1024 - 2 ^ 970) (nearest : IsNearest x v) :
      Finds kind field (.finite x)
  | word {word : List Char} (isText : kind = text) (filled : ¬ kind.IsBlank field)
      (shown : kind.shown? field = some word) (notNumber : ∀ v, ¬ Spells word v)
      (notSpecial : ¬ IsSpecialWord word) : Finds kind field .word
  | unbounded {text : List Char} (notBoolean : kind ≠ boolean) (filled : ¬ kind.IsBlank field)
      (shown : kind.shown? field = some text) (large : IsUnbounded text) :
      Finds kind field .unbounded

/-- What a cell that was read comes to. -/
def found (kind : CellKind) (cell : Option kind.Value) : Finding :=
  cell.elim .empty fun value => .ofNumber (kind.number? value)

variable {kind : CellKind} {field : Tsv.Piece}

/-! ### Reading fields -/

/-- A field with a text comes to what the text is read as. -/
theorem finds_of_floatOfText? {cs : List Char} (notBoolean : kind ≠ boolean)
    (filled : ¬ kind.IsBlank field) (shown : kind.shown? field = some cs) {x : Float}
    (hread : Decimal.floatOfText? (.ofList cs) = some x) :
    kind.Finds field (.ofNumber (some x)) := by
  by_cases hfinite : x.isFinite = true
  · obtain ⟨v, hv, hbounded, hnearest⟩ := Decimal.floatOfText?_isNearest hread hfinite
    rw [String.toList_ofList] at hv
    rw [Finding.ofNumber_of_isFinite hfinite]
    exact .number notBoolean filled shown hv hbounded hnearest
  · have hlarge := Decimal.isUnbounded_of_floatOfText? hread (Bool.eq_false_iff.mpr hfinite)
    rw [String.toList_ofList] at hlarge
    rw [Finding.ofNumber, if_neg hfinite]
    exact .unbounded notBoolean filled shown hlarge

/-- An integer is read from a number that it is. -/
theorem integer?_spells {cs : List Char} {n : Int} (h : Tsv.integer? cs = some n) :
    Spells cs n ∧ Decimal.isInt64 n = true := by
  obtain ⟨sign, hsign, hcs⟩ := Decimal.isSign_splitSign cs
  rw [Tsv.integer?] at h
  generalize Decimal.splitSign cs = split at h hsign hcs
  obtain ⟨negative, digits⟩ := split
  dsimp only at h hsign hcs
  split at h
  · contradiction
  next hvalid =>
    obtain ⟨hrange, hn⟩ := Option.ite_none_right_eq_some.mp h
    obtain rfl := Option.some.inj hn
    obtain ⟨hnonempty, hdigits⟩ := not_or.mp hvalid
    refine ⟨⟨sign, negative, digits, _, [], 0, hsign, .whole (by simpa using hnonempty)
      (by simpa using hdigits), .none, by rw [hcs, List.append_nil], ?_⟩, hrange⟩
    cases negative <;> simp [Binary64.signed]

theorem number?_eq_some {α : Type} {read : List Char → Option α} {cell : Option α}
    (h : Tsv.number? read field = some cell) :
    ∃ cs, (Text.whole? (Text.decode (Tsv.strip field))).map Tsv.dropBlanks = some cs ∧
      (cs = [] ∧ cell = none ∨ cs ≠ [] ∧ ∃ value, read cs = some value ∧ cell = some value) := by
  rw [Tsv.number?] at h
  cases hwhole : Text.whole? (Text.decode (Tsv.strip field)) with
  | none => simp [hwhole] at h
  | some cs =>
      simp only [hwhole] at h
      refine ⟨Tsv.dropBlanks cs, rfl, ?_⟩
      split at h
      next hblank => exact Or.inl ⟨hblank, (Option.some.inj h).symm⟩
      next hfilled =>
        obtain ⟨value, hvalue, rfl⟩ := Option.map_eq_some_iff.mp h
        exact Or.inr ⟨by simpa using hfilled, value, hvalue, rfl⟩

theorem finds_boolean {cell : Option Bool} (h : Tsv.bare? Tsv.boolean? field = some cell) :
    boolean.Finds field
      (cell.elim .empty fun value => .ofNumber (some (if value then 1 else 0))) := by
  rw [Tsv.bare?] at h
  split at h
  · contradiction
  next hwhole =>
    obtain rfl := Option.some.inj h
    exact .empty hwhole
  next cs hfilled hwhole =>
    obtain ⟨value, hvalue, rfl⟩ := Option.map_eq_some_iff.mp h
    -- Only the two words have a value, each its own.
    have hword : cs.map Char.toLower = (if value then "true" else "false").toList := by
      rw [Tsv.boolean?] at hvalue
      split at hvalue
      next htrue =>
        obtain rfl := Option.some.inj hvalue
        exact htrue
      next =>
        split at hvalue
        next hfalse =>
          obtain rfl := Option.some.inj hvalue
          exact hfalse
        · contradiction
    have hfinite : Finding.ofNumber (some (if value then 1 else 0)) =
        .finite (if value then 1 else 0) := by
      cases value <;> rfl
    rw [Option.elim_some, hfinite]
    exact .truth rfl hwhole hword

theorem finds_integer {cell : Option Int} (h : Tsv.number? Tsv.integer? field = some cell) :
    integer.Finds field
      (cell.elim .empty fun value => .ofNumber (some (Binary64.ofInt value))) := by
  obtain ⟨cs, hshown, ⟨rfl, rfl⟩ | ⟨hfilled, value, hvalue, rfl⟩⟩ := number?_eq_some h
  · exact .empty hshown
  · obtain ⟨hspells, hrange⟩ := integer?_spells hvalue
    have hnearest := Binary64.isNearest_ofInt hrange
    have hfull : ¬ integer.IsBlank field := by
      intro hblank
      exact hfilled (Option.some.inj (hshown.symm.trans hblank))
    rw [Option.elim_some, Finding.ofNumber_of_isFinite hnearest.finite]
    refine .number (by simp) hfull hshown hspells ?_ hnearest
    rw [← Int.cast_abs, Int.abs_eq_natAbs, Int.cast_natCast]
    exact Binary64.cast_natAbs_lt_limit hrange

theorem finds_float {cell : Option Float}
    (h : Tsv.number? (fun cs => Decimal.floatOfText? (.ofList cs)) field = some cell) :
    float.Finds field (cell.elim .empty fun value => .ofNumber (some value)) := by
  obtain ⟨cs, hshown, ⟨rfl, rfl⟩ | ⟨hfilled, value, hvalue, rfl⟩⟩ := number?_eq_some h
  · exact .empty hshown
  · have hfull : ¬ float.IsBlank field := by
      intro hblank
      exact hfilled (Option.some.inj (hshown.symm.trans hblank))
    exact finds_of_floatOfText? (by simp) hfull hshown hvalue

theorem finds_text {cell : Option String}
    (h : (if field.isEmpty then some none else (Tsv.text? field).map some) = some cell) :
    text.Finds field
      (cell.elim .empty fun value => .ofNumber (Decimal.floatOfText? value)) := by
  split at h
  next hempty =>
    obtain rfl := Option.some.inj h
    exact .empty (List.isEmpty_iff.mp hempty)
  next hfilled =>
    obtain ⟨value, hvalue, rfl⟩ := Option.map_eq_some_iff.mp h
    have hshown : text.shown? field = some value.toList := by rw [shown?, hvalue, Option.map_some]
    have hfull : ¬ text.IsBlank field := fun hblank => hfilled (List.isEmpty_iff.mpr hblank)
    rw [Option.elim_some]
    -- Texts are numbers as far as they are read as such; all others are words.
    cases hread : Decimal.floatOfText? value with
    | none =>
        obtain ⟨hnot, hspecial⟩ := Decimal.floatOfText?_eq_none_iff.mp hread
        exact .word rfl hfull hshown hnot hspecial
    | some x =>
        refine finds_of_floatOfText? (by simp) hfull hshown ?_
        rw [String.ofList_toList, hread]

/-- The reader of cells and the loader agree on what a field comes to. -/
theorem finds_found {cell : Option kind.Value} (h : kind.read? field = some cell) :
    kind.Finds field (kind.found cell) := by
  cases kind with
  | boolean => exact finds_boolean h
  | integer => exact finds_integer h
  | float => exact finds_float h
  | text => exact finds_text h

/-! ### Fields come to one thing -/

/-- The words for truth values are not empty. -/
theorem not_isBlank_of_truth {word : List Char} {positive : Bool} (hboolean : kind = boolean)
    (hshown : kind.shown? field = some word)
    (hword : word.map Char.toLower = (if positive then "true" else "false").toList) :
    ¬ kind.IsBlank field := by
  subst hboolean
  intro hblank
  obtain rfl := Option.some.inj (hshown.symm.trans hblank)
  cases positive <;> simp at hword

/-- A field comes to one thing only, except that the double nearest to a number may be one of two
zeros. -/
theorem Finds.agrees {a b : Finding} (ha : kind.Finds field a) (hb : kind.Finds field b) :
    a.Agrees b := by
  -- A number and another number agree whatever they are, so only readings of different sorts have
  -- to be told apart: by the field, which is blank or not, or by what is shown in it.
  cases ha with
  | empty blank =>
      cases hb with
      | empty => rfl
      | truth isBoolean shown word_eq =>
          exact absurd blank (not_isBlank_of_truth isBoolean shown word_eq)
      | number _ filled => exact absurd blank filled
      | word _ filled => exact absurd blank filled
      | unbounded _ filled => exact absurd blank filled
  | truth isBoolean shown word_eq =>
      cases hb with
      | empty blank => exact absurd blank (not_isBlank_of_truth isBoolean shown word_eq)
      | truth => trivial
      | number => trivial
      | word isText => exact absurd (isBoolean.symm.trans isText) (by simp)
      | unbounded notBoolean => exact absurd isBoolean notBoolean
  | number notBoolean filled shown spells bounded =>
      cases hb with
      | empty blank => exact absurd blank filled
      | truth => trivial
      | number => trivial
      | word _ _ shown' notNumber =>
          obtain rfl := Option.some.inj (shown.symm.trans shown')
          exact absurd spells (notNumber _)
      | unbounded _ _ shown' large =>
          obtain rfl := Option.some.inj (shown.symm.trans shown')
          exact absurd bounded (large.not_bounded spells)
  | word isText filled shown notNumber notSpecial =>
      cases hb with
      | empty blank => exact absurd blank filled
      | truth isBoolean => exact absurd (isBoolean.symm.trans isText) (by simp)
      | number _ _ shown' spells =>
          obtain rfl := Option.some.inj (shown.symm.trans shown')
          exact absurd spells (notNumber _)
      | word => rfl
      | unbounded _ _ shown' large =>
          obtain rfl := Option.some.inj (shown.symm.trans shown')
          exact absurd large (Decimal.not_isUnbounded notNumber notSpecial)
  | unbounded notBoolean filled shown large =>
      cases hb with
      | empty blank => exact absurd blank filled
      | truth isBoolean => exact absurd isBoolean notBoolean
      | number _ _ shown' spells bounded =>
          obtain rfl := Option.some.inj (shown.symm.trans shown')
          exact absurd bounded (large.not_bounded spells)
      | word _ _ shown' notNumber notSpecial =>
          obtain rfl := Option.some.inj (shown.symm.trans shown')
          exact absurd large (Decimal.not_isUnbounded notNumber notSpecial)
      | unbounded => rfl

end CellKind

end ItemScoring

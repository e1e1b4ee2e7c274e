import ItemScoring.Proofs.Expr.Readings
import ItemScoring.Proofs.Number.Arithmetic

/-!
# What evaluation comes to

Evaluation goes through an expression from left to right and asks the record for one column after
the other.  It fails as soon as a column has no value, so what it fails with is the first such
column of the list (`evaluate_eq_error_iff`): no factor zero in front of it, and no sum that is
infinite already, ends the evaluation before.

Of a record it takes nothing but the values in these columns (`sameOutcome`).  Two records that
agree in them have the same value or fail with the same column.  Agreement is a parameter there:
the values may be the very same ones, or the same as numbers, so that zeros may differ in sign.
-/

namespace ItemScoring

open Binary64 (Same)

namespace Expr

variable {record record₁ record₂ : Record}

/-! ### Failure -/

theorem lookup_eq_error {name : String} (h : record.value? name = none) :
    record.lookup name = .error (.unresolvedVariable name record.index) := by
  rw [Record.lookup, h]

theorem exists_value_of_none_absent {e : Expr}
    (h : ∀ name ∈ e.mentions, ¬ record.value? name = none) :
    ∃ value, e.evaluate record = .ok value :=
  exists_value e fun name hname => Option.ne_none_iff_exists'.mp (h name hname)

mutual

/-- Evaluation ends at the first column, from left to right, in which the record has no value. -/
theorem evaluate_of_firstIn : (e : Expr) → {name : String} →
    FirstIn (fun name => record.value? name = none) e.mentions name →
      e.evaluate record = .error (.unresolvedVariable name record.index)
  | .coefficient _, _, h => by simpa [mentions] using h.mem
  | .column found, name, h => by
      obtain rfl : name = found := List.mem_singleton.mp h.mem
      rw [evaluate, lookup_eq_error h.holds]
  | .indicator found _ _, name, h => by
      obtain rfl : name = found := List.mem_singleton.mp h.mem
      rw [evaluate, lookup_eq_error h.holds, error_bind]
  | .product factors, _, h => by
      rw [evaluate]
      exact multiplyAll_of_firstIn factors h 1
  | .sum terms, _, h => by
      rw [evaluate]
      exact addAll_of_firstIn terms h 0

theorem multiplyAll_of_firstIn : (factors : List Expr) → {name : String} →
    FirstIn (fun name => record.value? name = none) (mentionsAll factors) name →
      (running : Float) → multiplyAll record running factors =
        .error (.unresolvedVariable name record.index)
  | [], _, h, _ => by simpa [mentionsAll] using h.mem
  | factor :: rest, _, h, running => by
      rw [mentionsAll, firstIn_append] at h
      rw [multiplyAll]
      -- Either the factor fails, or it has a value and what follows fails.
      rcases h with hfactor | ⟨hpresent, hrest⟩
      · rw [evaluate_of_firstIn factor hfactor, error_bind]
      · obtain ⟨value, hvalue⟩ := exists_value_of_none_absent hpresent
        rw [hvalue, ok_bind]
        exact multiplyAll_of_firstIn rest hrest _

theorem addAll_of_firstIn : (terms : List Expr) → {name : String} →
    FirstIn (fun name => record.value? name = none) (mentionsAll terms) name →
      (running : Float) → addAll record running terms =
        .error (.unresolvedVariable name record.index)
  | [], _, h, _ => by simpa [mentionsAll] using h.mem
  | term :: rest, _, h, running => by
      rw [mentionsAll, firstIn_append] at h
      rw [addAll]
      rcases h with hterm | ⟨hpresent, hrest⟩
      · rw [evaluate_of_firstIn term hterm, error_bind]
      · obtain ⟨value, hvalue⟩ := exists_value_of_none_absent hpresent
        rw [hvalue, ok_bind]
        exact addAll_of_firstIn rest hrest _

end

/-- Evaluation fails exactly with the first column of the list in which the record has no
value. -/
theorem evaluate_eq_error_iff {e : Expr} {error : EvalError} : e.evaluate record = .error error ↔
    ∃ name, FirstIn (fun name => record.value? name = none) e.columns name ∧
      error = .unresolvedVariable name record.index := by
  simp only [columns, firstIn_eraseDups]
  constructor
  · intro herror
    -- If all columns were there, there would be a value.
    have hlacking : ∃ name ∈ e.mentions, record.value? name = none := by
      by_contra hnone
      push Not at hnone
      obtain ⟨value, hvalue⟩ := exists_value_of_none_absent hnone
      rw [hvalue] at herror
      contradiction
    obtain ⟨name, hname⟩ := exists_firstIn hlacking
    rw [evaluate_of_firstIn e hname] at herror
    exact ⟨name, hname, (Except.error.inj herror).symm⟩
  · rintro ⟨name, hname, rfl⟩
    exact evaluate_of_firstIn e hname

theorem evaluate_fails_iff {e : Expr} : (∃ error, e.evaluate record = .error error) ↔
    ∃ name ∈ e.columns, record.value? name = none := by
  simp only [evaluate_eq_error_iff]
  constructor
  · rintro ⟨_, name, hname, -⟩
    exact ⟨name, hname.mem, hname.holds⟩
  · intro hlacking
    obtain ⟨name, hname⟩ := exists_firstIn hlacking
    exact ⟨_, name, hname, rfl⟩

/-! ### Records that agree -/

/-- Arithmetic and tests cannot tell related values apart. -/
structure Compatible (R : Float → Float → Prop) : Prop where
  refl : ∀ x, R x x
  mul : ∀ {x y v w}, R x y → R v w → R (x * v) (y * w)
  add : ∀ {x y v w}, R x y → R v w → R (x + v) (y + w)
  holds : ∀ {x y}, R x y →
    ∀ (test : Comparison) (threshold : Float), test.holds x threshold = test.holds y threshold

theorem compatible_eq : Compatible fun x y => x = y where
  refl _ := rfl
  mul := by
    rintro x _ v _ rfl rfl
    rfl
  add := by
    rintro x _ v _ rfl rfl
    rfl
  holds := by
    rintro x _ rfl test threshold
    rfl

theorem compatible_same : Compatible Same where
  refl := .refl
  mul h h' := (h.mul_right _).trans (h'.mul_left _)
  add h h' := (h.add_right _).trans (h'.add_left _)
  holds := by
    intro x y h test threshold
    cases test with
    | atMost => exact decide_eq_decide.mpr (h.le_iff (.refl threshold))
    | above => exact decide_eq_decide.mpr (h.lt_iff (.refl threshold))

/-- Both evaluations have a value, and the values are related, or both fail with the same column,
each in the row of its record. -/
inductive SameOutcome (R : Float → Float → Prop) (record₁ record₂ : Record) :
    Except EvalError Float → Except EvalError Float → Prop
  | value {value₁ value₂ : Float} (related : R value₁ value₂) :
      SameOutcome R record₁ record₂ (.ok value₁) (.ok value₂)
  | failure (name : String) : SameOutcome R record₁ record₂
      (.error (.unresolvedVariable name record₁.index))
      (.error (.unresolvedVariable name record₂.index))

section Agreement

variable {R : Float → Float → Prop}

theorem SameOutcome.bind {x y : Except EvalError Float} {f g : Float → Except EvalError Float}
    (h : SameOutcome R record₁ record₂ x y)
    (hnext : ∀ {v w : Float}, R v w → SameOutcome R record₁ record₂ (f v) (g w)) :
    SameOutcome R record₁ record₂ (x >>= f) (y >>= g) := by
  cases h with
  | value related => exact hnext related
  | failure name => exact .failure name

theorem sameOutcome_lookup {name : String}
    (h : Option.Rel R (record₁.value? name) (record₂.value? name)) :
    SameOutcome R record₁ record₂ (record₁.lookup name) (record₂.lookup name) := by
  unfold Record.lookup
  generalize record₁.value? name = value₁?, record₂.value? name = value₂? at h
  cases h with
  | some related => exact .value related
  | none => exact .failure name

variable (hR : Compatible R)
include hR

mutual

/-- Evaluation takes nothing of a record but its values in the columns of the expression. -/
theorem sameOutcome : (e : Expr) →
    (∀ name ∈ e.mentions, Option.Rel R (record₁.value? name) (record₂.value? name)) →
      SameOutcome R record₁ record₂ (e.evaluate record₁) (e.evaluate record₂)
  | .coefficient value, _ => by
      rw [evaluate, evaluate]
      exact .value (hR.refl value)
  | .column name, h => by
      rw [evaluate, evaluate]
      exact sameOutcome_lookup (h name (by simp [mentions]))
  | .indicator name test threshold, h => by
      rw [evaluate, evaluate]
      refine (sameOutcome_lookup (h name (by simp [mentions]))).bind fun related => ?_
      rw [hR.holds related]
      exact .value (hR.refl _)
  | .product factors, h => by
      rw [evaluate, evaluate]
      exact sameOutcome_multiplyAll factors h (hR.refl 1)
  | .sum terms, h => by
      rw [evaluate, evaluate]
      exact sameOutcome_addAll terms h (hR.refl 0)

theorem sameOutcome_multiplyAll : (factors : List Expr) →
    (∀ name ∈ mentionsAll factors, Option.Rel R (record₁.value? name) (record₂.value? name)) →
      ∀ {running₁ running₂ : Float}, R running₁ running₂ → SameOutcome R record₁ record₂
        (multiplyAll record₁ running₁ factors) (multiplyAll record₂ running₂ factors)
  | [], _, _, _, hrunning => by
      rw [multiplyAll, multiplyAll]
      exact .value hrunning
  | factor :: rest, h, _, _, hrunning => by
      simp only [mentionsAll, List.mem_append] at h
      rw [multiplyAll, multiplyAll]
      refine (sameOutcome factor fun name hname => h name (Or.inl hname)).bind fun related => ?_
      exact sameOutcome_multiplyAll rest (fun name hname => h name (Or.inr hname))
        (hR.mul hrunning related)

theorem sameOutcome_addAll : (terms : List Expr) →
    (∀ name ∈ mentionsAll terms, Option.Rel R (record₁.value? name) (record₂.value? name)) →
      ∀ {running₁ running₂ : Float}, R running₁ running₂ → SameOutcome R record₁ record₂
        (addAll record₁ running₁ terms) (addAll record₂ running₂ terms)
  | [], _, _, _, hrunning => by
      rw [addAll, addAll]
      exact .value hrunning
  | term :: rest, h, _, _, hrunning => by
      simp only [mentionsAll, List.mem_append] at h
      rw [addAll, addAll]
      refine (sameOutcome term fun name hname => h name (Or.inl hname)).bind fun related => ?_
      exact sameOutcome_addAll rest (fun name hname => h name (Or.inr hname))
        (hR.add hrunning related)

end

end Agreement

/-- Records with the very same values in the columns have the very same outcome. -/
theorem sameOutcome_of_eq {e : Expr}
    (h : ∀ name ∈ e.columns, record₁.value? name = record₂.value? name) :
    SameOutcome (fun x y => x = y) record₁ record₂ (e.evaluate record₁) (e.evaluate record₂) := by
  refine sameOutcome compatible_eq e fun name hname => ?_
  rw [h name (mem_columns.mpr hname)]
  cases record₂.value? name with
  | some value => exact .some rfl
  | none => exact .none

theorem evaluate_congr {e : Expr} (hindex : record₁.index = record₂.index)
    (h : ∀ name ∈ e.columns, record₁.value? name = record₂.value? name) :
    e.evaluate record₁ = e.evaluate record₂ := by
  have houtcome := sameOutcome_of_eq h
  generalize e.evaluate record₁ = outcome₁, e.evaluate record₂ = outcome₂ at houtcome
  cases houtcome with
  | value related => rw [related]
  | failure name => rw [hindex]

/-- Records whose values in the columns are equal as numbers have outcomes that are, too. -/
theorem sameOutcome_of_beq {e : Expr} (h : ∀ name ∈ e.columns,
      Option.Rel (fun x y => (x == y) = true) (record₁.value? name) (record₂.value? name)) :
    SameOutcome Same record₁ record₂ (e.evaluate record₁) (e.evaluate record₂) := by
  refine sameOutcome compatible_same e fun name hname => ?_
  have hvalues := h name (mem_columns.mpr hname)
  generalize record₁.value? name = value₁?, record₂.value? name = value₂? at hvalues
  cases hvalues with
  | some hbeq => exact .some (.of_beq hbeq)
  | none => exact .none

/-- The columns of an expression are those that it reads, by first occurrence.  They decide whether
evaluation fails, which of them it fails with, and what it comes to otherwise. -/
theorem evaluate_reads_columns (e : Expr) : e.ListsColumns e.columns ∧
    (∀ record : Record,
      ((∃ error, e.evaluate record = .error error) ↔
        ∃ name ∈ e.columns, record.value? name = none) ∧
      ∀ error, e.evaluate record = .error error ↔
        ∃ name, FirstIn (fun name => record.value? name = none) e.columns name ∧
          error = .unresolvedVariable name record.index) ∧
    ∀ record₁ record₂ : Record,
      ((∀ name ∈ e.columns, record₁.value? name = record₂.value? name) →
        SameOutcome (fun x y => x = y) record₁ record₂
          (e.evaluate record₁) (e.evaluate record₂)) ∧
      ((∀ name ∈ e.columns, Option.Rel (fun x y => (x == y) = true)
          (record₁.value? name) (record₂.value? name)) →
        SameOutcome Same record₁ record₂ (e.evaluate record₁) (e.evaluate record₂)) :=
  ⟨listsColumns_columns e, fun _ => ⟨evaluate_fails_iff, fun _ => evaluate_eq_error_iff⟩,
    fun _ _ => ⟨sameOutcome_of_eq, sameOutcome_of_beq⟩⟩

/-- A column behind a zero and in front of an indicator, and the same column once more. -/
def zeroFactor : Expr :=
  .sum [.product [.coefficient 0, .column "size"], .indicator "age" .atMost 40, .column "size"]

/-- A record with an age only. -/
def ageRecord : Record where
  index := 3
  value? name := if name = "age" then some 41 else none

/-- A record with an age and a score, in another row. -/
def scoreRecord : Record where
  index := 7
  value? name := if name = "age" then some 41 else if name = "score" then some 2 else none

/-- The zero in front does not excuse the column that is absent, and the column that only one of
the records has makes no difference. -/
theorem evaluate_reads_columns_zeroFactor : zeroFactor.columns = ["size", "age"] ∧
    (∀ name ∈ zeroFactor.columns, ageRecord.value? name = scoreRecord.value? name) ∧
    zeroFactor.evaluate ageRecord = .error (.unresolvedVariable "size" 3) ∧
    SameOutcome (fun x y => x = y) ageRecord scoreRecord
      (zeroFactor.evaluate ageRecord) (zeroFactor.evaluate scoreRecord) := by
  obtain ⟨-, hfailure, hagree⟩ := evaluate_reads_columns zeroFactor
  have hcolumns : zeroFactor.columns = ["size", "age"] := by decide +kernel
  have hsame : ∀ name ∈ zeroFactor.columns, ageRecord.value? name = scoreRecord.value? name := by
    rw [hcolumns]
    decide +kernel
  have habsent : ageRecord.value? "size" = none := rfl
  refine ⟨hcolumns, hsame, ((hfailure ageRecord).2 _).mpr ⟨"size", ?_, rfl⟩,
    (hagree ageRecord scoreRecord).1 hsame⟩
  exact ⟨[], ["age"], hcolumns, by simp, habsent⟩

end Expr

end ItemScoring

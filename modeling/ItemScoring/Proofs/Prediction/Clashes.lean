import Mathlib.Data.List.Flatten
import ItemScoring.Proofs.Number.Numerals
import ItemScoring.Proofs.Prediction.Outcome

/-!
# Names that clash

A derived name is a stem with the number of an item behind it.  One stem never yields a name twice.
Two stems do if they are the same, and also if one of them is the other one with digits behind it:
with the stems `n` and `n1`, the name `n11` belongs to the eleventh item and to the first.  From
the digits it can be told how many items this takes (`exists_shared_iff`), since the least number
that goes on behind them ends in a one.

Grouped by stem in place of item, derived names are distinct if those of any two stems are
(`nodup_derivedNames_iff`), and this is all that a prediction with inputs in order can still fail
for.
-/

namespace ItemScoring

open Decimal (valueOfDigits)
open Layout (valueOfDigits_toDigits)

/-! ### Names of one stem -/

/-- The names that a stem has for the items. -/
def namesOf (itemCount : Nat) (stem : String) : List String :=
  (List.range itemCount).map fun i => stem ++ toString (i + 1)

theorem toList_name (stem : String) (item : Nat) :
    (stem ++ toString item).toList = stem.toList ++ Nat.toDigits 10 item := by
  simp

theorem nodup_namesOf (itemCount : Nat) (stem : String) : (namesOf itemCount stem).Nodup := by
  refine List.Nodup.map (fun i j h => ?_) List.nodup_range
  have hlists := congrArg String.toList h
  rw [toList_name, toList_name, List.append_cancel_left_eq] at hlists
  have hvalues := congrArg valueOfDigits hlists
  rw [valueOfDigits_toDigits, valueOfDigits_toDigits] at hvalues
  omega

theorem mem_namesOf {itemCount : Nat} {stem name : String} : name ∈ namesOf itemCount stem ↔
    ∃ item, 0 < item ∧ item ≤ itemCount ∧ stem ++ toString item = name := by
  simp only [namesOf, List.mem_map, List.mem_range]
  constructor
  · rintro ⟨i, hi, rfl⟩
    exact ⟨i + 1, by omega, hi, rfl⟩
  · rintro ⟨item, hpos, hle, rfl⟩
    exact ⟨item - 1, by omega, by rw [Nat.sub_add_cancel hpos]⟩

/-- The second stem is the first one with digits behind it, and there are enough items for the
first stem to come by the same digits. -/
def Extends (itemCount : Nat) (stem other : String) : Prop :=
  ∃ digits : String, other = stem ++ digits ∧ IsNumeral digits.toList ∧
    10 * valueOfDigits digits.toList + 1 ≤ itemCount

theorem Extends.exists_shared {itemCount : Nat} {stem other : String}
    (h : Extends itemCount stem other) :
    ∃ name, name ∈ namesOf itemCount stem ∧ name ∈ namesOf itemCount other := by
  obtain ⟨digits, rfl, hdigits, hle⟩ := h
  refine ⟨_, mem_namesOf.mpr ⟨_, Nat.succ_pos _, hle, rfl⟩, mem_namesOf.mpr
    ⟨1, Nat.one_pos, by omega, ?_⟩⟩
  apply String.toList_injective
  rw [toList_name, toList_name, hdigits.toDigits_concat_one, String.toList_append,
    List.append_assoc]

/-- The names of two stems meet if the stems are the same, or one extends the other. -/
theorem exists_shared_iff {itemCount : Nat} {stem other : String} :
    (∃ name, name ∈ namesOf itemCount stem ∧ name ∈ namesOf itemCount other) ↔
      1 ≤ itemCount ∧ stem = other ∨ Extends itemCount stem other ∨
        Extends itemCount other stem := by
  constructor
  · rintro ⟨name, hstem, hother⟩
    obtain ⟨i, hi, hile, rfl⟩ := mem_namesOf.mp hstem
    obtain ⟨j, hj, hjle, heq⟩ := mem_namesOf.mp hother
    have hlists := congrArg String.toList heq
    rw [toList_name, toList_name, List.append_eq_append_iff] at hlists
    -- The same text ends in two numerals, so one stem is the other, followed by some of the digits.
    rcases hlists with ⟨digits, hstem, hdigits⟩ | ⟨digits, hother, hdigits⟩
    · by_cases hnil : digits = []
      · subst hnil
        exact Or.inl ⟨by omega, String.toList_injective (by simpa using hstem)⟩
      · obtain ⟨hnumeral, hle⟩ := isNumeral_of_toDigits hnil hj hi hdigits
        refine Or.inr (Or.inr ⟨String.ofList digits, String.toList_injective ?_, ?_, ?_⟩)
        · simpa using hstem
        · simpa using hnumeral
        · simpa using hle.trans hjle
    · by_cases hnil : digits = []
      · subst hnil
        exact Or.inl ⟨by omega, String.toList_injective (by simpa using hother.symm)⟩
      · obtain ⟨hnumeral, hle⟩ := isNumeral_of_toDigits hnil hi hj hdigits
        refine Or.inr (Or.inl ⟨String.ofList digits, String.toList_injective ?_, ?_, ?_⟩)
        · simpa using hother
        · simpa using hnumeral
        · simpa using hle.trans hile
  · rintro (⟨hcount, rfl⟩ | h | h)
    · have hmem : stem ++ toString 1 ∈ namesOf itemCount stem :=
        mem_namesOf.mpr ⟨1, Nat.one_pos, hcount, rfl⟩
      exact ⟨_, hmem, hmem⟩
    · exact h.exists_shared
    · obtain ⟨name, hother, hstem⟩ := h.exists_shared
      exact ⟨name, hstem, hother⟩

/-! ### Names of three stems -/

namespace ColumnNaming

variable {naming : ColumnNaming} {itemCount : Nat}

/-- The stems, in the order in which the columns of an item are added. -/
def stems (naming : ColumnNaming) : List String :=
  [naming.linear, naming.probability, naming.prediction]

/-- What makes derived names clash: two of the stems are the same, or one of them is another one
with digits behind it that the items of the other one come to. -/
inductive Clashes (naming : ColumnNaming) (itemCount : Nat) : Prop
  | shared (nonempty : 1 ≤ itemCount) (repeated : ¬ naming.stems.Nodup) :
      Clashes naming itemCount
  | extended {stem other digits : String} (stem_mem : stem ∈ naming.stems)
      (other_mem : other ∈ naming.stems) (other_eq : other = stem ++ digits)
      (numeral : IsNumeral digits.toList)
      (reached : 10 * valueOfDigits digits.toList + 1 ≤ itemCount) : Clashes naming itemCount

theorem derivedNames_perm (naming : ColumnNaming) (itemCount : Nat) :
    (naming.derivedNames itemCount).Perm (naming.stems.flatMap (namesOf itemCount)) := by
  have hitems : naming.derivedNames itemCount = (List.range itemCount).flatMap fun i =>
      [naming.linear ++ toString (i + 1)] ++ ([naming.probability ++ toString (i + 1)] ++
        [naming.prediction ++ toString (i + 1)]) := rfl
  have hstems : naming.stems.flatMap (namesOf itemCount) = namesOf itemCount naming.linear ++
      (namesOf itemCount naming.probability ++ namesOf itemCount naming.prediction) := by
    simp [stems]
  have hnames : ∀ stem : String, namesOf itemCount stem =
      (List.range itemCount).flatMap fun i => [stem ++ toString (i + 1)] := by
    intro stem
    rw [namesOf, List.map_eq_flatMap]
  rw [hitems, hstems, hnames, hnames, hnames]
  refine (List.Perm.append_left _ (List.flatMap_append_perm _ _ _)).trans ?_ |>.symm
  exact List.flatMap_append_perm _ _ _

theorem not_extends_self {stem : String} : ¬ Extends itemCount stem stem := by
  rintro ⟨digits, heq, hdigits, -⟩
  refine hdigits.nonempty ?_
  simpa using congrArg String.toList heq

/-- Derived names are distinct if those of any two stems are. -/
theorem nodup_derivedNames_iff : (naming.derivedNames itemCount).Nodup ↔
    naming.stems.Pairwise (Function.onFun List.Disjoint (namesOf itemCount)) := by
  rw [(derivedNames_perm naming itemCount).nodup_iff, List.nodup_flatMap]
  exact and_iff_right fun stem _ => nodup_namesOf itemCount stem

theorem Clashes.not_nodup (h : naming.Clashes itemCount) :
    ¬ (naming.derivedNames itemCount).Nodup := by
  rw [nodup_derivedNames_iff]
  intro hapart
  cases h with
  | shared nonempty repeated =>
      refine repeated (hapart.imp fun hdisjoint heq => ?_)
      obtain ⟨name, hstem, hother⟩ := exists_shared_iff.mpr (Or.inl ⟨nonempty, heq⟩)
      exact hdisjoint hstem hother
  | @extended stem other digits stem_mem other_mem other_eq numeral reached =>
      have hextends : Extends itemCount stem other := ⟨digits, other_eq, numeral, reached⟩
      have hne : stem ≠ other := by
        intro heq
        exact not_extends_self (heq ▸ hextends)
      -- Stems that differ are apart in either order.
      have : Std.Symm (Function.onFun List.Disjoint (namesOf itemCount)) :=
        ⟨fun _ _ hdisjoint => hdisjoint.symm⟩
      obtain ⟨name, hstem, hother⟩ := hextends.exists_shared
      exact hapart.forall stem_mem other_mem hne hstem hother

theorem clashes_of_not_nodup (h : ¬ (naming.derivedNames itemCount).Nodup) :
    naming.Clashes itemCount := by
  have hcount : 1 ≤ itemCount := by
    refine Nat.pos_of_ne_zero fun hzero => h ?_
    subst hzero
    exact List.nodup_nil
  by_contra hclashes
  have hdistinct : naming.stems.Nodup := by
    by_contra hrepeated
    exact hclashes (.shared hcount hrepeated)
  refine h (nodup_derivedNames_iff.mpr ?_)
  -- The stems are distinct, so a name that two of them share makes one extend the other.
  refine hdistinct.pairwise_of_forall_ne fun stem hstem other hother hne name hname hname' => ?_
  refine hclashes ?_
  rcases exists_shared_iff.mp ⟨name, hname, hname'⟩ with ⟨-, heq⟩ | hextends | hextends
  · exact absurd heq hne
  · obtain ⟨digits, heq, numeral, reached⟩ := hextends
    exact .extended hstem hother heq numeral reached
  · obtain ⟨digits, heq, numeral, reached⟩ := hextends
    exact .extended hother hstem heq numeral reached

/-- Derived names repeat exactly if the stems clash. -/
theorem not_nodup_iff_clashes :
    ¬ (naming.derivedNames itemCount).Nodup ↔ naming.Clashes itemCount :=
  ⟨clashes_of_not_nodup, Clashes.not_nodup⟩

/-- The stems that are taken if none are given are different letters. -/
theorem not_clashes_default : ¬ ColumnNaming.Clashes {} itemCount := by
  rintro (⟨-, hrepeated⟩ | ⟨hstem, hother, heq, hnumeral, -⟩)
  · exact hrepeated (by decide)
  · have hlength : ∀ stem ∈ ColumnNaming.stems {}, stem.toList.length = 1 := by decide
    have happend := congrArg (fun stem : String => stem.toList.length) heq
    simp only [String.toList_append, List.length_append, hlength _ hstem, hlength _ hother]
      at happend
    exact hnumeral.nonempty (List.length_eq_zero_iff.mp (by omega))

end ColumnNaming

/-! ### Predictions -/

section Predictions

variable {tables : ModelTables} {model : Model} {data : Dataset} {options : PredictionOptions}

/-- Inputs are not refused for what appending columns would be. -/
theorem InputsRefused.ne_dataset {error : DatasetError} :
    ¬ InputsRefused tables data options (.dataset error) := by
  rintro (- | ⟨-, -, hrefused, -⟩ | - | -)
  cases hrefused

/-- With inputs that are ready, a prediction is refused exactly if the stems clash. -/
theorem Model.predict_repeated_iff (hmodel : Model.ofTables tables = .ok model)
    (hdata : data.Consistent) (hready : InputsReady tables data options) :
    (∃ name, model.predict data options = .error (.dataset (.duplicateColumn name))) ↔
      options.naming.Clashes model.itemCount := by
  obtain ⟨hok, herror⟩ := predict_of_ready hmodel hdata hready
  rw [← ColumnNaming.not_nodup_iff_clashes, itemCount_eq hmodel, ← hok]
  constructor
  · rintro ⟨name, hname⟩ ⟨predictions, hpredict⟩
    rw [hname] at hpredict
    contradiction
  · intro hrefused
    cases hpredict : model.predict data options with
    | ok predictions => exact absurd ⟨predictions, hpredict⟩ hrefused
    | error error =>
        obtain ⟨-, name, -, -, -, -, rfl⟩ := (herror error).mp hpredict
        exact ⟨name, rfl⟩

/-- With stems that do not clash, appending the columns never fails. -/
theorem Model.predict_ne_dataset (hmodel : Model.ofTables tables = .ok model)
    (hdata : data.Consistent) (hapart : ¬ options.naming.Clashes model.itemCount)
    (error : DatasetError) : model.predict data options ≠ .error (.dataset error) := by
  intro hpredict
  cases hinputs : model.checkInputs data options with
  | error refusal =>
      have hrefused := (checkInputs_eq_error_iff hmodel hdata).mp hinputs
      rw [predict_of_refused hmodel hdata hrefused, Except.error.injEq] at hpredict
      exact InputsRefused.ne_dataset (hpredict ▸ hrefused)
  | ok _ =>
      have hready := (checkInputs_eq_ok_iff hmodel hdata).mp hinputs
      obtain ⟨hok, -⟩ := predict_of_ready hmodel hdata hready
      rw [← itemCount_eq hmodel] at hok
      obtain ⟨predictions, hsucceeded⟩ :=
        hok.mpr (not_not.mp (mt ColumnNaming.not_nodup_iff_clashes.mp hapart))
      rw [hpredict] at hsucceeded
      contradiction

end Predictions

/-- Derived names repeat exactly if their stems clash.  So a prediction whose inputs are in order is
refused for a repeated name in this case and in no other, and never with the stems that are taken
if none are given. -/
theorem derivedNames_repeat_iff (naming : ColumnNaming) :
    (∀ itemCount, ¬ (naming.derivedNames itemCount).Nodup ↔ naming.Clashes itemCount) ∧
    (∀ itemCount, ¬ ColumnNaming.Clashes {} itemCount) ∧
    ∀ {tables : ModelTables} {model : Model} {data : Dataset},
      Model.ofTables tables = .ok model → data.Consistent → ∀ totalScore : String,
        (model.checkInputs data { totalScore, naming } = .ok () →
          ((∃ name, model.predict data { totalScore, naming } =
              .error (.dataset (.duplicateColumn name))) ↔ naming.Clashes model.itemCount)) ∧
        ∀ error, model.predict data { totalScore } ≠ .error (.dataset error) := by
  refine ⟨fun _ => ColumnNaming.not_nodup_iff_clashes, fun _ => ColumnNaming.not_clashes_default,
    fun hmodel hdata totalScore => ⟨fun hinputs => ?_, ?_⟩⟩
  · have hready := (Model.checkInputs_eq_ok_iff hmodel hdata).mp hinputs
    exact Model.predict_repeated_iff hmodel hdata hready
  · exact Model.predict_ne_dataset hmodel hdata ColumnNaming.not_clashes_default

/-- Eleven items without trees. -/
def elevenTables : ModelTables where
  slopes := List.replicate 11 1
  labels := none
  leaves := []
  offsets := (List.range 11).map fun i => ⟨i + 1, 0⟩
  splits := []

/-- The model with these tables. -/
def elevenModel : Model where
  tables := elevenTables
  items := (List.range 11).map fun i => ⟨i + 1, s!"item{i + 1}", 1, .flat 0⟩

/-- The stems `n` and `n1` get on with each other up to the tenth item. -/
theorem derivedNames_repeat_iff_eleven :
    let naming : ColumnNaming := ⟨"n", "n1", "p"⟩
    Model.ofTables elevenTables = .ok elevenModel ∧ ageData.Consistent ∧
      elevenModel.checkInputs ageData { totalScore := "score", naming } = .ok () ∧
      ¬ naming.Clashes 10 ∧ naming.Clashes 11 ∧
      ∃ name, elevenModel.predict ageData { totalScore := "score", naming } =
        .error (.dataset (.duplicateColumn name)) := by
  intro naming
  obtain ⟨hrepeat, -, hpredict⟩ := derivedNames_repeat_iff naming
  have hmodel : Model.ofTables elevenTables = .ok elevenModel := by decide +kernel
  have hinputs : elevenModel.checkInputs ageData { totalScore := "score", naming } = .ok () := by
    decide +kernel
  have hten : ¬ naming.Clashes 10 := by
    rw [← hrepeat]
    decide +kernel
  have heleven : naming.Clashes 11 := by
    have hnumeral : IsNumeral "1".toList := ⟨by simp, by simp, by simp⟩
    exact @ColumnNaming.Clashes.extended naming 11 "n" "n1" "1" (by decide) (by decide) rfl hnumeral
      (by decide)
  exact ⟨hmodel, consistent_ageData, hinputs, hten, heleven,
    ((hpredict hmodel consistent_ageData "score").1 hinputs).mpr heleven⟩

end ItemScoring

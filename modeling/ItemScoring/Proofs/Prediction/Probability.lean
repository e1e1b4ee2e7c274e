import ItemScoring.Proofs.Number.Rounding
import ItemScoring.Proofs.Prediction.Linear
import ItemScoring.Proofs.Prediction.Rows

/-!
# Probabilities stay in range

The logistic function divides by one plus an exponential, all of it rounded, and takes
linear predictors that may be infinite.  Its results are probabilities nevertheless, and
on the side of one half that the sign of the linear predictor says
(`ExpBounded.probabilityOf`).  Of the exponential function this uses its bounds below zero
and nothing else; of rounding, that it crosses no double.  The critical case is a
quotient of just below one half: twice the numerator is a double, so the rounded
denominator is no less (`exists_denominator`).

The linear predictors of a prediction are numbers, since the inputs were checked to be finite;
`probabilities_in_range` puts this together.
-/

namespace ItemScoring

open Binary64

/-! ### The logistic function -/

/-- What is known of the exponential function: at most one below zero, and never negative. -/
def ExpBounded (exp : Float → Float) : Prop := ∀ x, x ≤ 0 → 0 ≤ exp x ∧ exp x ≤ 1

/-- Twice a double is a double, but for its exponent. -/
theorem Binary64.Canonical.exists_double {m : Nat} {e : Int} (h : Canonical m e) :
    ∃ n d, Canonical n d ∧ (n : ℚ) * 2 ^ d = 2 * (m * 2 ^ e) := by
  by_cases hfull : 2 ^ 52 ≤ m
  · refine ⟨m, e + 1, ⟨h.pos, h.lt, by linarith [h.least], Or.inl hfull⟩, ?_⟩
    rw [two_zpow_add, zpow_one]
    ring
  · have hleast := h.normal.resolve_left hfull
    refine ⟨2 * m, e, ⟨by linarith [h.pos], by omega, h.least, Or.inr hleast⟩, ?_⟩
    push_cast
    ring

/-- The denominator of the logistic function lies between one and two, and is at least
twice what is added to one. -/
theorem exists_denominator {e : Float} {v : ℚ} (he : Denotes e v) (hle : v ≤ 1) :
    ∃ s, Denotes (1 + e) s ∧ 1 ≤ s ∧ s ≤ 2 ∧ 2 * v ≤ s := by
  have hnonneg := he.nonneg
  have hbelow : 1 + v ≤ (2 : ℚ) ^ (1 : Int) := by
    rw [zpow_one]
    linarith
  obtain ⟨s, hs, hrounds⟩ := denotes_one.exists_add he (by norm_num) (by norm_num) hbelow
  have hone := hrounds.power_le (e := 0) (by norm_num)
  have htwo := hrounds.le_power (by norm_num) hbelow
  rw [zpow_zero] at hone
  rw [zpow_one] at htwo
  refine ⟨s, hs, hone (by linarith), htwo, ?_⟩
  rcases he with ⟨-, rfl⟩ | ⟨m, d, hm, hdecoded, rfl⟩
  · linarith [hs.nonneg]
  · -- Twice the term is itself a double, so rounding cannot bring the sum below it.
    obtain ⟨n, g, hcanonical, hdouble⟩ := (canonical_of_decoded hdecoded).1.exists_double
    rw [← hdouble]
    refine (hrounds n g hcanonical).1 ?_
    rw [hdouble]
    linarith

theorem exists_quotient {a b : Float} {v w : ℚ} (ha : Denotes a v) (hb : Denotes b w) (hw : 0 < w)
    (hle : v ≤ w) : ∃ r, Denotes (a / b) r ∧ RoundsTo (v / w) r ∧ r ≤ 1 := by
  have hbelow : v / w ≤ (2 : ℚ) ^ (0 : Int) := by
    rwa [zpow_zero, div_le_one hw]
  obtain ⟨r, hr, hrounds⟩ := ha.exists_div hb hw (by norm_num) (by norm_num) hbelow
  exact ⟨r, hr, hrounds, by simpa using hrounds.le_power (by norm_num) hbelow⟩

/-- The branch for linear predictors of at least zero. -/
theorem exists_upper {e : Float} {v : ℚ} (he : Denotes e v) (hle : v ≤ 1) :
    ∃ p, Denotes (1 / (1 + e)) p ∧ 1 / 2 ≤ p ∧ p ≤ 1 := by
  obtain ⟨s, hs, hone, htwo, -⟩ := exists_denominator he hle
  have hpos : 0 < s := by linarith
  obtain ⟨p, hp, hrounds, hbelow⟩ := exists_quotient denotes_one hs hpos hone
  have hhalf : (2 : ℚ) ^ (-1 : Int) ≤ 1 / s := by
    rw [zpow_neg_one, ← one_div, div_le_div_iff₀ two_pos hpos]
    linarith
  have habove := hrounds.power_le (by norm_num) hhalf
  rw [zpow_neg_one, ← one_div] at habove
  exact ⟨p, hp, habove, hbelow⟩

/-- The branch for linear predictors below zero. -/
theorem exists_lower {e : Float} {v : ℚ} (he : Denotes e v) (hle : v ≤ 1) :
    ∃ p, Denotes (e / (1 + e)) p ∧ p ≤ 1 / 2 := by
  obtain ⟨s, hs, hone, -, hdouble⟩ := exists_denominator he hle
  have hpos : 0 < s := by linarith
  obtain ⟨p, hp, hrounds, -⟩ := exists_quotient he hs hpos (by linarith)
  have hhalf : v / s ≤ (2 : ℚ) ^ (-1 : Int) := by
    rw [zpow_neg_one, ← one_div, div_le_div_iff₀ hpos two_pos]
    linarith
  have hbelow := hrounds.le_power (by norm_num) hhalf
  rw [zpow_neg_one, ← one_div] at hbelow
  exact ⟨p, hp, hbelow⟩

/-- The number is a probability, and on the side of one half that the linear predictor
says. -/
structure ProbabilityOf (eta p : Float) : Prop where
  nonneg : 0 ≤ p
  le_one : p ≤ 1
  upper : 0 ≤ eta → classificationThreshold ≤ p
  lower : eta < 0 → p ≤ classificationThreshold

theorem ExpBounded.exists_denotes {exp : Float → Float} (hexp : ExpBounded exp) {x : Float}
    (hx : x ≤ 0) : ∃ v, Denotes (exp x) v ∧ v ≤ 1 := by
  obtain ⟨hnonneg, hle⟩ := hexp x hx
  obtain ⟨v, hv⟩ := denotes_one.exists_of_le hnonneg hle
  exact ⟨v, hv, (hv.le_iff denotes_one).mp hle⟩

theorem ExpBounded.probabilityOf {exp : Float → Float} (hexp : ExpBounded exp) {eta : Float}
    (heta : eta.isNaN = false) : ProbabilityOf eta (logisticWith exp eta) := by
  have hzero : (0 : Float).isNaN = false := rfl
  unfold logisticWith
  -- On either side of zero the exponential is that of a number that is not positive.
  by_cases hle : 0 ≤ eta
  · obtain ⟨v, hv, hv1⟩ := hexp.exists_denotes (neg_nonpos hle)
    obtain ⟨p, hp, hhalf, hone⟩ := exists_upper hv hv1
    rw [if_pos hle]
    exact {
      nonneg := (denotes_zero.le_iff hp).mpr hp.nonneg
      le_one := (hp.le_iff denotes_one).mpr hone
      upper := fun _ => (denotes_half.le_iff hp).mpr hhalf
      lower := fun hlt => absurd hle ((lt_iff_not_le hzero heta).mp hlt) }
  · have hlt : eta < 0 := (lt_iff_not_le hzero heta).mpr hle
    obtain ⟨v, hv, hv1⟩ := hexp.exists_denotes (Binary64.le_of_lt hlt)
    obtain ⟨p, hp, hhalf⟩ := exists_lower hv hv1
    rw [if_neg hle]
    exact {
      nonneg := (denotes_zero.le_iff hp).mpr hp.nonneg
      le_one := (hp.le_iff denotes_one).mpr (by linarith)
      upper := fun h => absurd h hle
      lower := fun _ => (hp.le_iff denotes_half).mpr hhalf }

theorem classNumber_isPositive_iff {p : Float} :
    classNumber (isPositive p) = 1 ↔ classificationThreshold ≤ p := by
  unfold isPositive classNumber
  by_cases hle : classificationThreshold ≤ p <;> simp [hle]

/-! ### Predictions -/

/-- What the results of an item at a row are like: the linear predictor is a number, perhaps
an infinite one, the probability is made of it, and the class is the one of the
probability. -/
structure ScoresInRange (exp : Float → Float) (n p : Float) (positive : Bool) : Prop where
  number : n.isNaN = false
  probability_eq : p = logisticWith exp n
  range : ProbabilityOf n p
  class_iff : classNumber positive = 1 ↔ classificationThreshold ≤ p
  class_of_nonneg : 0 ≤ n → classNumber positive = 1

section Predictions

variable {exp : Float → Float} {tables : ModelTables} {model : Model} {data : Dataset}
  {options : PredictionOptions}

/-- The linear predictor of an accepted item is a number wherever the inputs are finite. -/
theorem InputsReady.isNaN_eq_false (hready : InputsReady tables data options)
    (hmodel : Model.ofTables tables = .ok model) {i : Nat} {item : Item}
    (hitem : model.items[i]? = some item) {row : Nat} (hrow : row < data.rowCount) {n : Float}
    (hn : (item.equation options.totalScore).expression.evaluate (data.record row) = .ok n) :
    n.isNaN = false := by
  obtain ⟨slope, -, hslope, hisItem⟩ := Model.isItem_of_getElem? hmodel hitem
  have hfinite : ∀ column ∈ item.columns, data.FiniteIn column := by
    intro column hcolumn
    obtain ⟨split, hused, -, rfl⟩ := hisItem.mem_columns.mp hcolumn
    exact hready.finite split hused
  obtain ⟨score, hscore, hscorefinite⟩ := hready.finiteScore row hrow
  obtain ⟨m, c, hm, -, hbeq⟩ := Item.exists_value (Model.ofTables_eq_ok_iff.mp hmodel).1 hslope
    hisItem hscore hscorefinite fun column hcolumn => hfinite column hcolumn row hrow
  obtain rfl := Except.ok.inj (hn.symm.trans hm)
  exact isNaN_of_beq hbeq

/-- No value that is not a number, and no probability out of range, comes out of the
logistic function or of a prediction, as long as the exponential function is bounded.
`logistic` and `Model.predict` are the case of the one of the system. -/
theorem probabilities_in_range (hexp : ExpBounded exp) :
    (∀ eta : Float, eta.isNaN = false → ProbabilityOf eta (logisticWith exp eta) ∧
      (0 ≤ eta → classNumber (isPositive (logisticWith exp eta)) = 1)) ∧
    ∀ (tables : ModelTables) (model : Model) (data : Dataset) (options : PredictionOptions)
      (predictions : Predictions), Model.ofTables tables = .ok model → data.Consistent →
      model.predictWith exp data options = .ok predictions →
      predictions.items.length = model.itemCount ∧
      ∀ i < model.itemCount, ∀ row < data.rowCount, ∃ prediction n p positive,
        predictions.items[i]? = some prediction ∧ prediction.HasScores row n p positive ∧
        ScoresInRange exp n p positive := by
  refine ⟨fun eta heta => ?_, ?_⟩
  · have hrange := hexp.probabilityOf heta
    exact ⟨hrange, fun h => classNumber_isPositive_iff.mpr (hrange.upper h)⟩
  intro tables model data options predictions hmodel hdata hpredict
  refine ⟨Model.length_items hpredict, fun i hi row hrow => ?_⟩
  have hitem := List.getElem?_eq_getElem (show i < model.items.length from hi)
  obtain ⟨prediction, n, hprediction, hn, hscores⟩ := Model.exists_scores hpredict hitem hrow
  obtain ⟨hinputs, -⟩ := Model.predictWith_eq_ok_iff.mp hpredict
  -- The inputs were finite, or there would be no prediction.
  have hready := (Model.checkInputs_eq_ok_iff hmodel hdata).mp hinputs
  have hnumber := hready.isNaN_eq_false hmodel hitem hrow hn
  have hrange := hexp.probabilityOf hnumber
  exact ⟨prediction, n, _, _, hprediction, hscores, hnumber, rfl, hrange,
    classNumber_isPositive_iff, fun h => classNumber_isPositive_iff.mpr (hrange.upper h)⟩

end Predictions

/-- Tables of an item so steep that its linear predictor overflows. -/
def steepTables : ModelTables where
  slopes := [1e308]
  labels := none
  leaves := []
  offsets := [⟨1, 0⟩]
  splits := []

/-- The model with these tables. -/
def steepModel : Model where
  tables := steepTables
  items := [⟨1, "item1", 1e308, .flat 0⟩]

/-- Records with scores on both sides of zero. -/
def steepData : Dataset where
  columns := #[⟨"score", #[10, 0, -10]⟩]
  index := .ofList [("score", 0)]

/-- A step that is right at zero and at minus infinity. -/
def stepExp (x : Float) : Float := if x < 0 then 0 else 1

theorem expBounded_stepExp : ExpBounded stepExp := by
  intro x _
  unfold stepExp
  split <;> decide +kernel

/-- An infinite linear predictor has a probability. -/
theorem probabilities_in_range_overflow :
    ExpBounded stepExp ∧ Model.ofTables steepTables = .ok steepModel ∧ steepData.Consistent ∧
      ∃ predictions, steepModel.predictWith stepExp steepData { totalScore := "score" } =
          .ok predictions ∧
        ∃ prediction n p positive, predictions.items[0]? = some prediction ∧
          prediction.HasScores 0 n p positive ∧ n.isInf = true ∧
          ScoresInRange stepExp n p positive := by
  have hmodel : Model.ofTables steepTables = .ok steepModel := by decide +kernel
  have hbuilt : Dataset.ofColumns steepData.columns.toList = .ok steepData := rfl
  have hdata := Dataset.consistent_of_ofColumns hbuilt
  -- That there is a prediction is computed, as only its success can be decided.
  cases hpredict : steepModel.predictWith stepExp steepData { totalScore := "score" } with
  | error e =>
      have hsome : (steepModel.predictWith stepExp steepData
          { totalScore := "score" }).toBool = true := by decide +kernel
      rw [hpredict] at hsome
      exact absurd hsome Bool.false_ne_true
  | ok predictions =>
      obtain ⟨-, hpredictions⟩ := probabilities_in_range expBounded_stepExp
      obtain ⟨-, hscores⟩ := hpredictions _ _ _ _ _ hmodel hdata hpredict
      obtain ⟨prediction, n, p, positive, hprediction, hhas, hrange⟩ :=
        hscores 0 (by decide) 0 (by decide +kernel)
      refine ⟨expBounded_stepExp, hmodel, hdata, predictions, rfl, prediction, n, p, positive,
        hprediction, hhas, ?_, hrange⟩
      have hlinear : ((steepModel.predictWith stepExp steepData
          { totalScore := "score" }).toOption.bind fun predictions =>
            predictions.items[0]?.bind fun prediction => prediction.linear[0]?).any
              Float.isInf = true := by decide +kernel
      rw [hpredict] at hlinear
      change (predictions.items[0]?.bind fun prediction => prediction.linear[0]?).any _ = true
        at hlinear
      rw [hprediction] at hlinear
      change (prediction.linear[0]?).any _ = true at hlinear
      rwa [hhas.linear_eq] at hlinear

end ItemScoring

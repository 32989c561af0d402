import DecisionForest.Proofs.Predictor

/-!
# All ways to score a row agree

A row is scored by a forest, by a scorer that checks rows or does not, and by a predictor under its
settings. Ways without the check give the score of the forest for any row. Ways with it give the same
for rows in strict order, and for all others one error, which names the first place that descends.

- `Predictor.Unchecked` lists the ways that trust a row with what they give, `Predictor.Checked` those
  that check it,
- `Predictor.unchecked_iff` and `Predictor.checked_iff` say that all ways of a kind give one result,
- `Predictor.ways_agree` ties the results to the order of the row.
-/

namespace DecisionForest
namespace Predictor

variable {p : Predictor} {features : Array FeatureId} {r : Except Error Float}

/-! ## Ways to score a row -/

/-- What is given for a row by the ways that do not look at its order. -/
structure Unchecked (p : Predictor) (features : Array FeatureId) (r : Except Error Float) :
    Prop where
  score : p.forest.score features = r
  scorer : Scorer.score ⟨p.forest, false⟩ features = r
  probability : Scorer.probability ⟨p.forest, false⟩ features = r.map toProbability
  rawScore : p.settings.strictFeatures = false → p.rawScore features = r
  row : p.settings.strictFeatures = false → p.predictRow features = r.map p.publish
  batch : p.settings.strictFeatures = false →
    (p.predictBatch [features]).result = r.map fun score => [p.publish score]

/-- What is given for a row by the ways that look at its order first. -/
structure Checked (p : Predictor) (features : Array FeatureId) (r : Except Error Float) : Prop where
  score : p.forest.scoreChecked features = r
  scorer : Scorer.score ⟨p.forest, true⟩ features = r
  probability : Scorer.probability ⟨p.forest, true⟩ features = r.map toProbability
  rawScore : p.settings.strictFeatures = true → p.rawScore features = r
  row : p.settings.strictFeatures = true → p.predictRow features = r.map p.publish
  batch : p.settings.strictFeatures = true →
    (p.predictBatch [features]).result = r.map fun score => [p.publish score]

/-- A predictor scores as the scorer with its choice of the check. -/
theorem rawScore_eq {strict : Bool} (h : p.settings.strictFeatures = strict)
    (features : Array FeatureId) : p.rawScore features = Scorer.score ⟨p.forest, strict⟩ features := by
  rw [← h]
  rfl

theorem result_predictBatch_singleton (p : Predictor) (features : Array FeatureId) :
    (p.predictBatch [features]).result = (p.predictRow features).map fun value => [value] := by
  rw [result_predictBatch, predictSequentially, List.mapM_cons, List.mapM_nil]
  cases p.predictRow features <;> rfl

/-- What a predictor publishes follows from what it scores. -/
theorem published_of_rawScore (h : p.rawScore features = r) :
    p.predictRow features = r.map p.publish ∧
      (p.predictBatch [features]).result = r.map fun score => [p.publish score] := by
  rw [result_predictBatch_singleton, predictRow, h]
  cases r <;> exact ⟨rfl, rfl⟩

theorem unchecked_iff : p.Unchecked features r ↔ p.forest.score features = r := by
  constructor
  · exact Unchecked.score
  · intro h
    have hscorer : Scorer.score ⟨p.forest, false⟩ features = r := h
    have hraw : p.settings.strictFeatures = false → p.rawScore features = r :=
      fun hlenient => (rawScore_eq hlenient features).trans hscorer
    exact {
      score := h
      scorer := hscorer
      probability := by rw [Scorer.probability, hscorer]
      rawScore := hraw
      row := fun hlenient => (published_of_rawScore (hraw hlenient)).1
      batch := fun hlenient => (published_of_rawScore (hraw hlenient)).2 }

theorem checked_iff : p.Checked features r ↔ p.forest.scoreChecked features = r := by
  constructor
  · exact Checked.score
  · intro h
    have hscorer : Scorer.score ⟨p.forest, true⟩ features = r := h
    have hraw : p.settings.strictFeatures = true → p.rawScore features = r :=
      fun hstrict => (rawScore_eq hstrict features).trans hscorer
    exact {
      score := h
      scorer := hscorer
      probability := by rw [Scorer.probability, hscorer]
      rawScore := hraw
      row := fun hstrict => (published_of_rawScore (hraw hstrict)).1
      batch := fun hstrict => (published_of_rawScore (hraw hstrict)).2 }

/-! ## The check -/

theorem scoreChecked_of_strict (h : Features.Strict features) :
    p.forest.scoreChecked features = p.forest.score features :=
  Forest.scoreChecked_of_pairwise (Features.strict_iff_pairwise.1 h)

theorem scoreChecked_of_check_error {e : Error} (h : Features.check features.toList = .error e) :
    p.forest.scoreChecked features = .error e := by
  rw [Forest.scoreChecked, h]
  rfl

theorem exists_firstDescent (h : ¬ Features.Strict features) :
    ∃ position feature next, Features.FirstDescent features.toList position feature next := by
  rw [Features.strict_iff_pairwise, ← Features.check_eq_ok_iff] at h
  cases hcheck : Features.check features.toList with
  | ok _ =>
      exact absurd hcheck h
  | error e =>
      obtain ⟨position, feature, next, hfirst, _⟩ := Features.check_eq_error_iff.1 hcheck
      exact ⟨position, feature, next, hfirst⟩

/--
All ways without the check give the score of the forest, plain or published. A row in strict order,
which is what the test of neighbours decides, passes the check, so that all ways with it give the same.
For any other row, whether its walk ends or not, they all fail with one error: it names the first place
where a feature is not below the next one, and these two.
-/
theorem ways_agree (p : Predictor) (features : Array FeatureId) :
    (Features.isAscending features.toList = true ↔ Features.Strict features) ∧
    (∀ score, p.publish score = if p.settings.rawScore then score else toProbability score) ∧
    (∀ score, p.forest.score features = .ok score →
      p.Unchecked features (.ok score) ∧
        (Features.Strict features → p.Checked features (.ok score))) ∧
    (¬ Features.Strict features →
      ∃ position feature next, Features.FirstDescent features.toList position feature next ∧
        (Error.features (.notAscending position feature next)).category = "invalid_input" ∧
        (Error.features (.notAscending position feature next)).message =
          "Invalid input: " ++ ("feature ids must be strictly ascending: " ++
            toString feature.toNat ++ " at position " ++ toString position ++
            " is followed by " ++ toString next.toNat) ∧
        p.Checked features (.error (.features (.notAscending position feature next)))) := by
  refine ⟨?_, fun _ => rfl, ?_, ?_⟩
  · rw [Features.isAscending_eq_true_iff, Features.strict_iff_pairwise]
  · intro score hscore
    exact ⟨unchecked_iff.2 hscore,
      fun hstrict => checked_iff.2 ((scoreChecked_of_strict hstrict).trans hscore)⟩
  · intro hstrict
    obtain ⟨position, feature, next, hfirst⟩ := exists_firstDescent hstrict
    have hcheck : Features.check features.toList =
        .error (.features (.notAscending position feature next)) :=
      Features.check_eq_error_iff.2 ⟨position, feature, next, hfirst, rfl⟩
    exact ⟨position, feature, next, hfirst, rfl, rfl,
      checked_iff.2 (scoreChecked_of_check_error hcheck)⟩

end Predictor
end DecisionForest

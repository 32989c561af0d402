import DecisionForest.Predictor
import DecisionForest.Proofs.Row.Stream

/-!
# Predictions for a stream

What is published for a row stream is what is published for its rows one by one. Neither the cut of
a batch into tasks nor the strict check of the rows is seen in the result: the chunks put together
are the batch again, and rows are read in strictly ascending order.

- `Predictor.tuned` is a predictor that differs only in how it goes about a batch,
- `Predictor.result_predictBatch` and `Predictor.result_predictStream` say what a batch and a stream
  come to,
- `Predictor.predictStream_exact` gives the result for a stream line by line.
-/

namespace DecisionForest

/-! ## One row -/

/-- The strict check passes a row in strict order. -/
theorem Forest.scoreChecked_of_pairwise {F : Forest} {features : Array FeatureId}
    (h : features.toList.Pairwise (· < ·)) : F.scoreChecked features = F.score features := by
  rw [scoreChecked, Features.check_eq_ok_iff.2 h]
  rfl

namespace Predictor

variable {p : Predictor} {stream : List UInt8}

theorem rawScore_of_pairwise {features : Array FeatureId}
    (h : features.toList.Pairwise (· < ·)) : p.rawScore features = p.forest.score features := by
  rw [rawScore, scorer, Scorer.score]
  split
  · exact Forest.scoreChecked_of_pairwise h
  · rfl

/-! ## Batches -/

theorem flatten_chunks {α : Type} (width : Nat) (rows : List α) :
    (chunks width rows).flatten = rows := by
  fun_induction chunks width rows with
  | case1 =>
      rfl
  | case2 row rest ih =>
      rw [List.flatten_cons, ih, List.cons_append, List.take_append_drop]

theorem predictChunks_eq (parts : List (List (Array FeatureId))) :
    p.predictChunks parts = p.predictSequentially parts.flatten := by
  rw [predictChunks, predictSequentially, ← mapM_flatten]
  simp only [List.mapM_map]
  rfl

/-- A batch comes to the same whether it is cut into chunks or not. -/
theorem result_predictBatch (rows : List (Array FeatureId)) :
    (p.predictBatch rows).result = p.predictSequentially rows := by
  unfold predictBatch
  split
  · rfl
  · rw [Logged.result_bind, predictInParallel, predictChunks_eq, flatten_chunks]
    rfl

/-! ## Streams -/

theorem result_predictStream (p : Predictor) (stream : List UInt8) :
    (p.predictStream stream).result =
      Rows.readAll p.settings.featureOffset stream >>= fun rows =>
        rows.mapM fun row => p.predictRow row.features.toArray := by
  simp only [predictStream, predictRows, Logged.result_bind, Logged.result_ofExcept,
    Logged.result_report, result_predictBatch, predictSequentially, List.mapM_map]
  rfl

/-- The same predictor with another choice for the strict check and for the tasks of a batch. -/
def tuned (p : Predictor) (strict : Bool) (threads threshold : UInt64) : Predictor :=
  { p with
    settings :=
      { p.settings with
        strictFeatures := strict, numThreads := threads, parallelThreshold := threshold } }

@[simp] theorem forest_tuned (strict : Bool) (threads threshold : UInt64) :
    (p.tuned strict threads threshold).forest = p.forest := rfl

@[simp] theorem featureOffset_tuned (strict : Bool) (threads threshold : UInt64) :
    (p.tuned strict threads threshold).settings.featureOffset = p.settings.featureOffset := rfl

@[simp] theorem publish_tuned (strict : Bool) (threads threshold : UInt64) :
    (p.tuned strict threads threshold).publish = p.publish := rfl

/-- The walk of every row of a stream through the forest ends. -/
def Ends (p : Predictor) (stream : List UInt8) : Prop :=
  ∀ row, .ok row ∈ Rows.items p.settings.featureOffset stream →
    ∃ score, p.forest.score row.features.toArray = .ok score

section Rows

variable {row : Row} (hrow : .ok row ∈ Rows.items p.settings.featureOffset stream)

include hrow

/-- A row of a stream is never refused, so its score is that of the forest. -/
theorem predictRow_of_mem_items :
    p.predictRow row.features.toArray = (p.forest.score row.features.toArray).map p.publish := by
  rw [predictRow, rawScore_of_pairwise (Rows.pairwise_of_ok_mem_items hrow)]

theorem predictRow_tuned (strict : Bool) (threads threshold : UInt64) :
    (p.tuned strict threads threshold).predictRow row.features.toArray =
      p.predictRow row.features.toArray := by
  have hscore := predictRow_of_mem_items hrow
  rw [← featureOffset_tuned strict threads threshold] at hrow
  rw [hscore, predictRow_of_mem_items hrow, forest_tuned, publish_tuned]

theorem exists_predictRow (h : p.Ends stream) :
    ∃ value, p.predictRow row.features.toArray = .ok value := by
  rcases h row hrow with ⟨score, hscore⟩
  rw [predictRow_of_mem_items hrow, hscore]
  exact ⟨_, rfl⟩

end Rows

theorem result_tuned (strict : Bool) (threads threshold : UInt64) :
    ((p.tuned strict threads threshold).predictStream stream).result =
      (p.predictStream stream).result := by
  rw [result_predictStream, result_predictStream, featureOffset_tuned]
  cases hrows : Rows.readAll p.settings.featureOffset stream with
  | error e =>
      rfl
  | ok rows =>
      apply mapM_congr
      intro row hrow
      exact predictRow_tuned (Rows.ok_mem_items_of_readAll hrows hrow) strict threads threshold

/-- Where every line can be read, each row gets its value. -/
theorem exists_values (h : p.Ends stream) {rows : List Row}
    (hrows : Rows.readAll p.settings.featureOffset stream = .ok rows) :
    ∃ values, (p.predictStream stream).result = .ok values ∧
      List.Forall₂ (fun row value => p.predictRow row.features.toArray = .ok value)
        rows values := by
  have hvalue : ∀ row ∈ rows, ∃ value, p.predictRow row.features.toArray = .ok value := by
    intro row hrow
    exact exists_predictRow (Rows.ok_mem_items_of_readAll hrows hrow) h
  rcases exists_mapM_eq_ok hvalue with ⟨values, hvalues⟩
  refine ⟨values, ?_, mapM_eq_ok_iff.1 hvalues⟩
  rw [result_predictStream, hrows]
  exact hvalues

/-- Scoring adds no errors to those of reading. -/
theorem result_eq_error_iff (h : p.Ends stream) {e : Error} :
    (p.predictStream stream).result = .error e ↔
      Rows.readAll p.settings.featureOffset stream = .error e := by
  cases hrows : Rows.readAll p.settings.featureOffset stream with
  | error e' =>
      rw [result_predictStream, hrows]
      simp [bind, Except.bind]
  | ok rows =>
      rcases exists_values h hrows with ⟨values, hvalues, _⟩
      simp [hvalues]

/-- The result for a stream whose rows all have a score: the error of the first line that cannot be
read, or else one value for each line that is not silent, that of its row. No row is refused for
its order, and the strict check and the tasks of a batch do not change the result. -/
theorem predictStream_exact (p : Predictor) (stream : List UInt8) (h : p.Ends stream) :
    ((∃ e, (p.predictStream stream).result = .error e) ↔
        ∃ line ∈ Rows.numbered stream, ∃ e, Rows.Faulty p.settings.featureOffset line e) ∧
      (∀ e, (p.predictStream stream).result = .error e ↔
        FirstFault (Rows.Faulty p.settings.featureOffset) (Rows.numbered stream) e) ∧
      ((∀ line ∈ Rows.numbered stream, ∀ e, ¬ Rows.Faulty p.settings.featureOffset line e) →
        ∃ rows values, (p.predictStream stream).result = .ok values ∧
          List.Forall₂ (Rows.Gives p.settings.featureOffset) (Rows.loudLines stream) rows ∧
          List.Forall₂ (fun row value => p.predictRow row.features.toArray = .ok value)
            rows values) ∧
      (∀ row, .ok row ∈ Rows.items p.settings.featureOffset stream →
        row.features.Pairwise (· < ·) ∧ Features.check row.features = .ok ()) ∧
      ∀ strict threads threshold,
        ((p.tuned strict threads threshold).predictStream stream).result =
          (p.predictStream stream).result := by
  have hfirst : ∀ e, (p.predictStream stream).result = .error e ↔
      FirstFault (Rows.Faulty p.settings.featureOffset) (Rows.numbered stream) e := by
    intro e
    rw [result_eq_error_iff h, Rows.readAll_eq_error_iff]
  refine ⟨?_, hfirst, ?_, ?_, result_tuned⟩
  · simp only [hfirst, exists_firstFault_iff]
  · intro hreadable
    have hrows : ∃ rows, Rows.readAll p.settings.featureOffset stream = .ok rows := by
      cases hread : Rows.readAll p.settings.featureOffset stream with
      | ok rows =>
          exact ⟨rows, rfl⟩
      | error e =>
          rcases exists_firstFault_iff.1 ⟨e, Rows.readAll_eq_error_iff.1 hread⟩ with
            ⟨line, hline, e', he'⟩
          exact absurd he' (hreadable line hline e')
    rcases hrows with ⟨rows, hrows⟩
    rcases exists_values h hrows with ⟨values, hvalues, hpublished⟩
    exact ⟨rows, values, hvalues, Rows.gives_of_readAll hrows, hpublished⟩
  · intro row hrow
    have hpairwise := Rows.pairwise_of_ok_mem_items hrow
    exact ⟨hpairwise, Features.check_eq_ok_iff.2 hpairwise⟩

/-- A node that asks for feature 5 and goes on at one of two others. -/
def oneQuestion : Forest where
  size := 3
  nodes := #v[⟨1, 0.5, [⟨5, 1, 2⟩]⟩, ⟨2, 1, []⟩, ⟨3, -1, []⟩]
  indexOf? id :=
    if id = 1 then some 0 else if id = 2 then some 1 else if id = 3 then some 2 else none
  root := 0
  indexOf?_eq_some_iff := by
    intro id i
    match i with
    | 0 | 1 | 2 => simp; grind

/-- Two rows, with a blank line and a comment between them. -/
def askedTwice : List UInt8 :=
  Utf8.encode "1 4:1\n\n# then\n0 0:1\n"

/-- Publishes the scores of the question. -/
def asker : Predictor :=
  { forest := oneQuestion, settings := { rawScore := true } }

theorem predictStream_exact_asker :
    asker.Ends askedTwice ∧
      ((asker.tuned true 2 1).predictStream askedTwice).result = .ok [1.5, -0.5] := by
  have hends : asker.Ends askedTwice := by
    intro row _
    cases hpresent : Features.contains row.features.toArray 5 <;>
      simp [asker, oneQuestion, Forest.score, Forest.scoreWith, Forest.walk, Forest.node,
        Branch.follow, required, hpresent]
  have hresult : (asker.predictStream askedTwice).result = .ok [1.5, -0.5] := by
    decide +kernel
  refine ⟨hends, ?_⟩
  rw [(predictStream_exact asker askedTwice hends).2.2.2.2 true 2 1]
  exact hresult

end Predictor
end DecisionForest

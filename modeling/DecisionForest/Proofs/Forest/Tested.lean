import DecisionForest.Proofs.Forest.Depth
import DecisionForest.Proofs.Forest.Reachable

/-!
# Scores depend on tested features only

A walk asks of a row only whether it has the features that are tested where it comes by. So two rows
that agree on the features tested at the nodes that the root leads to have one score or none together,
whatever else stands in them.

- `Forest.Tests` says that a branch of a position tests a feature; `Forest.mem_featureIds_iff` says that
  the feature ids of a forest are the features that some position tests,
- `Forest.walk_congr` is one step after another of two walks side by side,
- `Forest.score_congr` compares two rows, `Forest.score_keepTested` and `Forest.score_of_perm` take
  features out of a row and put others in,
- `Forest.score_tested` puts these together.
-/

namespace DecisionForest
namespace Forest

variable {F : Forest} {add : Float → Float → Float} {present present' : FeatureId → Bool}
  {features features' : Array FeatureId}

/-! ## Tested features -/

/-- Some branch of a position tests the feature. -/
def Tests (F : Forest) (i : Fin F.size) (f : FeatureId) : Prop :=
  ∃ b ∈ (F.node i).branches, b.feature = f

theorem mem_featureIds_iff {f : FeatureId} : f ∈ F.featureIds ↔ ∃ i, F.Tests i f := by
  rw [featureIds, Features.mem_ascending_iff, toList_nodes]
  simp [Tests]

/-! ## Walks side by side -/

theorem walkBranches_congr {depth : Nat} {bs : List (Branch (Fin F.size))}
    (h : ∀ b ∈ bs, F.walk add present depth (b.follow (present b.feature)) =
      F.walk add present' depth (b.follow (present' b.feature))) (sum : Float) :
    F.walkBranches add present depth bs sum = F.walkBranches add present' depth bs sum := by
  induction bs generalizing sum with
  | nil =>
      rfl
  | cons b bs ih =>
      have hrest : ∀ c ∈ bs, F.walk add present depth (c.follow (present c.feature)) =
          F.walk add present' depth (c.follow (present' c.feature)) :=
        fun c hc => h c (List.mem_cons_of_mem b hc)
      ext total
      rw [walkBranches_cons_eq_some_iff, walkBranches_cons_eq_some_iff, h b List.mem_cons_self]
      simp only [ih hrest]

/-- Two walks go the same way as long as they are answered alike. -/
theorem walk_congr {depth : Nat} {i : Fin F.size}
    (h : ∀ j, F.Reaches i j → ∀ f, F.Tests j f → present f = present' f) :
    F.walk add present depth i = F.walk add present' depth i := by
  induction depth generalizing i with
  | zero =>
      rfl
  | succ depth ih =>
      rw [walk_succ, walk_succ]
      apply walkBranches_congr
      intro b hb
      have hsame : present b.feature = present' b.feature :=
        h i .refl b.feature ⟨b, hb, rfl⟩
      have hedge : F.Edge i (b.follow (present' b.feature)) := edge_of_follows ⟨b, hb, rfl⟩
      rw [hsame]
      exact ih fun j hj => h j (.head hedge hj)

/-! ## Rows that agree -/

/-- The two rows agree on the features tested at the nodes that the root leads to. -/
def AgreeOnTested (F : Forest) (features features' : Array FeatureId) : Prop :=
  ∀ i ∈ F.reachable, ∀ f, F.Tests i f → (f ∈ features ↔ f ∈ features')

theorem agreeOnTested_of_featureIds
    (h : ∀ f ∈ F.featureIds, (f ∈ features ↔ f ∈ features')) :
    F.AgreeOnTested features features' :=
  fun i _ f hf => h f (mem_featureIds_iff.2 ⟨i, hf⟩)

theorem scoreWith_congr (hs : Features.Ascending features) (hs' : Features.Ascending features')
    (h : F.AgreeOnTested features features') (add : Float → Float → Float) :
    F.scoreWith add features = F.scoreWith add features' := by
  apply walk_congr
  intro i hi f hf
  -- On ascending rows both bisections decide membership, where they come to look.
  have hiff : f ∈ features ↔ f ∈ features' := h i (mem_reachable_iff.2 hi) f hf
  simp only [Features.contains_eq_mem hs, Features.contains_eq_mem hs', Array.mem_toList_iff, hiff]

theorem score_congr (hs : Features.Ascending features) (hs' : Features.Ascending features')
    (h : F.AgreeOnTested features features') : F.score features = F.score features' := by
  rw [score, score, scoreWith_congr hs hs' h]

/-! ## Other features -/

/-- Without the features that nothing tests. -/
def keepTested (F : Forest) (features : Array FeatureId) : Array FeatureId :=
  features.filter fun f => decide (f ∈ F.featureIds)

theorem score_keepTested (hs : Features.Ascending features) :
    F.score (F.keepTested features) = F.score features := by
  have hkept : Features.Ascending (F.keepTested features) := by
    unfold Features.Ascending keepTested
    rw [Array.toList_filter]
    exact hs.filter _
  apply score_congr hkept hs
  apply agreeOnTested_of_featureIds
  intro f hf
  simp [keepTested, hf]

theorem score_of_perm (hs : Features.Ascending features) (hs' : Features.Ascending features')
    {more : List FeatureId} (hperm : features'.toList.Perm (features.toList ++ more))
    (hmore : ∀ f ∈ more, f ∉ F.featureIds) : F.score features' = F.score features := by
  apply score_congr hs' hs
  apply agreeOnTested_of_featureIds
  intro f hf
  have hnot : f ∉ more := fun hmem => hmore f hmem hf
  rw [← Array.mem_toList_iff, hperm.mem_iff, List.mem_append, Array.mem_toList_iff]
  simp only [hnot, or_false]

/--
Two rows in ascending order, repetitions allowed, that agree on the features tested at the nodes that
the root leads to have the same score or both have none, for any way to add. The feature ids of a forest
are the features that some branch of some node tests, each once and in ascending order. So a row keeps
its score when the others are taken out of it, and when others are put in.
-/
theorem score_tested (F : Forest) :
    (∀ features features', Features.Ascending features → Features.Ascending features' →
      F.AgreeOnTested features features' →
        (∀ add, F.scoreWith add features = F.scoreWith add features') ∧
          ∀ score, F.score features = .ok score ↔ F.score features' = .ok score) ∧
    F.featureIds.Pairwise (· < ·) ∧
    (∀ f, f ∈ F.featureIds ↔ ∃ i, F.Tests i f) ∧
    (∀ features, Features.Ascending features →
      F.score (F.keepTested features) = F.score features) ∧
    ∀ features features' more, Features.Ascending features → Features.Ascending features' →
      features'.toList.Perm (features.toList ++ more) → (∀ f ∈ more, f ∉ F.featureIds) →
        F.score features' = F.score features := by
  refine ⟨?_, Features.pairwise_ascending _, fun _ => mem_featureIds_iff,
    fun _ => score_keepTested, fun _ _ _ hs hs' => score_of_perm hs hs'⟩
  intro features features' hs hs' h
  refine ⟨scoreWith_congr hs hs' h, fun score => ?_⟩
  rw [score_congr hs hs' h]

end Forest
end DecisionForest

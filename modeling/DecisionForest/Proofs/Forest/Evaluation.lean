import Mathlib.Data.Fintype.Card
import DecisionForest.Forest.Score
import DecisionForest.Proofs.Features
import DecisionForest.Proofs.Forest.Loaded

/-!
# Scores by evaluation

Evaluation needs no forest, only a node for each name: the value of a name is the base value of its
node, to which the values of the names that its branches go on at are added in branch order. It says
nothing of names that lead into a cycle.

- `Adds` and `Evaluates` are evaluation, for any names and any way to add,
- `Forest.walk_eq_some_iff` says that the walk through a forest is the evaluation of its positions:
  a depth as large as the forest is enough,
- `Model.Scores` is evaluation by the node lines of a stream, `Forest.scores_of_load` says that a
  loaded forest scores so.
-/

namespace DecisionForest

variable {κ κ' : Type} {add : Float → Float → Float} {present : FeatureId → Bool}

/-! ## Evaluation -/

/-- The total of a sum and the values of the branches, the names having the nodes that `node?`
gives. -/
inductive Adds (add : Float → Float → Float) (present : FeatureId → Bool)
    (node? : κ → Option (Node κ)) : Float → List (Branch κ) → Float → Prop where
  | nil (sum : Float) : Adds add present node? sum [] sum
  | cons {sum value total : Float} {b : Branch κ} {bs : List (Branch κ)} {n : Node κ} :
      node? (b.follow (present b.feature)) = some n →
      Adds add present node? n.base n.branches value →
      Adds add present node? (add sum value) bs total →
      Adds add present node? sum (b :: bs) total

/-- The value of a name. -/
def Evaluates (add : Float → Float → Float) (present : FeatureId → Bool)
    (node? : κ → Option (Node κ)) (k : κ) (value : Float) : Prop :=
  ∃ n, node? k = some n ∧ Adds add present node? n.base n.branches value

section Rename

variable {node? : κ → Option (Node κ)} {renamed? : κ' → Option (Node κ')} {f : κ → κ'}

theorem Adds.rename (hf : ∀ k, renamed? (f k) = (node? k).map (Node.map f)) {sum total : Float}
    {bs : List (Branch κ)} (h : Adds add present node? sum bs total) :
    Adds add present renamed? sum (bs.map (Branch.map f)) total := by
  induction h with
  | nil sum =>
      exact .nil sum
  | @cons sum value total b bs n hn _ _ ihvalue ihrest =>
      have hrenamed : renamed? ((b.map f).follow (present b.feature)) = some (n.map f) := by
        rw [Branch.follow_map, hf, hn]
        rfl
      exact .cons hrenamed ihvalue ihrest

theorem Adds.of_rename (hf : ∀ k, renamed? (f k) = (node? k).map (Node.map f)) {sum total : Float}
    {bs : List (Branch κ)} (h : Adds add present renamed? sum (bs.map (Branch.map f)) total) :
    Adds add present node? sum bs total := by
  -- Induction on the evaluation needs a variable for the renamed branches.
  generalize hbs : bs.map (Branch.map f) = bs' at h
  induction h generalizing bs with
  | nil sum =>
      rw [List.map_eq_nil_iff.1 hbs]
      exact .nil sum
  | @cons sum value total b' bs' n' hn' _ _ ihvalue ihrest =>
      rcases List.map_eq_cons_iff.1 hbs with ⟨b, bs₀, rfl, rfl, hbs₀⟩
      -- A renamed branch goes on at a new name, whose node is the renamed one.
      have hnode : (node? (b.follow (present b.feature))).map (Node.map f) = some n' := by
        rw [← hf, ← Branch.follow_map f]
        exact hn'
      rcases Option.map_eq_some_iff.1 hnode with ⟨n, hn, rfl⟩
      exact .cons hn (ihvalue rfl) (ihrest hbs₀)

/-- New names for old ones do not change values. -/
theorem evaluates_rename_iff (hf : ∀ k, renamed? (f k) = (node? k).map (Node.map f)) {k : κ}
    {value : Float} :
    Evaluates add present renamed? (f k) value ↔ Evaluates add present node? k value := by
  constructor
  · rintro ⟨n', hn', hadds⟩
    rw [hf] at hn'
    rcases Option.map_eq_some_iff.1 hn' with ⟨n, hn, rfl⟩
    exact ⟨n, hn, Adds.of_rename hf hadds⟩
  · rintro ⟨n, hn, hadds⟩
    refine ⟨n.map f, ?_, hadds.rename hf⟩
    rw [hf, hn]
    rfl

end Rename

namespace Forest

variable {F : Forest}

/-! ## Walks are evaluations -/

/-- The walk over the branches of a position, with `depth` left below them. -/
def walkBranches (F : Forest) (add : Float → Float → Float) (present : FeatureId → Bool)
    (depth : Nat) (bs : List (Branch (Fin F.size))) (sum : Float) : Option Float :=
  bs.foldlM (fun sum b => (F.walk add present depth (b.follow (present b.feature))).map (add sum))
    sum

theorem walk_succ (depth : Nat) (i : Fin F.size) :
    F.walk add present (depth + 1) i =
      F.walkBranches add present depth (F.node i).branches (F.node i).base :=
  rfl

theorem walkBranches_nil (depth : Nat) (sum : Float) :
    F.walkBranches add present depth [] sum = some sum :=
  rfl

theorem walkBranches_cons_eq_some_iff {depth : Nat} {b : Branch (Fin F.size)}
    {bs : List (Branch (Fin F.size))} {sum total : Float} :
    F.walkBranches add present depth (b :: bs) sum = some total ↔
      ∃ value, F.walk add present depth (b.follow (present b.feature)) = some value ∧
        F.walkBranches add present depth bs (add sum value) = some total := by
  unfold walkBranches
  rw [List.foldlM_cons]
  cases F.walk add present depth (b.follow (present b.feature)) <;> simp

theorem adds_of_walkBranches {depth : Nat}
    (hwalk : ∀ i value, F.walk add present depth i = some value →
      Evaluates add present (fun i => some (F.node i)) i value)
    {bs : List (Branch (Fin F.size))} {sum total : Float}
    (h : F.walkBranches add present depth bs sum = some total) :
    Adds add present (fun i => some (F.node i)) sum bs total := by
  induction bs generalizing sum with
  | nil =>
      rw [walkBranches_nil] at h
      cases h
      exact .nil _
  | cons b bs ih =>
      rcases walkBranches_cons_eq_some_iff.1 h with ⟨value, hvalue, hrest⟩
      rcases hwalk _ _ hvalue with ⟨n, hn, hadds⟩
      exact .cons hn hadds (ih hrest)

theorem evaluates_of_walk {depth : Nat} {i : Fin F.size} {value : Float}
    (h : F.walk add present depth i = some value) :
    Evaluates add present (fun i => some (F.node i)) i value := by
  induction depth generalizing i value with
  | zero =>
      -- A walk of no depth has no value.
      cases h
  | succ depth ih =>
      exact ⟨F.node i, rfl, adds_of_walkBranches (fun _ _ => ih) h⟩

/-! ## More depth -/

theorem walkBranches_mono {depth depth' : Nat}
    (hwalk : ∀ i value, F.walk add present depth i = some value →
      F.walk add present depth' i = some value)
    {bs : List (Branch (Fin F.size))} {sum total : Float}
    (h : F.walkBranches add present depth bs sum = some total) :
    F.walkBranches add present depth' bs sum = some total := by
  induction bs generalizing sum with
  | nil =>
      exact h
  | cons b bs ih =>
      rcases walkBranches_cons_eq_some_iff.1 h with ⟨value, hvalue, hrest⟩
      exact walkBranches_cons_eq_some_iff.2 ⟨value, hwalk _ _ hvalue, ih hrest⟩

theorem walk_succ_of_walk {depth : Nat} {i : Fin F.size} {value : Float}
    (h : F.walk add present depth i = some value) :
    F.walk add present (depth + 1) i = some value := by
  induction depth generalizing i value with
  | zero =>
      cases h
  | succ depth ih =>
      exact walkBranches_mono (fun _ _ => ih) h

/-- A walk that has a value keeps it when it may go deeper. -/
theorem walk_mono {depth depth' : Nat} (hle : depth ≤ depth') {i : Fin F.size} {value : Float}
    (h : F.walk add present depth i = some value) :
    F.walk add present depth' i = some value := by
  induction hle with
  | refl =>
      exact h
  | step _ ih =>
      exact walk_succ_of_walk ih

theorem exists_walkBranches {bs : List (Branch (Fin F.size))} {sum total : Float}
    (h : Adds add present (fun i => some (F.node i)) sum bs total) :
    ∃ depth, F.walkBranches add present depth bs sum = some total := by
  induction h with
  | nil sum =>
      exact ⟨0, walkBranches_nil 0 sum⟩
  | @cons sum value total b bs n hn _ _ ihvalue ihrest =>
      rcases ihvalue with ⟨below, hvalue⟩
      rcases ihrest with ⟨beside, hrest⟩
      cases hn
      -- The target takes one level more than its own branches; the rest may need more than that.
      refine ⟨max (below + 1) beside, walkBranches_cons_eq_some_iff.2 ⟨value, ?_, ?_⟩⟩
      · exact walk_mono (Nat.le_max_left _ _) hvalue
      · exact walkBranches_mono (fun _ _ => walk_mono (Nat.le_max_right _ _)) hrest

theorem exists_walk {i : Fin F.size} {value : Float}
    (h : Evaluates add present (fun i => some (F.node i)) i value) :
    ∃ depth, F.walk add present depth i = some value := by
  rcases h with ⟨n, hn, hadds⟩
  cases hn
  rcases exists_walkBranches hadds with ⟨depth, hdepth⟩
  -- One level for the position itself.
  exact ⟨depth + 1, hdepth⟩

/-! ## Enough depth -/

/-- The positions that have a value by walks of some depth. -/
def valued (F : Forest) (add : Float → Float → Float) (present : FeatureId → Bool) (depth : Nat) :
    Finset (Fin F.size) :=
  Finset.univ.filter fun i => (F.walk add present depth i).isSome = true

theorem mem_valued_iff {depth : Nat} {i : Fin F.size} :
    i ∈ F.valued add present depth ↔ ∃ value, F.walk add present depth i = some value := by
  simp [valued, Option.isSome_iff_exists]

theorem valued_mono {depth depth' : Nat} (hle : depth ≤ depth') :
    F.valued add present depth ⊆ F.valued add present depth' := by
  intro i hi
  rcases mem_valued_iff.1 hi with ⟨value, hvalue⟩
  exact mem_valued_iff.2 ⟨value, walk_mono hle hvalue⟩

/-- Depths at which as many positions have a value give every position the same. -/
theorem walk_eq_of_card {depth depth' : Nat} (hle : depth ≤ depth')
    (hcard : (F.valued add present depth).card = (F.valued add present depth').card) :
    F.walk add present depth = F.walk add present depth' := by
  have hsame : F.valued add present depth = F.valued add present depth' :=
    Finset.eq_of_subset_of_card_le (valued_mono hle) (Nat.le_of_eq hcard.symm)
  funext i
  -- Where there is a value it is kept; where there is none, the other set has none either.
  cases hwalk : F.walk add present depth i with
  | some value =>
      exact (walk_mono hle hwalk).symm
  | none =>
      have hnot : i ∉ F.valued add present depth' := by
        rw [← hsame, mem_valued_iff]
        simp [hwalk]
      cases hwalk' : F.walk add present depth' i with
      | none =>
          rfl
      | some value =>
          exact absurd (mem_valued_iff.2 ⟨value, hwalk'⟩) hnot

/-- Each level gives a value to one more position, or no further level gives one to any. -/
theorem walk_size_of_walk {depth : Nat} {i : Fin F.size} {value : Float}
    (h : F.walk add present depth i = some value) :
    F.walk add present F.size i = some value := by
  have hbound : ∀ d, (F.valued add present d).card ≤ F.size := by
    intro d
    simpa using Finset.card_le_univ (F.valued add present d)
  have hmono : Monotone fun d => (F.valued add present d).card :=
    fun _ _ hle => Finset.card_le_card (valued_mono hle)
  -- A walk sees the walk one level less deep only, so what stands still once stands still for good.
  have hstop : ∀ d, (F.valued add present d).card = (F.valued add present (d + 1)).card →
      (F.valued add present (d + 1)).card = (F.valued add present (d + 2)).card := by
    intro d hd
    have hwalk : F.walk add present d = F.walk add present (d + 1) :=
      walk_eq_of_card (Nat.le_succ d) hd
    have hnext : F.walk add present (d + 1) = F.walk add present (d + 2) := by
      funext j
      rw [walk_succ, walk_succ, walkBranches, walkBranches, hwalk]
    unfold valued
    rw [hnext]
  rcases Nat.le_total depth F.size with hle | hge
  · exact walk_mono hle h
  · -- There are no more levels at which the number grows than there are positions.
    have hcard := Nat.stabilises_of_monotone hmono hbound hstop hge
    rw [walk_eq_of_card hge hcard.symm]
    exact h

theorem walk_eq_some_iff {i : Fin F.size} {value : Float} :
    F.walk add present F.size i = some value ↔
      Evaluates add present (fun i => some (F.node i)) i value := by
  constructor
  · exact evaluates_of_walk
  · intro h
    rcases exists_walk h with ⟨depth, hdepth⟩
    exact walk_size_of_walk hdepth

end Forest

/-! ## Evaluation by the node lines of a stream -/

namespace Model

/-- The node that the last node line of an id holds. -/
def node? (stream : List UInt8) (id : NodeId) : Option (Node NodeId) :=
  (latest? (definitions stream) id).map Definition.node

/-- The value of the id in the first node line, for a row with the given features. -/
def Scores (add : Float → Float → Float) (stream : List UInt8) (features : List FeatureId)
    (value : Float) : Prop :=
  ∃ d, (definitions stream).head? = some d ∧
    Evaluates add (fun f => decide (f ∈ features)) (node? stream) d.id value

end Model

namespace Forest

variable {o : LoadOptions} {stream : List UInt8} {F : Forest}

theorem node?_idAt_of_load (h : (load o stream).result = .ok F) (i : Fin F.size) :
    Model.node? stream (F.idAt i) = (some (F.node i)).map (Node.map F.idAt) := by
  rcases record_of_load h i with ⟨d, hd, hnode⟩
  rw [Model.node?, hd, Option.map_some, hnode]
  rfl

/--
On a row in ascending order, repetitions allowed, a loaded forest has the score that evaluation by
the ids of the stream gives, and none where evaluation does not come to an end, for any way to add.
-/
theorem scores_of_load {features : Array FeatureId} (h : (load o stream).result = .ok F)
    (hfeatures : Features.Ascending features) :
    (∀ add value, F.scoreWith add features = some value ↔
      Model.Scores add stream features.toList value) ∧
    ∀ value, F.score features = .ok value ↔
      Model.Scores (· + ·) stream features.toList value := by
  have hwith : ∀ add value, F.scoreWith add features = some value ↔
      Model.Scores add stream features.toList value := by
    intro add value
    have hpresent : Features.contains features = fun f => decide (f ∈ features.toList) :=
      funext fun f => Features.contains_eq_mem hfeatures
    rcases Option.map_eq_some_iff.1 (idAt_root_of_load h) with ⟨d, hd, hid⟩
    -- From the walk to evaluation by position, by id, and from the first line of the stream.
    calc
      F.scoreWith add features = some value
          ↔ Evaluates add (fun f => decide (f ∈ features.toList)) (fun i => some (F.node i)) F.root
              value := by
            rw [scoreWith, walk_eq_some_iff, hpresent]
      _ ↔ Evaluates add (fun f => decide (f ∈ features.toList)) (Model.node? stream)
              (F.idAt F.root) value :=
            (evaluates_rename_iff (node?_idAt_of_load h)).symm
      _ ↔ Model.Scores add stream features.toList value := by
            simp [Model.Scores, hd, hid]
  refine ⟨hwith, ?_⟩
  intro value
  rw [score, required_eq_ok_iff]
  exact hwith (· + ·) value

theorem scores_of_load_rootRedefined :
    ∃ F, (load {} rootRedefined).result = .ok F ∧ Features.Ascending #[2, 5, 5] ∧
      F.score #[2, 5, 5] = .ok 6 := by
  have hload : (load {} rootRedefined).result.isOk = true := by
    decide +kernel
  have hfeatures : Features.Ascending #[2, 5, 5] := by
    unfold Features.Ascending
    decide
  have hroot : Model.node? rootRedefined 1 = some ⟨1, 7, [⟨5, 3, 2⟩]⟩ := by
    decide +kernel
  have hyes : Model.node? rootRedefined (Branch.follow ⟨5, 3, 2⟩ (decide (5 ∈ [2, 5, 5]))) =
      some ⟨3, -1, []⟩ := by
    decide +kernel
  have hsum : (7 : Float) + -1 = 6 := by
    decide +kernel
  have hadds : Adds (· + ·) (fun f => decide (f ∈ [2, 5, 5])) (Model.node? rootRedefined) 7
      [⟨5, 3, 2⟩] 6 := by
    refine .cons hyes (.nil (-1)) ?_
    rw [hsum]
    exact .nil 6
  have hfirst : (Model.definitions rootRedefined).head? = some ⟨2, ⟨1, 0.5, [⟨5, 9, 9⟩]⟩⟩ := by
    decide +kernel
  rcases exists_eq_ok hload with ⟨F, hF⟩
  refine ⟨F, hF, hfeatures, ?_⟩
  exact ((scores_of_load hF hfeatures).2 6).2 ⟨_, hfirst, _, hroot, hadds⟩

end Forest
end DecisionForest

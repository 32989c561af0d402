import DecisionForest.Proofs.Predictor

/-!
# Batches scored in any order

A large batch is scored as tasks. The rows are cut into parts again and again, the parts go on in any
order, their values are put together in row order, and the first row that turns out to have no value
ends the batch. Nothing of this is seen in the values; a batch that fails does so for one of its rows,
and which one is open.

- `Job` is a list whose elements are being treated, with `Job.Step`, `Job.Fails` and `Job.Done` for
  what may happen next, and `Job.Ends` for what may come out,
- `Job.Covers` is the invariant of a step, `Job.ends_ok_iff` and `Job.ends_error_iff` are about all
  runs, `Job.wellFounded_step` and `Job.progress` say that no run goes on for ever or gets stuck,
- `Predictor.BatchEnds` is what may come out of a batch, `Predictor.batch_exact` what it has to do
  with the rows.
-/

namespace DecisionForest

/-- Elements that are treated as tasks: a part of a list, with the results of those in front and the
elements left, or two jobs side by side. -/
inductive Job (α β : Type) where
  | part (results : List β) (left : List α)
  | fork (front back : Job α β)

namespace Job

variable {α β ε : Type}

/-! ## Steps -/

section Steps

variable (f : α → Except ε β)

/-- A part is cut in two, or its next element is treated; any part may be the one to go on. -/
inductive Step : Job α β → Job α β → Prop where
  | split {ys : List β} {xs xs' : List α} : xs ≠ [] → xs' ≠ [] →
      Step (part ys (xs ++ xs')) (fork (part ys xs) (part [] xs'))
  | treat {ys : List β} {x : α} {y : β} {xs : List α} : f x = .ok y →
      Step (part ys (x :: xs)) (part (ys ++ [y]) xs)
  | front {a a' b : Job α β} : Step a a' → Step (fork a b) (fork a' b)
  | back {a b b' : Job α β} : Step b b' → Step (fork a b) (fork a b')

/-- The next element of some part has no result. -/
inductive Fails : Job α β → ε → Prop where
  | part {ys : List β} {x : α} {xs : List α} {e : ε} : f x = .error e →
      Fails (part ys (x :: xs)) e
  | front {a b : Job α β} {e : ε} : Fails a e → Fails (fork a b) e
  | back {a b : Job α β} {e : ε} : Fails b e → Fails (fork a b) e

/-- No element is left, and these are the results in order. -/
inductive Done : Job α β → List β → Prop where
  | part {ys : List β} : Done (part ys []) ys
  | fork {a b : Job α β} {ys zs : List β} : Done a ys → Done b zs → Done (fork a b) (ys ++ zs)

/-- What may come out of a job. A failure ends it, whatever is left and whichever fails next. -/
inductive Ends : Job α β → Except ε (List β) → Prop where
  | done {a : Job α β} {ys : List β} : Done a ys → Ends a (.ok ys)
  | fail {a : Job α β} {e : ε} : Fails f a e → Ends a (.error e)
  | step {a b : Job α β} {r : Except ε (List β)} : Step f a b → Ends b r → Ends a r

/-! ## What a job stands for -/

/-- The elements of a job, those that have results included. -/
inductive Covers : Job α β → List α → Prop where
  | part {ys : List β} {xs left : List α} : List.Forall₂ (fun x y => f x = .ok y) xs ys →
      Covers (part ys left) (xs ++ left)
  | fork {a b : Job α β} {xs xs' : List α} : Covers a xs → Covers b xs' →
      Covers (fork a b) (xs ++ xs')

end Steps

variable {f : α → Except ε β} {a b : Job α β} {xs : List α} {ys : List β} {e : ε}

theorem covers_part_nil (xs : List α) : Covers f (part [] xs) xs := by
  have hcovers : Covers f (part [] xs) ([] ++ xs) := .part .nil
  exact hcovers

/-- A step treats elements of a job and leaves which ones they are. -/
theorem Covers.step (h : Covers f a xs) (hstep : Step f a b) : Covers f b xs := by
  induction hstep generalizing xs with
  | split _ _ =>
      cases h with
      | part hresults =>
          rw [← List.append_assoc]
          exact .fork (.part hresults) (covers_part_nil _)
  | treat hy =>
      cases h with
      | @part _ done _ hresults =>
          rw [List.append_cons done]
          exact .part (List.rel_append hresults (.cons hy .nil))
  | front _ ih =>
      cases h with
      | fork ha hb =>
          exact .fork (ih ha) hb
  | back _ ih =>
      cases h with
      | fork ha hb =>
          exact .fork ha (ih hb)

theorem Covers.forall₂_of_done (h : Covers f a xs) (hdone : Done a ys) :
    List.Forall₂ (fun x y => f x = .ok y) xs ys := by
  induction hdone generalizing xs with
  | part =>
      cases h with
      | part hresults =>
          rw [List.append_nil]
          exact hresults
  | fork _ _ iha ihb =>
      cases h with
      | fork ha hb =>
          exact List.rel_append (iha ha) (ihb hb)

theorem Covers.exists_of_fails (h : Covers f a xs) (hfails : Fails f a e) :
    ∃ x ∈ xs, f x = .error e := by
  induction hfails generalizing xs with
  | part hx =>
      cases h with
      | part _ =>
          exact ⟨_, by simp, hx⟩
  | front _ ih =>
      cases h with
      | fork ha _ =>
          obtain ⟨x, hmem, hx⟩ := ih ha
          exact ⟨x, List.mem_append_left _ hmem, hx⟩
  | back _ ih =>
      cases h with
      | fork _ hb =>
          obtain ⟨x, hmem, hx⟩ := ih hb
          exact ⟨x, List.mem_append_right _ hmem, hx⟩

/-- What comes out of a job is the results of all its elements, or the error of one of them. -/
theorem Covers.of_ends {r : Except ε (List β)} (h : Covers f a xs) (hends : Ends f a r) :
    (∀ ys, r = .ok ys → List.Forall₂ (fun x y => f x = .ok y) xs ys) ∧
      ∀ e, r = .error e → ∃ x ∈ xs, f x = .error e := by
  induction hends with
  | done hdone =>
      refine ⟨?_, by simp⟩
      rintro _ ⟨⟩
      exact h.forall₂_of_done hdone
  | fail hfails =>
      refine ⟨by simp, ?_⟩
      rintro _ ⟨⟩
      exact h.exists_of_fails hfails
  | step hstep _ ih =>
      exact ih (h.step hstep)

/-! ## Every run comes to an end -/

/-- At least the number of steps that a job can still go on for. -/
def weight : Job α β → Nat
  | part _ left => 2 * left.length - 1
  | fork a b => weight a + weight b

theorem weight_lt_of_step (h : Step f a b) : b.weight < a.weight := by
  induction h with
  | split hxs hxs' =>
      have hfront := List.length_pos_iff.2 hxs
      have hback := List.length_pos_iff.2 hxs'
      simp only [weight, List.length_append]
      omega
  | treat _ =>
      simp only [weight, List.length_cons]
      omega
  | front _ ih =>
      simpa [weight] using ih
  | back _ ih =>
      simpa [weight] using ih

/-- No job goes on for ever. -/
theorem wellFounded_step (f : α → Except ε β) : WellFounded fun b a : Job α β => Step f a b :=
  Subrelation.wf weight_lt_of_step (InvImage.wf weight Nat.lt_wfRel.wf)

/-- A job with elements left goes on or fails. -/
theorem progress (f : α → Except ε β) (a : Job α β) :
    (∃ ys, Done a ys) ∨ (∃ e, Fails f a e) ∨ ∃ b, Step f a b := by
  induction a with
  | part ys left =>
      cases left with
      | nil =>
          exact Or.inl ⟨ys, .part⟩
      | cons x xs =>
          cases hx : f x with
          | error e =>
              exact Or.inr (Or.inl ⟨e, .part hx⟩)
          | ok y =>
              exact Or.inr (Or.inr ⟨_, .treat hx⟩)
  | fork a b iha ihb =>
      rcases iha with ⟨ys, ha⟩ | ⟨e, ha⟩ | ⟨a', ha⟩
      · rcases ihb with ⟨zs, hb⟩ | ⟨e, hb⟩ | ⟨b', hb⟩
        · exact Or.inl ⟨_, .fork ha hb⟩
        · exact Or.inr (Or.inl ⟨e, .back hb⟩)
        · exact Or.inr (Or.inr ⟨_, .back hb⟩)
      · exact Or.inr (Or.inl ⟨e, .front ha⟩)
      · exact Or.inr (Or.inr ⟨_, .front ha⟩)

/-! ## What may come out of a list -/

theorem map_mapM_cons {x : α} {y : β} (hx : f x = .ok y) (ys : List β) (xs : List α) :
    ((x :: xs).mapM f).map (ys ++ ·) = (xs.mapM f).map (ys ++ [y] ++ ·) := by
  rw [List.mapM_cons, hx]
  cases xs.mapM f <;> simp [bind, Except.bind, pure, Except.pure, Except.map]

/-- One of the runs goes through the list from the front without cutting it. -/
theorem ends_mapM (ys : List β) (xs : List α) :
    Ends f (part ys xs) ((xs.mapM f).map (ys ++ ·)) := by
  induction xs generalizing ys with
  | nil =>
      have hdone : Ends f (part ys []) (.ok (ys ++ [])) := by
        rw [List.append_nil]
        exact .done .part
      exact hdone
  | cons x xs ih =>
      cases hx : f x with
      | error e =>
          rw [List.mapM_cons, hx]
          exact .fail (.part hx)
      | ok y =>
          rw [map_mapM_cons hx]
          exact .step (.treat hx) (ih (ys ++ [y]))

theorem ends_ok_iff :
    Ends f (part [] xs) (.ok ys) ↔ List.Forall₂ (fun x y => f x = .ok y) xs ys := by
  constructor
  · intro hends
    exact ((covers_part_nil xs).of_ends hends).1 ys rfl
  · intro hresults
    have hrun := ends_mapM (f := f) [] xs
    rw [mapM_eq_ok_iff.2 hresults] at hrun
    exact hrun

/-- Any element without a result may be the first to be found. -/
theorem ends_error_iff : Ends f (part [] xs) (.error e) ↔ ∃ x ∈ xs, f x = .error e := by
  constructor
  · intro hends
    exact ((covers_part_nil xs).of_ends hends).2 e rfl
  · rintro ⟨x, hmem, hx⟩
    obtain ⟨before, after, rfl⟩ := List.append_of_mem hmem
    cases before with
    | nil =>
        exact .fail (.part hx)
    | cons x' before =>
        -- The list is cut in front of the element.
        exact .step (.split (by simp) (by simp)) (.fail (.back (.part hx)))

/-- Whichever run it is, results come out of it exactly when every element has one. -/
theorem Ends.eq_ok_iff {r : Except ε (List β)} (h : Ends f (part [] xs) r) :
    r = .ok ys ↔ List.Forall₂ (fun x y => f x = .ok y) xs ys := by
  constructor
  · rintro rfl
    exact ends_ok_iff.1 h
  · intro hresults
    have hall : xs.mapM f = .ok ys := mapM_eq_ok_iff.2 hresults
    cases r with
    | ok ys' =>
        rw [← hall, mapM_eq_ok_iff.2 (ends_ok_iff.1 h)]
    | error e =>
        obtain ⟨x, hmem, hx⟩ := ends_error_iff.1 h
        obtain ⟨y, hy⟩ := exists_mapM_eq_ok_iff.1 ⟨ys, hall⟩ x hmem
        rw [hx] at hy
        cases hy

end Job

/-! ## Batches of rows -/

namespace Predictor

variable {p : Predictor} {rows : List (Array FeatureId)} {r : Except Error (List Float)}

/-- What may come out of a batch: below the threshold, what scoring row by row gives, and otherwise
what some run of tasks gives. -/
inductive BatchEnds (p : Predictor) (rows : List (Array FeatureId)) :
    Except Error (List Float) → Prop where
  | sequential : rows.length < p.settings.parallelThreshold.toNat →
      BatchEnds p rows (p.predictSequentially rows)
  | parallel {r : Except Error (List Float)} : p.settings.parallelThreshold.toNat ≤ rows.length →
      Job.Ends p.predictRow (.part [] rows) r → BatchEnds p rows r

theorem batchEnds_iff_of_lt (h : rows.length < p.settings.parallelThreshold.toNat) :
    p.BatchEnds rows r ↔ r = p.predictSequentially rows := by
  constructor
  · rintro (_ | ⟨hlarge, _⟩)
    · rfl
    · exact absurd h (Nat.not_lt.2 hlarge)
  · rintro rfl
    exact .sequential h

theorem batchEnds_iff_of_le (h : p.settings.parallelThreshold.toNat ≤ rows.length) :
    p.BatchEnds rows r ↔ Job.Ends p.predictRow (.part [] rows) r := by
  constructor
  · rintro (hsmall | ⟨_, hrun⟩)
    · exact absurd hsmall (Nat.not_lt.2 h)
    · exact hrun
  · exact .parallel h

/-- The batch is one of its possible outcomes. -/
theorem batchEnds_predictBatch (p : Predictor) (rows : List (Array FeatureId)) :
    p.BatchEnds rows (p.predictBatch rows).result := by
  rw [result_predictBatch]
  rcases Nat.lt_or_ge rows.length p.settings.parallelThreshold.toNat with hsmall | hlarge
  · exact .sequential hsmall
  · have hrun := Job.ends_mapM (f := p.predictRow) [] rows
    have hsame : (p.predictSequentially rows).map ([] ++ ·) = p.predictSequentially rows := by
      cases p.predictSequentially rows <;> rfl
    rw [← hsame]
    exact .parallel hlarge hrun

namespace BatchEnds

theorem eq_ok_iff (h : p.BatchEnds rows r) {values : List Float} :
    r = .ok values ↔ List.Forall₂ (fun row value => p.predictRow row = .ok value) rows values := by
  cases h with
  | sequential _ =>
      exact mapM_eq_ok_iff
  | parallel _ hrun =>
      exact hrun.eq_ok_iff

theorem exists_eq_ok_iff (h : p.BatchEnds rows r) :
    (∃ values, r = .ok values) ↔ ∀ row ∈ rows, ∃ value, p.predictRow row = .ok value := by
  simp only [h.eq_ok_iff, ← mapM_eq_ok_iff, exists_mapM_eq_ok_iff]

theorem exists_of_eq_error (h : p.BatchEnds rows r) {e : Error} (hr : r = .error e) :
    ∃ row ∈ rows, p.predictRow row = .error e := by
  cases h with
  | sequential _ =>
      exact (mapM_eq_error_iff.1 hr).exists_mem
  | parallel _ hrun =>
      rw [hr] at hrun
      exact Job.ends_error_iff.1 hrun

/-- Where all other rows have a value, there is no choice of the error. -/
theorem eq_error_of_single (h : p.BatchEnds rows r) {before after : List (Array FeatureId)}
    {row : Array FeatureId} {e : Error} (hrows : rows = before ++ row :: after)
    (hothers : ∀ other ∈ before ++ after, ∃ value, p.predictRow other = .ok value)
    (hrow : p.predictRow row = .error e) : r = .error e := by
  cases r with
  | ok values =>
      obtain ⟨value, hvalue⟩ := h.exists_eq_ok_iff.1 ⟨values, rfl⟩ row (by simp [hrows])
      rw [hrow] at hvalue
      cases hvalue
  | error e' =>
      obtain ⟨failing, hmem, hfailing⟩ := h.exists_of_eq_error rfl
      have hcases : failing ∈ before ++ after ∨ failing = row := by
        rw [hrows] at hmem
        simp only [List.mem_append, List.mem_cons] at hmem ⊢
        tauto
      rcases hcases with hother | rfl
      · obtain ⟨value, hvalue⟩ := hothers failing hother
        rw [hfailing] at hvalue
        cases hvalue
      · rw [hrow] at hfailing
        cases hfailing
        rfl

end BatchEnds

/-- What may come out of a batch, whatever the order and the parts in which its rows are scored: the
values of all rows, in row order, if each of them has one, and otherwise the error of a row that has
none. Below the threshold that row is the first one; above it can be any, so it is certain only where
there is a single one. The values are those of scoring row by row, whatever the threshold and the
number of threads, and every way to go about a batch comes to an end. -/
theorem batch_exact (p : Predictor) (rows : List (Array FeatureId)) :
    p.BatchEnds rows (p.predictBatch rows).result ∧
      (∀ r, p.BatchEnds rows r →
        ((∃ values, r = .ok values) ↔ ∀ row ∈ rows, ∃ value, p.predictRow row = .ok value) ∧
        (∀ values, r = .ok values ↔
          List.Forall₂ (fun row value => p.predictRow row = .ok value) rows values) ∧
        (∀ e, r = .error e → ∃ row ∈ rows, p.predictRow row = .error e) ∧
        ∀ before row after e, rows = before ++ row :: after →
          (∀ other ∈ before ++ after, ∃ value, p.predictRow other = .ok value) →
          p.predictRow row = .error e → r = .error e) ∧
      (rows.length < p.settings.parallelThreshold.toNat → ∀ e,
        p.BatchEnds rows (.error e) ↔
          FirstFault (fun row e => p.predictRow row = .error e) rows e) ∧
      (p.settings.parallelThreshold.toNat ≤ rows.length → ∀ e,
        p.BatchEnds rows (.error e) ↔ ∃ row ∈ rows, p.predictRow row = .error e) ∧
      (∀ threads threshold r,
        (p.tuned p.settings.strictFeatures threads threshold).BatchEnds rows r →
          ∀ values, r = .ok values ↔ p.predictSequentially rows = .ok values) ∧
      (WellFounded fun b a : Job (Array FeatureId) Float => Job.Step p.predictRow a b) ∧
      ∀ a : Job (Array FeatureId) Float,
        (∃ values, Job.Done a values) ∨ (∃ e, Job.Fails p.predictRow a e) ∨
          ∃ b, Job.Step p.predictRow a b := by
  refine ⟨p.batchEnds_predictBatch rows, ?_, ?_, ?_, ?_, Job.wellFounded_step _, Job.progress _⟩
  · intro r h
    refine ⟨h.exists_eq_ok_iff, fun _ => h.eq_ok_iff, fun _ => h.exists_of_eq_error, ?_⟩
    intro before row after e hrows hothers hrow
    exact h.eq_error_of_single hrows hothers hrow
  · intro hsmall e
    rw [batchEnds_iff_of_lt hsmall, eq_comm]
    exact mapM_eq_error_iff
  · intro hlarge e
    rw [batchEnds_iff_of_le hlarge]
    exact Job.ends_error_iff
  · intro threads threshold r h values
    -- Only the way to go about the batch differs, not what a row gives.
    rw [h.eq_ok_iff]
    exact mapM_eq_ok_iff.symm

end Predictor
end DecisionForest

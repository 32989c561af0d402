import DecisionForest.Forest.Load
import DecisionForest.Proofs.Forest.Graph
import DecisionForest.Proofs.Forest.Loaded

/-!
# The cycle search finds cycles

The search keeps a path of active positions. Behind it lie the positions that are done: they lead to
done positions only, and none of them is on a cycle. `Forest.Searching` is this invariant, with one
lemma for each thing the search does.

- `Forest.searching_descend` is the invariant over a whole descent: either an active position is met
  again, which closes a cycle, or the path is finished,
- `Forest.searchCycle_eq_none` and `Forest.onCycle_of_searchCycle` are about the search over all
  positions,
- `Forest.findCycle?_exact` is the search of a forest, and what a loader makes of it.
-/

namespace DecisionForest

/-! ## Marks -/

section Marks

variable {n : Nat} (marks : Vector Mark n) (i : Fin n) (m : Mark)

/-- What is done stays done when a mark is set. -/
theorem done_set {j : Fin n} (hi : marks.get i ≠ .done) (hj : marks.get j = .done) :
    (marks.set i m i.isLt).get j = .done := by
  have hne : j ≠ i := by
    rintro rfl
    exact hi hj
  rw [mark_set_of_ne marks i m hne, hj]

end Marks

namespace Forest

variable {F : Forest} {marks : Vector Mark F.size}

/-! ## The invariant -/

/-- Every target of a position on the path is left to look at, or is where the path goes on, or is
done. -/
def Trail (marks : Vector Mark F.size) : Option (Fin F.size) → List F.Frame → Prop
  | _, [] => True
  | next, (i, js) :: path =>
    (∀ j ∈ js, F.Edge i j) ∧ (∀ j, next = some j → F.Edge i j) ∧
      (∀ j, F.Edge i j → j ∈ js ∨ next = some j ∨ marks.get j = .done) ∧ Trail marks (some i) path

/-- What holds of the marks and the path at every step of the search. -/
structure Searching (marks : Vector Mark F.size) (path : List F.Frame) : Prop where
  active_iff : ∀ i, marks.get i = .active ↔ i ∈ path.map Prod.fst
  nodup : (path.map Prod.fst).Nodup
  trail : Trail marks none path
  closed : ∀ i j, marks.get i = .done → F.Edge i j → marks.get j = .done
  acyclic : ∀ i, marks.get i = .done → ¬ F.OnCycle i

theorem Trail.mono {marks' : Vector Mark F.size} {path : List F.Frame} {next : Option (Fin F.size)}
    (h : Trail marks next path)
    (hdone : ∀ j : Fin F.size, marks.get j = .done → marks'.get j = .done) :
    Trail marks' next path := by
  induction path generalizing next with
  | nil =>
      trivial
  | cons f path ih =>
      rcases h with ⟨hleft, hnext, hsettled, hrest⟩
      refine ⟨hleft, hnext, ?_, ih hrest⟩
      intro j hj
      rcases hsettled j hj with hmem | heq | hmark
      · exact Or.inl hmem
      · exact Or.inr (Or.inl heq)
      · exact Or.inr (Or.inr (hdone j hmark))

/-- The path goes back by one position when that position is done. -/
theorem Trail.back {marks' : Vector Mark F.size} {path : List F.Frame} {i : Fin F.size}
    (h : Trail marks (some i) path) (hi : marks'.get i = .done)
    (hdone : ∀ j : Fin F.size, marks.get j = .done → marks'.get j = .done) :
    Trail marks' none path := by
  cases path with
  | nil =>
      trivial
  | cons f path =>
      rcases h with ⟨hleft, _, hsettled, hrest⟩
      refine ⟨hleft, by simp, ?_, hrest.mono hdone⟩
      intro j hj
      rcases hsettled j hj with hmem | heq | hmark
      · exact Or.inl hmem
      · cases heq
        exact Or.inr (Or.inr hi)
      · exact Or.inr (Or.inr (hdone j hmark))

/-- Every position on the path reaches the last one. -/
theorem Trail.reaches {path : List F.Frame} {next : Option (Fin F.size)} {i k : Fin F.size}
    {js : List (Fin F.size)} (h : Trail marks next ((i, js) :: path))
    (hk : k ∈ ((i, js) :: path).map Prod.fst) : F.Reaches k i := by
  -- From the end of the path back: the position before goes on at this one.
  induction path generalizing next i js with
  | nil =>
      have hki : k = i := by
        simpa using hk
      rw [hki]
      exact Relation.ReflTransGen.refl
  | cons f path ih =>
      rcases h with ⟨_, _, _, hrest⟩
      rcases List.mem_cons.1 hk with rfl | hk
      · exact Relation.ReflTransGen.refl
      · have hedge : F.Edge f.1 i := hrest.2.1 i rfl
        exact (ih hrest hk).tail hedge

namespace Searching

variable {path : List F.Frame} {i j : Fin F.size} {js : List (Fin F.size)}

/-! ## The steps of the search -/

/-- A target that is active leads back to itself. -/
theorem onCycle (h : Searching marks ((i, j :: js) :: path)) (hj : marks.get j = .active) :
    F.OnCycle j := by
  have hreach : F.Reaches j i := h.trail.reaches ((h.active_iff j).1 hj)
  have hedge : F.Edge i j := h.trail.1 j (by simp)
  exact Relation.TransGen.tail' hreach hedge

theorem skip (h : Searching marks ((i, j :: js) :: path)) (hj : marks.get j = .done) :
    Searching marks ((i, js) :: path) where
  active_iff := h.active_iff
  nodup := h.nodup
  closed := h.closed
  acyclic := h.acyclic
  trail := by
    rcases h.trail with ⟨hleft, hnext, hsettled, hrest⟩
    refine ⟨fun k hk => hleft k (by simp [hk]), hnext, ?_, hrest⟩
    intro k hk
    rcases hsettled k hk with hmem | heq | hmark
    · rcases List.mem_cons.1 hmem with rfl | hmem
      · exact Or.inr (Or.inr hj)
      · exact Or.inl hmem
    · exact Or.inr (Or.inl heq)
    · exact Or.inr (Or.inr hmark)

/-- The search goes on at a fresh position. -/
theorem push {path' : List F.Frame} (h : Searching marks path) (hj : marks.get j = .fresh)
    (hfst : path'.map Prod.fst = path.map Prod.fst) (htrail : Trail marks (some j) path') :
    Searching (marks.set j .active j.isLt) ((j, F.targets j) :: path') := by
  have hkeep : ∀ k : Fin F.size, marks.get k = .done →
      (marks.set j .active j.isLt).get k = .done := by
    intro k hk
    exact done_set marks j .active (by simp [hj]) hk
  have hback : ∀ k : Fin F.size, (marks.set j .active j.isLt).get k = .done →
      marks.get k = .done := by
    intro k hk
    by_cases hkj : k = j
    · rw [hkj, mark_set_self] at hk
      cases hk
    · rwa [mark_set_of_ne marks j .active hkj] at hk
  have hfresh : j ∉ path'.map Prod.fst := by
    rw [hfst, ← h.active_iff, hj]
    decide
  -- Done positions stay as they were, so only the path has to be looked at.
  refine ⟨?_, ?_, ?_, ?_, ?_⟩
  · intro k
    by_cases hkj : k = j
    · simp [hkj, mark_set_self]
    · rw [mark_set_of_ne marks j .active hkj, h.active_iff, ← hfst]
      simp [hkj]
  · rw [List.map_cons, List.nodup_cons, hfst]
    exact ⟨hfst ▸ hfresh, h.nodup⟩
  · refine ⟨fun k hk => (F.mem_targets_iff).1 hk, by simp, ?_, htrail.mono hkeep⟩
    intro k hk
    exact Or.inl (F.mem_targets_iff.2 hk)
  · intro k l hk hkl
    exact hkeep l (h.closed k l (hback k hk) hkl)
  · intro k hk
    exact h.acyclic k (hback k hk)

theorem enter (h : Searching marks ((i, j :: js) :: path)) (hj : marks.get j = .fresh) :
    Searching (marks.set j .active j.isLt) ((j, F.targets j) :: (i, js) :: path) := by
  rcases h.trail with ⟨hleft, _, hsettled, hrest⟩
  -- The target is no longer left to look at: it is where the path goes on.
  refine h.push hj rfl ⟨fun k hk => hleft k (by simp [hk]), ?_, ?_, hrest⟩
  · rintro k hk
    cases hk
    exact hleft j (by simp)
  · intro k hk
    rcases hsettled k hk with hmem | heq | hmark
    · rcases List.mem_cons.1 hmem with rfl | hmem
      · exact Or.inr (Or.inl rfl)
      · exact Or.inl hmem
    · cases heq
    · exact Or.inr (Or.inr hmark)

theorem start (h : Searching (F := F) marks []) (hi : marks.get i = .fresh) :
    Searching (marks.set i .active i.isLt) [(i, F.targets i)] :=
  h.push hi rfl trivial

theorem done_of_reaches (h : Searching marks path) {k : Fin F.size} (hj : marks.get j = .done)
    (hjk : F.Reaches j k) : marks.get k = .done := by
  induction hjk with
  | refl =>
      exact hj
  | tail _ hedge ih =>
      exact h.closed _ _ ih hedge

theorem done_of_ne_fresh (h : Searching (F := F) marks []) (hi : marks.get i ≠ .fresh) :
    marks.get i = .done := by
  cases hmark : marks.get i with
  | fresh =>
      exact absurd hmark hi
  | active =>
      simpa using (h.active_iff i).1 hmark
  | done =>
      rfl

/-- A position all of whose targets are done cannot come back to itself while it is active. -/
theorem finish (h : Searching marks ((i, []) :: path)) :
    Searching (marks.set i .done i.isLt) path := by
  have hactive : marks.get i = .active := (h.active_iff i).2 (by simp)
  have hkeep : ∀ k : Fin F.size, marks.get k = .done →
      (marks.set i .done i.isLt).get k = .done := by
    intro k hk
    exact done_set marks i .done (by simp [hactive]) hk
  -- Nothing is left to look at, and the path does not go on: all targets are done.
  have hdone : ∀ k, F.Edge i k → marks.get k = .done := by
    intro k hk
    rcases h.trail.2.2.1 k hk with hmem | heq | hmark
    · cases hmem
    · cases heq
    · exact hmark
  have hnodup : i ∉ path.map Prod.fst ∧ (path.map Prod.fst).Nodup := by
    simpa using h.nodup
  -- Everywhere else the marks are as before, so each part is about the position itself.
  refine ⟨?_, hnodup.2, ?_, ?_, ?_⟩
  · intro k
    by_cases hki : k = i
    · rw [hki, mark_set_self]
      simpa using hnodup.1
    · rw [mark_set_of_ne marks i .done hki, h.active_iff]
      simp [hki]
  · exact h.trail.2.2.2.back (mark_set_self marks i .done) hkeep
  · intro k l hk hkl
    by_cases hki : k = i
    · exact hkeep l (hdone l (hki ▸ hkl))
    · rw [mark_set_of_ne marks i .done hki] at hk
      exact hkeep l (h.closed k l hk hkl)
  · intro k hk
    by_cases hki : k = i
    · rw [hki]
      intro hcycle
      -- A cycle would go through a done position, and come back to an active one.
      rcases Relation.TransGen.head'_iff.1 hcycle with ⟨l, hil, hli⟩
      have hi : marks.get i = .done := h.done_of_reaches (hdone l hil) hli
      rw [hactive] at hi
      cases hi
    · rw [mark_set_of_ne marks i .done hki] at hk
      exact h.acyclic k hk

end Searching

/-! ## The search -/

/-- A cycle, or marks with an empty path on which nothing that was seen is fresh again. -/
def Descended (marks : Vector Mark F.size) : Except (Fin F.size) (Vector Mark F.size) → Prop
  | .error j => F.OnCycle j
  | .ok marks' =>
    Searching marks' [] ∧ ∀ i : Fin F.size, marks.get i ≠ .fresh → marks'.get i ≠ .fresh

theorem Descended.of_seen {marks' : Vector Mark F.size}
    {r : Except (Fin F.size) (Vector Mark F.size)} (h : Descended marks' r)
    (hseen : ∀ i : Fin F.size, marks.get i ≠ .fresh → marks'.get i ≠ .fresh) :
    Descended marks r := by
  cases r with
  | error j =>
      exact h
  | ok last =>
      exact ⟨h.1, fun i hi => h.2 i (hseen i hi)⟩

theorem seen_set {m : Mark} (hm : m ≠ .fresh) (i j : Fin F.size) (hj : marks.get j ≠ .fresh) :
    (marks.set i m i.isLt).get j ≠ .fresh := by
  by_cases hji : j = i
  · rw [hji, mark_set_self]
    exact hm
  · rwa [mark_set_of_ne marks i m hji]

theorem searching_descend {path : List F.Frame} (h : Searching marks path) :
    Descended marks (F.descend marks path) := by
  -- One case for each equation of the search, and for each of them the step of the invariant.
  fun_induction F.descend marks path with
  | case1 marks =>
      exact ⟨h, fun _ hi => hi⟩
  | case2 marks i path ih =>
      exact (ih h.finish).of_seen (seen_set (by decide) i)
  | case3 marks i j js path hj =>
      exact h.onCycle hj
  | case4 marks i j js path hj ih =>
      exact ih (h.skip hj)
  | case5 marks i j js path hj ih =>
      exact (ih (h.enter hj)).of_seen (seen_set (by decide) j)

theorem searching_init : Searching (F := F) (Vector.replicate F.size .fresh) [] := by
  have hfresh : ∀ i : Fin F.size, (Vector.replicate F.size Mark.fresh).get i = .fresh := by
    intro i
    exact mark_replicate i Mark.fresh
  refine ⟨?_, List.nodup_nil, trivial, ?_, ?_⟩
  · intro i
    rw [hfresh]
    simp
  · intro i j hi
    rw [hfresh] at hi
    cases hi
  · intro i hi
    rw [hfresh] at hi
    cases hi

theorem searchCycle_cons_of_fresh {i : Fin F.size} (h : marks.get i = .fresh)
    (rest : List (Fin F.size)) :
    F.searchCycle marks (i :: rest) =
      match F.descend (marks.set i .active i.isLt) [(i, F.targets i)] with
      | .error j => some j
      | .ok marks' => F.searchCycle marks' rest :=
  if_pos h

theorem searchCycle_cons_of_ne_fresh {i : Fin F.size} (h : marks.get i ≠ .fresh)
    (rest : List (Fin F.size)) : F.searchCycle marks (i :: rest) = F.searchCycle marks rest :=
  if_neg h

/-- A search that finds nothing has seen every position it was given, and none is on a cycle. -/
theorem searchCycle_eq_none (h : Searching marks []) {is : List (Fin F.size)}
    (hnone : F.searchCycle marks is = none) : ∀ i ∈ is, ¬ F.OnCycle i := by
  induction is generalizing marks with
  | nil =>
      simp
  | cons i rest ih =>
      -- With an empty path a position is fresh or done.
      by_cases hfresh : marks.get i = .fresh
      · rw [searchCycle_cons_of_fresh hfresh] at hnone
        have hdescended := searching_descend (h.start hfresh)
        cases hresult : F.descend (marks.set i .active i.isLt) [(i, F.targets i)] with
        | error j =>
            rw [hresult] at hnone
            cases hnone
        | ok marks' =>
            rw [hresult] at hnone hdescended
            rcases hdescended with ⟨h', hseen⟩
            have hi : marks'.get i ≠ .fresh := hseen i (by simp [mark_set_self])
            have hdone : marks'.get i = .done := h'.done_of_ne_fresh hi
            intro k hk
            rcases List.mem_cons.1 hk with rfl | hk
            · exact h'.acyclic k hdone
            · exact ih h' hnone k hk
      · rw [searchCycle_cons_of_ne_fresh hfresh] at hnone
        intro k hk
        rcases List.mem_cons.1 hk with rfl | hk
        · exact h.acyclic k (h.done_of_ne_fresh hfresh)
        · exact ih h hnone k hk

theorem onCycle_of_searchCycle (h : Searching marks []) {is : List (Fin F.size)} {j : Fin F.size}
    (hsome : F.searchCycle marks is = some j) : F.OnCycle j := by
  induction is generalizing marks with
  | nil =>
      cases hsome
  | cons i rest ih =>
      by_cases hfresh : marks.get i = .fresh
      · rw [searchCycle_cons_of_fresh hfresh] at hsome
        have hdescended := searching_descend (h.start hfresh)
        cases hresult : F.descend (marks.set i .active i.isLt) [(i, F.targets i)] with
        | error k =>
            rw [hresult] at hsome hdescended
            cases hsome
            exact hdescended
        | ok marks' =>
            rw [hresult] at hsome hdescended
            exact ih hdescended.1 hsome
      · rw [searchCycle_cons_of_ne_fresh hfresh] at hsome
        exact ih h hsome

/-! ## The cycle of a forest -/

theorem onCycle_of_findCycle? {id : NodeId} (h : F.findCycle? = some id) :
    ∃ i, F.idAt i = id ∧ F.OnCycle i := by
  rcases Option.map_eq_some_iff.1 h with ⟨i, hi, hid⟩
  exact ⟨i, hid, onCycle_of_searchCycle searching_init hi⟩

theorem findCycle?_eq_none_iff : F.findCycle? = none ↔ ∀ i, ¬ F.OnCycle i := by
  constructor
  · intro h i
    exact searchCycle_eq_none searching_init (Option.map_eq_none_iff.1 h) i (List.mem_finRange i)
  · intro h
    cases hresult : F.findCycle? with
    | none =>
        rfl
    | some id =>
        rcases onCycle_of_findCycle? hresult with ⟨i, _, hi⟩
        exact absurd hi (h i)

/-- Refusing cycles changes the result only where there is one. -/
theorem ofScan_rejectCycles (checkHeader : Bool) (s : Model.Scan) :
    ofScan { rejectCycles := true, checkHeader } s =
      (ofScan { rejectCycles := false, checkHeader } s).bind fun F =>
        match F.findCycle? with
        | some id => .error (.cyclic id)
        | none => .ok F := by
  unfold ofScan
  cases s.error? with
  | some e =>
      rfl
  | none =>
      cases ofCatalog (Catalog.ofList s.definitions) with
      | error e =>
          rfl
      | ok F =>
          rfl

/--
The search names a position on a cycle, and it names one whenever there is a cycle, wherever the
root leads. A loader that refuses cycles fails with that name where another one gives a forest with
a cycle, and otherwise gives the same result.
-/
theorem findCycle?_exact :
    (∀ F : Forest,
      (∀ id, F.findCycle? = some id → ∃ i, F.idAt i = id ∧ F.OnCycle i) ∧
        (F.findCycle?.isSome = true ↔ ∃ i, F.OnCycle i)) ∧
    ∀ (checkHeader : Bool) (stream : List UInt8),
      (load { rejectCycles := true, checkHeader } stream).result =
        match (load { rejectCycles := false, checkHeader } stream).result with
        | .error e => .error e
        | .ok F =>
          match F.findCycle? with
          | some id => .error (.model (.cyclic id))
          | none => .ok F := by
  constructor
  · intro F
    refine ⟨fun id hid => onCycle_of_findCycle? hid, ?_⟩
    rw [Option.isSome_iff_ne_none, ne_eq, findCycle?_eq_none_iff]
    simp
  · intro checkHeader stream
    rw [load_result, load_result]
    cases Text.lines stream with
    | nil =>
        rfl
    | cons header body =>
        simp only [ofScan_rejectCycles]
        cases ofScan { rejectCycles := false, checkHeader } (Model.scan 2 body) with
        | error e =>
            rfl
        | ok F =>
            simp only [Except.bind, Except.mapError]
            cases F.findCycle? <;> rfl

end Forest
end DecisionForest

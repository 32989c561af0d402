import DecisionForest.Proofs.Forest.Cycle
import DecisionForest.Proofs.Forest.Evaluation

/-!
# How deep a walk goes

Scoring a position asks for the scores of the positions that its branches go on at for the row, and
these ask for further ones. The positions asked for inside one another form a chain; a row whose
chains stay clear of cycles never asks for a position inside itself, so its chains are no longer than
the forest is large.

- `Forest.Follows` is one step of such a chain, `Forest.Nested` a chain of them,
- `Forest.MeetsCycle` says that a chain gets to a position that comes back to itself,
- `Forest.exists_walk_eq_iff` says that a depth is enough for a walk exactly if no chain is longer,
- `Forest.score_ends` is what follows for the score of a row.
-/

namespace DecisionForest
namespace Forest

variable {F : Forest} {add : Float → Float → Float} {present : FeatureId → Bool}

/-! ## Chains of walks -/

/-- Some branch of `i` goes on at `j` for a row with the given features. -/
def Follows (F : Forest) (present : FeatureId → Bool) (i j : Fin F.size) : Prop :=
  ∃ b ∈ (F.node i).branches, b.follow (present b.feature) = j

/-- The positions below `i` on a chain of walks inside one another, the outermost first. -/
def Nested (F : Forest) (present : FeatureId → Bool) (i : Fin F.size) (below : List (Fin F.size)) :
    Prop :=
  (i :: below).IsChain (F.Follows present)

/-- The walk from `i` gets to a position that comes back to itself for the row. -/
def MeetsCycle (F : Forest) (present : FeatureId → Bool) (i : Fin F.size) : Prop :=
  ∃ j, Relation.ReflTransGen (F.Follows present) i j ∧ Relation.TransGen (F.Follows present) j j

variable {i j : Fin F.size} {below : List (Fin F.size)}

theorem nested_nil (i : Fin F.size) : F.Nested present i [] :=
  List.isChain_singleton i

theorem nested_cons_iff :
    F.Nested present i (j :: below) ↔ F.Follows present i j ∧ F.Nested present j below :=
  List.isChain_cons_cons

theorem edge_of_follows (h : F.Follows present i j) : F.Edge i j := by
  obtain ⟨b, hb, rfl⟩ := h
  refine ⟨b, hb, ?_⟩
  cases present b.feature with
  | false =>
      exact Or.inr rfl
  | true =>
      exact Or.inl rfl

/-- A row follows edges only, so where no position is on a cycle it meets none. -/
theorem not_meetsCycle_of_acyclic (h : ∀ k, ¬ F.OnCycle k) (i : Fin F.size) :
    ¬ F.MeetsCycle present i := by
  rintro ⟨j, _, hcycle⟩
  have honCycle : F.OnCycle j :=
    Relation.TransGen.mono (fun _ _ => edge_of_follows) j j hcycle
  exact h j honCycle

/-- A step by the ids of the nodes. -/
theorem follows_iff_record :
    F.Follows present i j ↔
      ∃ b ∈ (F.record i).branches, b.follow (present b.feature) = F.idAt j := by
  have hbranches : (F.record i).branches = (F.node i).branches.map (Branch.map F.idAt) := rfl
  rw [hbranches]
  constructor
  · rintro ⟨b, hb, rfl⟩
    exact ⟨b.map F.idAt, List.mem_map_of_mem hb, Branch.follow_map F.idAt b _⟩
  · rintro ⟨_, hb', htarget⟩
    obtain ⟨b, hb, rfl⟩ := List.mem_map.1 hb'
    rw [Branch.follow_map] at htarget
    exact ⟨b, hb, F.idAt_injective htarget⟩

/-! ## Chains without a cycle -/

theorem transGen_of_nested (h : F.Nested present i below) :
    ∀ k ∈ below, Relation.TransGen (F.Follows present) i k := by
  induction below generalizing i with
  | nil =>
      simp
  | cons j below ih =>
      obtain ⟨hstep, hrest⟩ := nested_cons_iff.1 h
      intro k hk
      rcases List.mem_cons.1 hk with rfl | hk
      · exact .single hstep
      · exact .head hstep (ih hrest k hk)

theorem not_meetsCycle_of_follows (h : ¬ F.MeetsCycle present i) (hstep : F.Follows present i j) :
    ¬ F.MeetsCycle present j := by
  rintro ⟨k, hreach, hcycle⟩
  exact h ⟨k, .head hstep hreach, hcycle⟩

/-- A chain that comes twice to one position has gone around a cycle. -/
theorem nodup_of_nested (hcycle : ¬ F.MeetsCycle present i) (h : F.Nested present i below) :
    (i :: below).Nodup := by
  induction below generalizing i with
  | nil =>
      exact List.nodup_singleton i
  | cons j below ih =>
      have hstep : F.Follows present i j := (nested_cons_iff.1 h).1
      have hrest : (j :: below).Nodup :=
        ih (not_meetsCycle_of_follows hcycle hstep) (nested_cons_iff.1 h).2
      have hfresh : i ∉ j :: below := by
        intro hmem
        exact hcycle ⟨i, .refl, transGen_of_nested h i hmem⟩
      exact List.nodup_cons.2 ⟨hfresh, hrest⟩

/-! ## Chains into a cycle -/

/-- A walk that meets a cycle goes on to another one that does. -/
theorem exists_follows_of_meetsCycle (h : F.MeetsCycle present i) :
    ∃ j, F.Follows present i j ∧ F.MeetsCycle present j := by
  obtain ⟨k, hreach, hcycle⟩ := h
  rcases Relation.ReflTransGen.cases_head hreach with rfl | ⟨j, hstep, hrest⟩
  · -- The position itself is on the cycle, and so is the next one around it.
    obtain ⟨j, hstep, hback⟩ := Relation.TransGen.head'_iff.1 hcycle
    exact ⟨j, hstep, j, .refl, .tail' hback hstep⟩
  · exact ⟨j, hstep, k, hrest, hcycle⟩

/-- Into a cycle there are chains of every length. -/
theorem exists_nested_of_meetsCycle (n : Nat) (h : F.MeetsCycle present i) :
    ∃ below, F.Nested present i below ∧ below.length = n := by
  induction n generalizing i with
  | zero =>
      exact ⟨[], nested_nil i, rfl⟩
  | succ n ih =>
      obtain ⟨j, hstep, hnext⟩ := exists_follows_of_meetsCycle h
      obtain ⟨below, hchain, hlength⟩ := ih hnext
      exact ⟨j :: below, nested_cons_iff.2 ⟨hstep, hchain⟩, congrArg (· + 1) hlength⟩

/-! ## Depth -/

theorem exists_walkBranches_eq_iff {depth : Nat} {bs : List (Branch (Fin F.size))} {sum : Float} :
    (∃ total, F.walkBranches add present depth bs sum = some total) ↔
      ∀ b ∈ bs, ∃ value, F.walk add present depth (b.follow (present b.feature)) = some value := by
  induction bs generalizing sum with
  | nil =>
      simp [walkBranches_nil]
  | cons b bs ih =>
      simp only [walkBranches_cons_eq_some_iff, List.forall_mem_cons]
      constructor
      · rintro ⟨total, value, hvalue, hrest⟩
        exact ⟨⟨value, hvalue⟩, ih.1 ⟨total, hrest⟩⟩
      · rintro ⟨⟨value, hvalue⟩, hrest⟩
        -- Whether the rest comes to an end does not depend on the sum so far.
        have hmore : ∃ total, F.walkBranches add present depth bs (add sum value) = some total :=
          ih.2 hrest
        obtain ⟨total, htotal⟩ := hmore
        exact ⟨total, value, hvalue, htotal⟩

/-- A walk has a value at some depth exactly if no chain of walks below it is deeper. -/
theorem exists_walk_eq_iff {depth : Nat} :
    (∃ value, F.walk add present depth i = some value) ↔
      ∀ below, F.Nested present i below → (i :: below).length ≤ depth := by
  -- On the depth: a chain is its first position, and then a chain one level further down.
  induction depth generalizing i with
  | zero =>
      constructor
      · rintro ⟨value, hvalue⟩
        cases hvalue
      · intro h
        exact absurd (h [] (nested_nil i)) (Nat.not_succ_le_zero 0)
  | succ depth ih =>
      simp only [walk_succ, exists_walkBranches_eq_iff, ih]
      constructor
      · intro h below hchain
        cases below with
        | nil =>
            exact Nat.succ_le_succ (Nat.zero_le depth)
        | cons j below =>
            obtain ⟨⟨b, hb, rfl⟩, hrest⟩ := nested_cons_iff.1 hchain
            exact Nat.succ_le_succ (h b hb below hrest)
      · intro h b hb below hchain
        have hlonger : F.Nested present i (b.follow (present b.feature) :: below) :=
          nested_cons_iff.2 ⟨⟨b, hb, rfl⟩, hchain⟩
        exact Nat.le_of_succ_le_succ (h _ hlonger)

theorem exists_walk_size_iff :
    (∃ value, F.walk add present F.size i = some value) ↔ ¬ F.MeetsCycle present i := by
  rw [exists_walk_eq_iff]
  constructor
  · intro hbound hcycle
    -- A chain with as many positions below its first as there are in all is too long.
    obtain ⟨below, hchain, hlength⟩ := exists_nested_of_meetsCycle F.size hcycle
    have hle : below.length + 1 ≤ F.size := hbound below hchain
    omega
  · intro hcycle below hchain
    exact length_le_size (nodup_of_nested hcycle hchain)

/-! ## The score of a row -/

theorem exists_scoreWith_iff {features : Array FeatureId} :
    (∃ value, F.scoreWith add features = some value) ↔
      ¬ F.MeetsCycle (Features.contains features) F.root :=
  exists_walk_size_iff

theorem exists_score_iff {features : Array FeatureId} :
    (∃ value, F.score features = .ok value) ↔
      ¬ F.MeetsCycle (Features.contains features) F.root := by
  simp only [score, required_eq_ok_iff]
  exact exists_scoreWith_iff

theorem findCycle?_of_load {checkHeader : Bool} {stream : List UInt8}
    (h : (load { rejectCycles := true, checkHeader } stream).result = .ok F) :
    F.findCycle? = none :=
  (load_eq_ok_iff.1 h).2.2

/--
A row has a score, for any way to add, exactly if it meets no cycle on its way from the root, be it
in order or not. The walks that its score takes are then never inside a walk of the same position,
and no more of them are inside one another than the forest has nodes; a walk has a value at a depth
exactly if so many suffice. Where the search finds no cycle no row meets one, and it finds none in a
forest of a loader that refuses cycles.
-/
theorem score_ends :
    (∀ (F : Forest) (features : Array FeatureId),
      ((∃ value, F.score features = .ok value) ↔
        ¬ F.MeetsCycle (Features.contains features) F.root) ∧
      (¬ F.MeetsCycle (Features.contains features) F.root →
        (∀ add, ∃ value, F.scoreWith add features = some value) ∧
          ∀ below, F.Nested (Features.contains features) F.root below →
            (F.root :: below).Nodup ∧ (F.root :: below).length ≤ F.size) ∧
      (∀ add depth,
        (∃ value, F.walk add (Features.contains features) depth F.root = some value) ↔
          ∀ below, F.Nested (Features.contains features) F.root below →
            (F.root :: below).length ≤ depth) ∧
      (F.findCycle? = none → ¬ F.MeetsCycle (Features.contains features) F.root)) ∧
    ∀ (checkHeader : Bool) (stream : List UInt8) (F : Forest),
      (load { rejectCycles := true, checkHeader } stream).result = .ok F → F.findCycle? = none := by
  refine ⟨fun F features => ⟨exists_score_iff, ?_, fun add depth => exists_walk_eq_iff, ?_⟩,
    fun _ _ _ => findCycle?_of_load⟩
  · intro hcycle
    refine ⟨fun add => exists_scoreWith_iff.2 hcycle, ?_⟩
    intro below hchain
    have hnodup : (F.root :: below).Nodup := nodup_of_nested hcycle hchain
    exact ⟨hnodup, length_le_size hnodup⟩
  · intro hnone
    exact not_meetsCycle_of_acyclic (findCycle?_eq_none_iff.1 hnone) F.root

/-! ### A cycle that a row stays clear of -/

/-- Node 1 goes on at itself for a row with feature 5, and at node 2 for any other row. -/
def guardedLoop : List UInt8 :=
  Utf8.encode "dtree\n1\t0.5\t5:1:2\n2\t1\t\n"

theorem definitions_guardedLoop :
    Model.definitions guardedLoop = [⟨2, ⟨1, 0.5, [⟨5, 1, 2⟩]⟩⟩, ⟨3, ⟨2, 1, []⟩⟩] := by
  decide +kernel

theorem score_ends_guardedLoop :
    ∃ F, (load {} guardedLoop).result = .ok F ∧ F.OnCycle F.root ∧
      (∃ value, F.score #[] = .ok value) ∧
      ∀ below, F.Nested (Features.contains #[]) F.root below →
        (F.root :: below).Nodup ∧ (F.root :: below).length ≤ F.size := by
  have hload : (load {} guardedLoop).result.isOk = true := by
    decide +kernel
  obtain ⟨F, hF⟩ := exists_eq_ok hload
  have hroot : F.idAt F.root = 1 := by
    have hfirst := idAt_root_of_load hF
    rw [definitions_guardedLoop] at hfirst
    exact (Option.some.inj hfirst).symm
  have hrecord : ∀ i d, latest? (Model.definitions guardedLoop) (F.idAt i) = some d →
      F.record i = d.node := by
    intro i d hd
    obtain ⟨d', hd', hnode⟩ := record_of_load hF i
    cases hd.symm.trans hd'
    exact hnode.symm
  have hfirst : F.record F.root = ⟨1, 0.5, [⟨5, 1, 2⟩]⟩ :=
    hrecord F.root _ (by rw [hroot, definitions_guardedLoop]; rfl)
  have hyes : F.OnCycle F.root := by
    have hstep : F.Follows (fun _ => true) F.root F.root :=
      follows_iff_record.2 ⟨⟨5, 1, 2⟩, by rw [hfirst]; simp, hroot.symm⟩
    exact .single (edge_of_follows hstep)
  have hno : ¬ F.MeetsCycle (Features.contains #[]) F.root := by
    intro hcycle
    obtain ⟨j, hstep, hcycle⟩ := exists_follows_of_meetsCycle hcycle
    obtain ⟨b, hb, hj⟩ := follows_iff_record.1 hstep
    rw [hfirst] at hb
    have habsent : Features.contains #[] 5 = false := by
      simp [Features.contains, Features.search]
    have hsecond : F.idAt j = 2 := by
      rw [← hj, List.mem_singleton.1 hb, habsent]
      rfl
    -- Node 2 has no branches to go on at.
    obtain ⟨k, hstep, _⟩ := exists_follows_of_meetsCycle hcycle
    obtain ⟨b, hb, _⟩ := follows_iff_record.1 hstep
    rw [hrecord j ⟨3, ⟨2, 1, []⟩⟩ (by rw [hsecond, definitions_guardedLoop]; rfl)] at hb
    cases hb
  obtain ⟨hscore, hends, _⟩ := score_ends.1 F #[]
  exact ⟨F, hF, hyes, hscore.2 hno, (hends hno).2⟩

end Forest
end DecisionForest

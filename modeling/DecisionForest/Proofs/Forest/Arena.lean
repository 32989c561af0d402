import DecisionForest.Forest.Score
import DecisionForest.Forest.Text
import DecisionForest.Proofs.Forest.Cycle
import DecisionForest.Proofs.Forest.Loaded
import DecisionForest.Proofs.Forest.Reachable

/-!
# Forests as plain data

The positions of a forest carry the proof that they are in range. Here they do not: an arena has
plain numbers for positions, a read or a write can be out of range, and one that is fails the whole
operation. Every operation on a forest is repeated on arenas in this way.

- `Arena` is the plain data, `Arena.WellFormed` what has to hold of it,
- `Arena.reachable?`, `Arena.findCycle?`, `Arena.walk` and `Arena.text?` are the operations with
  checked reads and writes,
- `Forest.arena` is the data of a forest, and `Forest.runs_arena` says that on it every checked
  operation succeeds and gives what the forest gives,
- `Forest.arena_of_load` is about the forests that are loaded.
-/

namespace DecisionForest

/-! ## Arenas -/

/-- Nodes by position, whose branches go on at numbers that need not be positions. -/
structure Arena where
  nodes : Array (Node Nat)
  index? : NodeId → Option Nat
  root : Nat

namespace Arena

variable (a : Arena)

/-- The nodes have distinct ids, the index has each of them at its position, the root comes first,
and branches go on at positions. -/
structure WellFormed : Prop where
  nonempty : 0 < a.nodes.size
  nodup : (a.nodes.toList.map Node.id).Nodup
  index_iff : ∀ id i, a.index? id = some i ↔ a.nodes[i]?.map Node.id = some id
  root_eq : a.root = 0
  targets_lt : ∀ n ∈ a.nodes, ∀ b ∈ n.branches, b.yes < a.nodes.size ∧ b.no < a.nodes.size

/-! ### Reads -/

def node? (i : Nat) : Option (Node Nat) :=
  a.nodes[i]?

def root? : Option (Node Nat) :=
  a.node? a.root

/-- The node of an id, if the id is in the index; the read can be out of range all the same. -/
def get? (id : NodeId) : Option (Option (Node Nat)) :=
  match a.index? id with
  | none => some none
  | some i => (a.node? i).map some

/-! ### Traversal -/

/-- Writing another mark over a mark leaves one fewer of the latter. -/
theorem count_set_lt {α : Type} [BEq α] [LawfulBEq α] {marks : Array α} {i : Nat} {m m' : α}
    (h : marks[i]? = some m) (hm : m' ≠ m) :
    (marks.setIfInBounds i m').count m < marks.count m := by
  rcases Array.getElem?_eq_some_iff.1 h with ⟨hi, hmark⟩
  have hpos : 0 < marks.count m := Array.count_pos_iff.2 (hmark ▸ Array.getElem_mem hi)
  have hne : (m' == m) = false := beq_false_of_ne hm
  rw [Array.setIfInBounds, dif_pos hi, Array.count_set hi, hmark, beq_self_eq_true, hne]
  exact Nat.sub_lt hpos Nat.one_pos

theorem count_set_le {α : Type} [BEq α] [LawfulBEq α] (marks : Array α) (i : Nat) {m m' : α}
    (hm : m' ≠ m) : (marks.setIfInBounds i m').count m ≤ marks.count m := by
  by_cases hi : i < marks.size
  · have hne : (m' == m) = false := beq_false_of_ne hm
    rw [Array.setIfInBounds, dif_pos hi, Array.count_set hi, hne]
    simp
  · rw [Array.setIfInBounds, dif_neg hi]

def preorder? (visited : Array Bool) : List Nat → Option (List Nat)
  | [] => some []
  | i :: stack =>
    match _h : visited[i]? with
    | none => none
    | some true => preorder? visited stack
    | some false =>
      (a.node? i).bind fun n =>
        (preorder? (visited.setIfInBounds i true) (n.targets ++ stack)).map (i :: ·)
termination_by stack => (visited.count false, stack.length)
decreasing_by
  · exact Prod.Lex.right _ (by simp)
  · exact Prod.Lex.left _ _ (count_set_lt _h (by decide))

section Preorder

variable {visited : Array Bool} {i : Nat} {stack : List Nat}

theorem preorder?_cons_of_visited (h : visited[i]? = some true) :
    a.preorder? visited (i :: stack) = a.preorder? visited stack := by
  rw [preorder?]
  split <;> simp_all

theorem preorder?_cons_of_new {n : Node Nat} (h : visited[i]? = some false)
    (hn : a.node? i = some n) :
    a.preorder? visited (i :: stack) =
      (a.preorder? (visited.setIfInBounds i true) (n.targets ++ stack)).map (i :: ·) := by
  rw [preorder?]
  split <;> simp_all

end Preorder

def reachable? : Option (List Nat) :=
  a.preorder? (Array.replicate a.nodes.size false) [a.root]

/-! ### Search for a cycle -/

/-- What is left to look at along a path. -/
def pending : List (Nat × List Nat) → Nat
  | [] => 0
  | (_, js) :: path => js.length + 1 + pending path

def descend? (marks : Array Mark) : List (Nat × List Nat) → Option (Except Nat (Array Mark))
  | [] => some (.ok marks)
  | (i, []) :: path =>
    if i < marks.size then descend? (marks.setIfInBounds i .done) path else none
  | (i, j :: js) :: path =>
    match _h : marks[j]? with
    | none => none
    | some .active => some (.error j)
    | some .done => descend? marks ((i, js) :: path)
    | some .fresh =>
      (a.node? j).bind fun n =>
        descend? (marks.setIfInBounds j .active) ((j, n.targets) :: (i, js) :: path)
termination_by path => (marks.count .fresh, pending path)
decreasing_by
  · have hkept : Mark.done ≠ .fresh := by decide
    rcases Nat.lt_or_eq_of_le (count_set_le marks i hkept) with hlt | heq
    · exact Prod.Lex.left _ _ hlt
    · rw [heq]
      exact Prod.Lex.right _ (by simp [pending])
  · exact Prod.Lex.right _ (by simp [pending])
  · exact Prod.Lex.left _ _ (count_set_lt _h (by decide))

section Descend

variable {marks : Array Mark} {i j : Nat} {js : List Nat} {path : List (Nat × List Nat)}

theorem descend?_of_active (h : marks[j]? = some .active) :
    a.descend? marks ((i, j :: js) :: path) = some (.error j) := by
  rw [descend?]
  split <;> simp_all

theorem descend?_of_done (h : marks[j]? = some .done) :
    a.descend? marks ((i, j :: js) :: path) = a.descend? marks ((i, js) :: path) := by
  rw [descend?]
  split <;> simp_all

theorem descend?_of_fresh {n : Node Nat} (h : marks[j]? = some .fresh) (hn : a.node? j = some n) :
    a.descend? marks ((i, j :: js) :: path) =
      a.descend? (marks.setIfInBounds j .active) ((j, n.targets) :: (i, js) :: path) := by
  rw [descend?]
  split <;> simp_all

end Descend

/-- The id of a node on a cycle, if there is one. -/
def searchCycle? (marks : Array Mark) : List Nat → Option (Option NodeId)
  | [] => some none
  | i :: rest => do
    let mark ← marks[i]?
    if mark = .fresh then
      let n ← a.node? i
      match ← a.descend? (marks.setIfInBounds i .active) [(i, n.targets)] with
      | .error j => (a.node? j).map fun n => some n.id
      | .ok marks => searchCycle? marks rest
    else searchCycle? marks rest

section SearchCycle

variable {marks : Array Mark} {i : Nat} {rest : List Nat}

theorem searchCycle?_of_fresh {n : Node Nat} (h : marks[i]? = some .fresh)
    (hn : a.node? i = some n) :
    a.searchCycle? marks (i :: rest) =
      (a.descend? (marks.setIfInBounds i .active) [(i, n.targets)]).bind fun
        | .error j => (a.node? j).map fun n => some n.id
        | .ok marks => a.searchCycle? marks rest := by
  rw [searchCycle?, h, hn]
  rfl

theorem searchCycle?_of_seen {m : Mark} (h : marks[i]? = some m) (hm : m ≠ .fresh) :
    a.searchCycle? marks (i :: rest) = a.searchCycle? marks rest := by
  rw [searchCycle?, h]
  exact if_neg hm

end SearchCycle

def findCycle? : Option (Option NodeId) :=
  a.searchCycle? (Array.replicate a.nodes.size .fresh) (List.range a.nodes.size)

/-! ### Scores -/

/-- Why a walk has no score. -/
inductive WalkFault where
  | range
  | depth
  deriving DecidableEq, Repr

def walk (add : Float → Float → Float) (present : FeatureId → Bool) :
    Nat → Nat → Except WalkFault Float
  | 0, _ => .error .depth
  | depth + 1, i =>
    match a.node? i with
    | none => .error .range
    | some n =>
      n.branches.foldlM
        (fun sum b => (walk add present depth (b.follow (present b.feature))).map (add sum)) n.base

/-! ### Text -/

def record? (i : Nat) : Option (Node NodeId) := do
  let n ← a.node? i
  let branches ← n.branches.mapM (Branch.mapM fun _ j => (a.node? j).map Node.id)
  pure { n with branches }

def text? : Option String := do
  let positions ← a.reachable?
  let records ← positions.mapM a.record?
  let lines := modelHeader.toList :: records.map NodeLine.write
  pure (String.ofList (lines.flatMap (· ++ ['\n'])))

end Arena

/-! ## The arena of a forest -/

namespace Forest

variable (F : Forest)

/-- The data of a forest without the bounds of its positions. -/
def arena : Arena where
  nodes := (F.nodes.map (Node.map Fin.val)).toArray
  index? := fun id => (F.indexOf? id).map Fin.val
  root := F.root.val

theorem size_arena : F.arena.nodes.size = F.size :=
  Vector.size_toArray _

theorem nodes_arena :
    F.arena.nodes.toList = (List.finRange F.size).map fun i => (F.node i).map Fin.val := by
  apply List.ext_getElem
  · rw [Array.length_toList, size_arena, List.length_map, List.length_finRange]
  · intro i _ _
    simp [arena, node]

theorem node?_arena (i : Fin F.size) : F.arena.node? i.val = some ((F.node i).map Fin.val) := by
  rw [Arena.node?, ← Array.getElem?_toList, nodes_arena]
  simp

theorem node?_arena_eq_some_iff {i : Nat} {n : Node Nat} :
    F.arena.node? i = some n ↔ ∃ j : Fin F.size, j.val = i ∧ (F.node j).map Fin.val = n := by
  constructor
  · intro h
    rcases Array.getElem?_eq_some_iff.1 h with ⟨hi, _⟩
    have hlt : i < F.size := by rwa [size_arena] at hi
    have hread := F.node?_arena ⟨i, hlt⟩
    rw [h] at hread
    exact ⟨⟨i, hlt⟩, rfl, (Option.some.inj hread).symm⟩
  · rintro ⟨j, rfl, rfl⟩
    exact F.node?_arena j

theorem targets_plain (i : Fin F.size) :
    ((F.node i).map Fin.val).targets = (F.targets i).map Fin.val :=
  Node.targets_map Fin.val (F.node i)

theorem root?_arena : F.arena.root? = some ((F.node F.root).map Fin.val) :=
  F.node?_arena F.root

theorem get?_arena (id : NodeId) :
    F.arena.get? id = some ((F.get? id).map (Node.map Fin.val)) := by
  unfold Arena.get? get?
  change (match (F.indexOf? id).map Fin.val with
    | none => some none
    | some i => (F.arena.node? i).map some) = _
  cases F.indexOf? id with
  | none =>
      rfl
  | some i =>
      simp only [Option.map_some, F.node?_arena]

/-! ### Marks -/

section Marks

variable {F} {α : Type} {marks : Vector α F.size} {i : Fin F.size} {m : α}

theorem getElem?_of_mark (h : marks.get i = m) : marks.toArray[i.val]? = some m := by
  rw [Vector.getElem?_toArray, Vector.getElem?_eq_getElem i.isLt]
  exact congrArg some h

theorem setIfInBounds_toArray :
    marks.toArray.setIfInBounds i.val m = (marks.set i m i.isLt).toArray := by
  rw [Vector.toArray_set, Array.setIfInBounds, dif_pos]

theorem replicate_arena (m : α) :
    Array.replicate F.arena.nodes.size m = (Vector.replicate F.size m).toArray := by
  rw [size_arena]
  rfl

end Marks

/-! ### The traversal -/

theorem preorder?_arena (visited : Vector Bool F.size) (stack : List (Fin F.size)) :
    F.arena.preorder? visited.toArray (stack.map Fin.val) =
      some ((F.preorderFrom visited stack).map Fin.val) := by
  -- One case for each equation of the traversal; in each the read is of a position.
  fun_induction F.preorderFrom visited stack with
  | case1 visited =>
      rw [List.map_nil, Arena.preorder?]
  | case2 visited i stack hi ih =>
      rw [List.map_cons, Arena.preorder?_cons_of_visited _ (getElem?_of_mark hi)]
      exact ih
  | case3 visited i stack hi ih =>
      have hnew : visited.get i = false := eq_false_of_ne_true hi
      rw [List.map_cons,
        Arena.preorder?_cons_of_new _ (getElem?_of_mark hnew) (F.node?_arena i), targets_plain,
        setIfInBounds_toArray, ← List.map_append, ih]
      rfl

theorem reachable?_arena : F.arena.reachable? = some (F.reachable.map Fin.val) := by
  rw [Arena.reachable?, replicate_arena]
  exact F.preorder?_arena _ [F.root]

/-! ### The search for a cycle -/

/-- A path with plain numbers for positions. -/
def plainPath (path : List F.Frame) : List (Nat × List Nat) :=
  path.map fun frame => (frame.1.val, frame.2.map Fin.val)

/-- What a descent comes to, with plain numbers for positions. -/
def plainDescent : Except (Fin F.size) (Vector Mark F.size) → Except Nat (Array Mark)
  | .error j => .error j.val
  | .ok marks => .ok marks.toArray

theorem descend?_arena (marks : Vector Mark F.size) (path : List F.Frame) :
    F.arena.descend? marks.toArray (F.plainPath path) =
      some (F.plainDescent (F.descend marks path)) := by
  fun_induction F.descend marks path with
  | case1 marks =>
      rw [plainPath, List.map_nil, Arena.descend?]
      rfl
  | case2 marks i path ih =>
      have hi : i.val < marks.toArray.size := by simp
      rw [plainPath, List.map_cons, List.map_nil, Arena.descend?, if_pos hi, setIfInBounds_toArray]
      exact ih
  | case3 marks i j js path hj =>
      exact Arena.descend?_of_active _ (getElem?_of_mark hj)
  | case4 marks i j js path hj ih =>
      exact (Arena.descend?_of_done _ (getElem?_of_mark hj)).trans ih
  | case5 marks i j js path hj ih =>
      refine (Arena.descend?_of_fresh _ (getElem?_of_mark hj) (F.node?_arena j)).trans ?_
      rw [targets_plain, setIfInBounds_toArray]
      exact ih

theorem searchCycle?_arena (marks : Vector Mark F.size) (is : List (Fin F.size)) :
    F.arena.searchCycle? marks.toArray (is.map Fin.val) =
      some ((F.searchCycle marks is).map F.idAt) := by
  induction is generalizing marks with
  | nil =>
      rfl
  | cons i rest ih =>
      rw [List.map_cons]
      by_cases hfresh : marks.get i = .fresh
      · have hdescend := F.descend?_arena (marks.set i .active i.isLt) [(i, F.targets i)]
        rw [searchCycle_cons_of_fresh hfresh,
          Arena.searchCycle?_of_fresh _ (getElem?_of_mark hfresh) (F.node?_arena i),
          setIfInBounds_toArray, targets_plain]
        refine (congrArg (Option.bind · _) hdescend).trans ?_
        cases F.descend (marks.set i .active i.isLt) [(i, F.targets i)] with
        | error j =>
            exact congrArg (Option.map fun n => some n.id) (F.node?_arena j)
        | ok marks' =>
            exact ih marks'
      · rw [searchCycle_cons_of_ne_fresh hfresh,
          Arena.searchCycle?_of_seen _ (getElem?_of_mark rfl) hfresh]
        exact ih marks

theorem findCycle?_arena : F.arena.findCycle? = some F.findCycle? := by
  have hpositions : List.range F.arena.nodes.size = (List.finRange F.size).map Fin.val := by
    rw [size_arena, List.map_coe_finRange_eq_range]
  rw [Arena.findCycle?, replicate_arena, hpositions]
  exact F.searchCycle?_arena _ _

/-! ### Scores -/

/-- A fold in which every step is required to have a value. -/
theorem foldlM_required {β : Type} (add : Float → Float → Float) (value? : β → Option Float)
    (bs : List β) (sum : Float) :
    bs.foldlM (fun sum b => (required Arena.WalkFault.depth (value? b)).map (add sum)) sum =
      required .depth (bs.foldlM (fun sum b => (value? b).map (add sum)) sum) := by
  induction bs generalizing sum with
  | nil =>
      rfl
  | cons b bs ih =>
      rw [List.foldlM_cons, List.foldlM_cons]
      cases value? b with
      | none =>
          rfl
      | some value =>
          exact ih (add sum value)

theorem walk_arena (add : Float → Float → Float) (present : FeatureId → Bool) (depth : Nat)
    (i : Fin F.size) :
    F.arena.walk add present depth i.val = required .depth (F.walk add present depth i) := by
  induction depth generalizing i with
  | zero =>
      rfl
  | succ depth ih =>
      rw [Arena.walk, F.node?_arena, Forest.walk, ← foldlM_required]
      change ((F.node i).branches.map (Branch.map Fin.val)).foldlM _ _ = _
      rw [List.foldlM_map]
      -- A branch goes on at a position, whatever the row.
      simp only [← ih, Branch.follow_map]
      rfl

/-! ### Text -/

theorem record?_arena (i : Fin F.size) : F.arena.record? i.val = some (F.record i) := by
  have hbranch : ∀ b : Branch (Fin F.size),
      (b.map Fin.val).mapM (fun _ j => (F.arena.node? j).map Node.id) = some (b.map F.idAt) := by
    intro b
    simp only [Branch.mapM, Branch.map, F.node?_arena]
    rfl
  have hbranches : ((F.node i).branches.map (Branch.map Fin.val)).mapM
      (Branch.mapM fun _ j => (F.arena.node? j).map Node.id) =
        some ((F.node i).branches.map (Branch.map F.idAt)) := by
    rw [List.mapM_map]
    simp only [Function.comp_def, hbranch]
    exact List.mapM_pure
  unfold Arena.record?
  rw [F.node?_arena]
  change Option.bind (((F.node i).branches.map (Branch.map Fin.val)).mapM _) _ = _
  rw [hbranches]
  rfl

theorem text?_arena : F.arena.text? = some F.text := by
  have hrecords : (F.reachable.map Fin.val).mapM F.arena.record? =
      some (F.reachable.map F.record) := by
    rw [List.mapM_map]
    simp only [Function.comp_def, F.record?_arena]
    exact List.mapM_pure
  unfold Arena.text?
  rw [reachable?_arena]
  simp only [Option.bind_eq_bind, Option.bind_some]
  rw [hrecords]
  simp only [Option.bind_some, List.map_map]
  rfl

/-! ## Loaded forests -/

/-- On an arena every checked operation succeeds, so that no access is out of range, and gives what
the forest gives. -/
structure Runs (F : Forest) (a : Arena) : Prop where
  root : a.root? = some ((F.node F.root).map Fin.val)
  node : ∀ i : Fin F.size, a.node? i.val = some ((F.node i).map Fin.val)
  get : ∀ id, a.get? id = some ((F.get? id).map (Node.map Fin.val))
  reachable : a.reachable? = some (F.reachable.map Fin.val)
  cycle : a.findCycle? = some F.findCycle?
  walk : ∀ add present depth (i : Fin F.size),
    a.walk add present depth i.val = required .depth (F.walk add present depth i)
  text : a.text? = some F.text

theorem runs_arena : Runs F F.arena where
  root := F.root?_arena
  node := F.node?_arena
  get := F.get?_arena
  reachable := F.reachable?_arena
  cycle := F.findCycle?_arena
  walk := F.walk_arena
  text := F.text?_arena

variable {F}

theorem exists_get?_iff {id : NodeId} : (∃ n, F.get? id = some n) ↔ id ∈ F.ids := by
  simp only [get?, Option.map_eq_some_iff, F.indexOf?_eq_some_iff, ids, List.mem_map]
  constructor
  · rintro ⟨_, i, hi, _⟩
    exact ⟨i, List.mem_finRange i, hi⟩
  · rintro ⟨i, _, hi⟩
    exact ⟨F.node i, i, hi, rfl⟩

theorem id_of_get? {id : NodeId} {n : Node (Fin F.size)} (h : F.get? id = some n) : n.id = id := by
  rcases Option.map_eq_some_iff.1 h with ⟨i, hi, rfl⟩
  exact F.indexOf?_eq_some_iff.1 hi

theorem wellFormed_arena (hroot : F.root.val = 0) : F.arena.WellFormed where
  nonempty := by
    rw [size_arena]
    exact Nat.zero_lt_of_lt F.root.isLt
  nodup := by
    rw [nodes_arena, List.map_map]
    exact (List.nodup_finRange F.size).map F.idAt_injective
  index_iff := by
    intro id i
    have hindex : F.arena.index? id = some i ↔ ∃ j, F.indexOf? id = some j ∧ j.val = i :=
      Option.map_eq_some_iff
    have hnode : F.arena.nodes[i]?.map Node.id = some id ↔
        ∃ n, F.arena.node? i = some n ∧ n.id = id := Option.map_eq_some_iff
    rw [hindex, hnode]
    simp only [F.indexOf?_eq_some_iff, F.node?_arena_eq_some_iff]
    constructor
    · rintro ⟨j, hj, rfl⟩
      exact ⟨_, ⟨j, rfl, rfl⟩, hj⟩
    · rintro ⟨_, ⟨j, rfl, rfl⟩, hj⟩
      exact ⟨j, hj, rfl⟩
  root_eq := hroot
  targets_lt := by
    intro n hn b hb
    rw [← Array.mem_toList_iff, nodes_arena] at hn
    rcases List.mem_map.1 hn with ⟨i, _, rfl⟩
    -- A branch with plain numbers has them from positions.
    rcases List.mem_map.1 hb with ⟨b, _, rfl⟩
    rw [size_arena]
    exact ⟨b.yes.isLt, b.no.isLt⟩

variable {o : LoadOptions} {stream : List UInt8}

/--
The data of a loaded forest is well formed; an id is found when some line defines it, and the node
found has that id. No operation reads or writes out of range, and the number of nodes that the root
does not reach is a true difference.
-/
theorem arena_of_load (h : (load o stream).result = .ok F) :
    F.arena.WellFormed ∧
      (∀ id, (∃ n, F.arena.get? id = some (some n)) ↔
        id ∈ (Model.definitions stream).map Definition.id) ∧
      (∀ id n, F.arena.get? id = some (some n) → n.id = id) ∧
      Runs F F.arena ∧
      F.size - F.reachable.length + F.reachable.length = F.size := by
  refine ⟨wellFormed_arena (root_of_load h), ?_, ?_, F.runs_arena,
    Nat.sub_add_cancel length_reachable_le⟩
  · intro id
    rw [F.get?_arena, ← List.mem_eraseDups, ← ids_of_load h, ← exists_get?_iff]
    simp only [Option.some.injEq, Option.map_eq_some_iff]
    constructor
    · rintro ⟨_, n, hn, _⟩
      exact ⟨n, hn⟩
    · rintro ⟨n, hn⟩
      exact ⟨_, n, hn, rfl⟩
  · intro id n hn
    rw [F.get?_arena] at hn
    rcases Option.map_eq_some_iff.1 (Option.some.inj hn) with ⟨m, hm, rfl⟩
    exact id_of_get? hm

theorem arena_of_load_rootRedefined :
    ∃ F, (load {} rootRedefined).result = .ok F ∧ F.arena.WellFormed ∧
      (∃ n, F.arena.get? 3 = some (some n)) ∧ ¬ ∃ n, F.arena.get? 9 = some (some n) := by
  have hload : (load {} rootRedefined).result.isOk = true := by
    decide +kernel
  have hids : (Model.definitions rootRedefined).map Definition.id = [1, 2, 1, 3] := by
    decide +kernel
  rcases exists_eq_ok hload with ⟨F, hF⟩
  rcases arena_of_load hF with ⟨hwell, hget, _⟩
  refine ⟨F, hF, hwell, ?_, ?_⟩
  · rw [hget, hids]
    decide
  · rw [hget, hids]
    decide

end Forest
end DecisionForest

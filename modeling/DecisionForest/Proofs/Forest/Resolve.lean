import DecisionForest.Forest.Load
import DecisionForest.Proofs.Model.Catalog
import DecisionForest.Proofs.Results

/-!
# Forests of catalogs

What resolving a catalog gives, and when it succeeds.

- `Forest.ids` lists the ids of a forest by position; a position is determined by its id,
- `Forest.resolve_eq_ok_iff` says which branches a definition resolves to,
- `Forest.exists_ofCatalog_iff` says that a catalog becomes a forest when it is not empty and its
  definitions name no id that it lacks,
- `Forest.records_of_ofCatalog` and `Forest.record_of_ofCatalog` say which forest that is,
- `Forest.ofCatalog_congr` says that nothing but the definitions matters,
- `Forest.exists_ofCatalog_of_distinct` is about definitions of distinct ids.
-/

namespace DecisionForest
namespace Forest

/-! ## Ids of a forest -/

section Ids

variable (F : Forest)

/-- The ids by position. -/
def ids : List NodeId :=
  (List.finRange F.size).map F.idAt

theorem ids_eq_map_records : F.ids = F.records.map Node.id := by
  rw [ids, records, List.map_map]
  rfl

theorem indexOf?_idAt (i : Fin F.size) : F.indexOf? (F.idAt i) = some i :=
  F.indexOf?_eq_some_iff.2 rfl

theorem idAt_injective : Function.Injective F.idAt := by
  intro i j h
  have hi : F.indexOf? (F.idAt i) = some i := F.indexOf?_idAt i
  rw [h, F.indexOf?_idAt j] at hi
  exact (Option.some.inj hi).symm

theorem getElem?_ids (i : Fin F.size) : F.ids[i.val]? = some (F.idAt i) := by
  simp [ids]

end Ids

/-! ## Resolving one definition -/

section Resolve

variable {c : Catalog} {d : Definition}

/-- A written branch and the same branch with positions for the ids that it names. -/
def Resolves (c : Catalog) (w : Branch NodeId) (b : Branch (Fin c.size)) : Prop :=
  w.feature = b.feature ∧ c.find? w.yes = some b.yes ∧ c.find? w.no = some b.no

theorem mapM_required_eq_ok_iff {fault : Side → NodeId → ModelError} {w : Branch NodeId}
    {b : Branch (Fin c.size)} :
    w.mapM (fun side id => required (fault side id) (c.find? id)) = .ok b ↔ Resolves c w b := by
  unfold Branch.mapM
  simp only [bind_eq_ok_iff, required_eq_ok_iff]
  constructor
  · rintro ⟨yes, hyes, no, hno, hpure⟩
    cases hpure
    exact ⟨rfl, hyes, hno⟩
  · rintro ⟨hfeature, hyes, hno⟩
    refine ⟨b.yes, hyes, b.no, hno, ?_⟩
    rw [hfeature]
    rfl

theorem resolve_eq_ok_iff {bs : List (Branch (Fin c.size))} :
    resolve c d = .ok bs ↔ List.Forall₂ (Resolves c) d.node.branches bs := by
  unfold resolve
  rw [mapM_eq_ok_iff]
  simp only [mapM_required_eq_ok_iff]

/-- Naming the positions again gives the branches as they were written. -/
theorem map_id_of_resolves {ws : List (Branch NodeId)} {bs : List (Branch (Fin c.size))}
    (h : List.Forall₂ (Resolves c) ws bs) :
    bs.map (Branch.map fun i => (c.entry i).id) = ws := by
  induction h with
  | nil =>
      rfl
  | @cons w b ws bs hwb _ ih =>
      rcases hwb with ⟨hfeature, hyes, hno⟩
      have hb : b.map (fun i => (c.entry i).id) = w := by
        cases w
        simp only [Branch.map, Branch.mk.injEq]
        exact ⟨hfeature.symm, c.find?_eq_some_iff.1 hyes, c.find?_eq_some_iff.1 hno⟩
      rw [List.map_cons, hb, ih]

theorem exists_resolve_iff :
    (∃ bs, resolve c d = .ok bs) ↔ ∀ id ∈ d.node.targets, id ∈ c.ids := by
  simp only [resolve_eq_ok_iff, Node.targets]
  induction d.node.branches with
  | nil =>
      simp
  | cons w ws ih =>
      constructor
      · rintro ⟨bs, hbs⟩ id hid
        cases hbs with
        | cons hwb hrest =>
            rcases hwb with ⟨_, hyes, hno⟩
            simp only [List.flatMap_cons, List.mem_append, Branch.targets, List.mem_cons,
              List.not_mem_nil, or_false] at hid
            rcases hid with (rfl | rfl) | hid
            · exact c.mem_ids_iff.2 ⟨_, hyes⟩
            · exact c.mem_ids_iff.2 ⟨_, hno⟩
            · exact ih.1 ⟨_, hrest⟩ id hid
      · intro hids
        -- Both targets are found, and so are those of the branches that follow.
        have hyes : w.yes ∈ c.ids := hids _ (by simp [Branch.targets])
        have hno : w.no ∈ c.ids := hids _ (by simp [Branch.targets])
        rcases c.mem_ids_iff.1 hyes with ⟨yes, hyes⟩
        rcases c.mem_ids_iff.1 hno with ⟨no, hno⟩
        rcases ih.2 fun id hid => hids id (by simp [hid]) with ⟨bs, hbs⟩
        exact ⟨⟨w.feature, yes, no⟩ :: bs, .cons ⟨rfl, hyes, hno⟩ hbs⟩

end Resolve

/-! ## Resolving a catalog -/

section Wired

variable (c : Catalog) (h : 0 < c.size)
variable (branches : Vector (List (Branch (Fin c.size))) c.size)

/-- The forest of a catalog with the given branches. -/
abbrev wired : Forest :=
  { size := c.size
    nodes := nodesOf c branches
    indexOf? := c.find?
    root := ⟨0, h⟩
    indexOf?_eq_some_iff := find?_eq_some_iff_nodesOf c branches }

theorem node_wired (i : Fin c.size) :
    (wired c h branches).node i = { (c.entry i).node with branches := branches.get i } := by
  change (nodesOf c branches)[i] = _
  rw [nodesOf, Fin.getElem_fin, Vector.getElem_ofFn]

theorem idAt_wired (i : Fin c.size) : (wired c h branches).idAt i = (c.entry i).id := by
  unfold idAt
  rw [node_wired]
  rfl

theorem record_wired (hbranches : ∀ i, resolve c (c.entry i) = .ok (branches.get i))
    (i : Fin c.size) : (wired c h branches).record i = (c.entry i).node := by
  have hids : (wired c h branches).idAt = fun i => (c.entry i).id :=
    funext (idAt_wired c h branches)
  have hwritten := map_id_of_resolves (resolve_eq_ok_iff.1 (hbranches i))
  unfold record
  rw [node_wired, hids]
  exact congrArg (fun bs => (⟨_, _, bs⟩ : Node NodeId)) hwritten

end Wired

variable {c : Catalog} {F : Forest}

theorem ofCatalog_eq_ok_iff :
    ofCatalog c = .ok F ↔
      ∃ (h : 0 < c.size) (branches : Vector (List (Branch (Fin c.size))) c.size),
        (∀ i, resolve c (c.entry i) = .ok (branches.get i)) ∧ F = wired c h branches := by
  unfold ofCatalog
  by_cases h : 0 < c.size
  · have hentry : ∀ i : Fin c.size, c.entries.toVector.get i = c.entry i := fun _ => rfl
    simp only [h, dite_true, exists_true_left, bind_eq_ok_iff, vector_mapM_eq_ok_iff, hentry]
    constructor
    · rintro ⟨branches, hbranches, hpure⟩
      cases hpure
      exact ⟨branches, hbranches, rfl⟩
    · rintro ⟨branches, hbranches, rfl⟩
      exact ⟨branches, hbranches, rfl⟩
  · simp [h]

theorem exists_ofCatalog_iff :
    (∃ F, ofCatalog c = .ok F) ↔
      0 < c.size ∧ ∀ d ∈ c.entries, ∀ id ∈ d.node.targets, id ∈ c.ids := by
  constructor
  · rintro ⟨F, hF⟩
    rcases ofCatalog_eq_ok_iff.1 hF with ⟨h, branches, hbranches, -⟩
    refine ⟨h, fun d hd => ?_⟩
    rcases Array.mem_iff_getElem.1 hd with ⟨i, hi, rfl⟩
    exact exists_resolve_iff.1 ⟨_, hbranches ⟨i, hi⟩⟩
  · rintro ⟨h, hids⟩
    have hresolve : ∀ i, ∃ bs, resolve c (c.entry i) = .ok bs := fun i =>
      exists_resolve_iff.2 (hids _ (Array.getElem_mem i.isLt))
    -- Every definition resolves, so there is a vector of what they resolve to.
    choose branches hbranches using hresolve
    have hget : ∀ i, (Vector.ofFn branches).get i = branches i :=
      fun i => Vector.getElem_ofFn i.isLt
    refine ⟨_, ofCatalog_eq_ok_iff.2 ⟨h, Vector.ofFn branches, fun i => ?_, rfl⟩⟩
    rw [hget]
    exact hbranches i

theorem root_of_ofCatalog (h : ofCatalog c = .ok F) : F.root.val = 0 := by
  rcases ofCatalog_eq_ok_iff.1 h with ⟨_, _, _, rfl⟩
  rfl

theorem records_of_ofCatalog (h : ofCatalog c = .ok F) :
    F.records = c.entries.toList.map Definition.node := by
  rcases ofCatalog_eq_ok_iff.1 h with ⟨hsize, branches, hbranches, rfl⟩
  apply List.ext_getElem
  · simp [records, wired]
  · intro i hi _
    have hlt : i < c.size := by
      simpa [records, wired] using hi
    simp only [records, List.getElem_map, List.getElem_finRange, Array.getElem_toList]
    exact record_wired c hsize branches hbranches ⟨i, hlt⟩

theorem ids_of_ofCatalog (h : ofCatalog c = .ok F) : F.ids = c.ids := by
  calc
    F.ids = F.records.map Node.id := F.ids_eq_map_records
    _ = (c.entries.toList.map Definition.node).map Node.id := by
        rw [records_of_ofCatalog h]
    _ = c.ids := by
        rw [List.map_map]
        rfl

/-- A node of the forest is the node that the catalog has for its id. -/
theorem record_of_ofCatalog (h : ofCatalog c = .ok F) (i : Fin F.size) :
    ∃ d, c.lookup (F.idAt i) = some d ∧ d.node = F.record i := by
  rcases ofCatalog_eq_ok_iff.1 h with ⟨hsize, branches, hbranches, rfl⟩
  refine ⟨c.entry i, ?_, (record_wired c hsize branches hbranches i).symm⟩
  rw [idAt_wired c hsize branches i]
  exact c.lookup_entry i

/-- Two catalogs with the same definitions become the same forest, or fail alike. -/
theorem ofCatalog_congr {c' : Catalog} (h : c.entries = c'.entries) :
    ofCatalog c = ofCatalog c' := by
  rcases c with ⟨entries, slots, hslots⟩
  rcases c' with ⟨entries', slots', hslots'⟩
  cases h
  -- The two catalogs may differ as trees, but not in what they find.
  have hfind : (Catalog.mk entries slots hslots).find? =
      (Catalog.mk entries slots' hslots').find? := by
    funext id
    ext i
    rw [Catalog.find?_eq_some_iff, Catalog.find?_eq_some_iff]
    rfl
  have hresolve : resolve ⟨entries, slots, hslots⟩ = resolve ⟨entries, slots', hslots'⟩ := by
    funext d
    unfold resolve
    rw [hfind]
  unfold ofCatalog
  rw [hresolve]
  simp only [hfind]
  rfl

/-! ## Definitions of distinct ids -/

section Distinct

variable {ds : List Definition}

/-- Definitions of distinct ids become nodes at the positions at which they stand. -/
theorem records_of_distinct (hdistinct : (ds.map Definition.id).Nodup)
    (h : ofCatalog (Catalog.ofList ds) = .ok F) : F.records = ds.map Definition.node := by
  rw [records_of_ofCatalog h, Catalog.entries_ofList_of_nodup hdistinct]

theorem mem_ids_ofList_iff {id : NodeId} :
    id ∈ (Catalog.ofList ds).ids ↔ id ∈ ds.map Definition.id := by
  rw [Catalog.ids_ofList, List.mem_eraseDups]

/-- They become a forest when there are some and they name no ids but their own. -/
theorem exists_ofCatalog_of_distinct (hdistinct : (ds.map Definition.id).Nodup) (hne : ds ≠ [])
    (hclosed : ∀ d ∈ ds, ∀ id ∈ d.node.targets, id ∈ ds.map Definition.id) :
    ∃ F, ofCatalog (Catalog.ofList ds) = .ok F ∧ F.records = ds.map Definition.node := by
  have hentries : (Catalog.ofList ds).entries.toList = ds :=
    Catalog.entries_ofList_of_nodup hdistinct
  have hpositive : 0 < (Catalog.ofList ds).size := by
    rw [Catalog.size, ← Array.length_toList, hentries]
    exact List.length_pos_of_ne_nil hne
  have hknown : ∀ d ∈ (Catalog.ofList ds).entries, ∀ id ∈ d.node.targets,
      id ∈ (Catalog.ofList ds).ids := by
    intro d hd id hid
    have hmem : d ∈ ds := hentries ▸ Array.mem_toList_iff.2 hd
    exact mem_ids_ofList_iff.2 (hclosed d hmem id hid)
  obtain ⟨F, hF⟩ := exists_ofCatalog_iff.2 ⟨hpositive, hknown⟩
  exact ⟨F, hF, records_of_distinct hdistinct hF⟩

end Distinct

end Forest
end DecisionForest

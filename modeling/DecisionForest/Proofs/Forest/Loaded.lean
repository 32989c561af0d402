import DecisionForest.Proofs.Forest.Resolve
import DecisionForest.Proofs.Model.Lines

/-!
# What a loaded forest holds

A stream loads when every node line is the line of a node, the latest definitions name no unknown
id, and the loader does not refuse the forest for a cycle (`Forest.load_eq_ok_iff`).

- `Forest.contents_of_load` says what is in the forest: the ids of the node lines by first
  appearance, for each id what its last line says, and the first id at the root,
- `Model.SameSurvivors` relates two streams that differ only in definitions that a later line
  supersedes; they load to one forest, or fail alike (`Forest.load_congr`).
-/

namespace DecisionForest

/-! ## Streams that differ in superseded definitions -/

namespace Model

/-- Two streams of node lines that define the same ids in the same order and agree on the last
definition of each. -/
structure SameSurvivors (stream stream' : List UInt8) : Prop where
  readable : Readable stream'
  ids : (definitions stream').map Definition.id = (definitions stream).map Definition.id
  latest : ∀ id, latest? (definitions stream') id = latest? (definitions stream) id

theorem nodeLines_eq {stream header : List UInt8} {body : List (List UInt8)}
    (h : Text.lines stream = header :: body) : nodeLines stream = upToBlank 2 body := by
  simp [nodeLines, h, List.zipIdx_cons]

theorem nodeLines_eq_nil {stream : List UInt8} (h : Text.lines stream = []) :
    nodeLines stream = [] := by
  simp [nodeLines, h]

/-- The loop reads what the node lines define. -/
theorem scan_of_readable {stream header : List UInt8} {body : List (List UInt8)}
    (hlines : Text.lines stream = header :: body) (h : Readable stream) :
    scan 2 body = { definitions := definitions stream, error? := none } := by
  have hnodes := nodeLines_eq hlines
  have herror : (scan 2 body).error? = none := by
    rw [scan_error?_eq_none_iff, ← hnodes]
    exact h
  have hdefinitions : (scan 2 body).definitions = definitions stream := by
    rw [scan_definitions 2 body herror, definitions, hnodes]
  rw [← hdefinitions, ← herror]

end Model

namespace Forest

variable {o : LoadOptions} {stream : List UInt8} {F : Forest}

/-! ## When a stream loads -/

theorem load_result (o : LoadOptions) (stream : List UInt8) :
    (load o stream).result = match Text.lines stream with
      | [] => .error (.model .empty)
      | _ :: body => (ofScan o (Model.scan 2 body)).mapError Error.model := by
  unfold load
  cases Text.lines stream with
  | nil =>
      rfl
  | cons header body =>
      simp only [Logged.result_bind, Logged.result_report, Logged.result_ofExcept]
      cases (ofScan o (Model.scan 2 body)).mapError Error.model <;> rfl

/-- What is reported of a stream that has lines. -/
theorem load_events (o : LoadOptions) {stream header : List UInt8} {body : List (List UInt8)}
    (hlines : Text.lines stream = header :: body) :
    (load o stream).events =
      headerEvents o header ++
        (Catalog.redefinitions .empty (Model.scan 2 body).definitions ++
          match ofScan o (Model.scan 2 body) with
          | .ok F => F.summaryEvents
          | .error _ => []) := by
  unfold load
  rw [hlines]
  simp only [Logged.events_bind, Logged.result_report, Logged.events_report,
    Logged.result_ofExcept, Logged.events_ofExcept]
  cases ofScan o (Model.scan 2 body) <;> simp [Except.mapError]

/-- The forest of a list of definitions, refused if a loader with these options has to. -/
def ofDefinitions (o : LoadOptions) (ds : List Definition) : Except ModelError Forest :=
  ofScan o { definitions := ds, error? := none }

theorem ofDefinitions_eq_ok_iff {ds : List Definition} :
    ofDefinitions o ds = .ok F ↔
      ofCatalog (Catalog.ofList ds) = .ok F ∧ F.rejectedCycle? o = none := by
  simp only [ofDefinitions, ofScan, bind_eq_ok_iff]
  constructor
  · rintro ⟨G, hG, hcycle⟩
    cases hrejected : G.rejectedCycle? o with
    | some id =>
        rw [hrejected] at hcycle
        cases hcycle
    | none =>
        rw [hrejected] at hcycle
        cases hcycle
        exact ⟨hG, hrejected⟩
  · rintro ⟨hF, hcycle⟩
    refine ⟨F, hF, ?_⟩
    rw [hcycle]
    rfl

theorem ofScan_of_readable {header : List UInt8} {body : List (List UInt8)}
    (hlines : Text.lines stream = header :: body) (h : Model.Readable stream) :
    ofScan o (Model.scan 2 body) = ofDefinitions o (Model.definitions stream) := by
  rw [Model.scan_of_readable hlines h, ofDefinitions]

theorem load_of_readable (h : Model.Readable stream) :
    (load o stream).result =
      (ofDefinitions o (Model.definitions stream)).mapError Error.model := by
  rw [load_result]
  split
  · rename_i hlines
    simp only [Model.definitions, Model.nodeLines_eq_nil hlines]
    rfl
  · rename_i hlines
    rw [ofScan_of_readable hlines h]

/-- A line that is not the line of a node ends the load. -/
theorem readable_of_load (h : (load o stream).result = .ok F) : Model.Readable stream := by
  rw [load_result] at h
  split at h
  · cases h
  · rename_i hlines
    rw [mapError_eq_ok_iff] at h
    unfold Model.Readable
    rw [Model.nodeLines_eq hlines, ← Model.scan_error?_eq_none_iff]
    unfold ofScan at h
    split at h
    · cases h
    · assumption

theorem load_eq_ok_iff :
    (load o stream).result = .ok F ↔
      Model.Readable stream ∧
        ofCatalog (Catalog.ofList (Model.definitions stream)) = .ok F ∧
        F.rejectedCycle? o = none := by
  constructor
  · intro h
    have hreadable := readable_of_load h
    rw [load_of_readable hreadable, mapError_eq_ok_iff, ofDefinitions_eq_ok_iff] at h
    exact ⟨hreadable, h⟩
  · rintro ⟨hreadable, h⟩
    rw [load_of_readable hreadable, mapError_eq_ok_iff, ofDefinitions_eq_ok_iff]
    exact h

/-- Superseded definitions have no effect. -/
theorem load_congr {stream' : List UInt8} (hreadable : Model.Readable stream)
    (h : Model.SameSurvivors stream stream') :
    (load o stream').result = (load o stream).result := by
  -- The two catalogs have the same entries, though they came about in different ways.
  have hentries : (Catalog.ofList (Model.definitions stream')).entries =
      (Catalog.ofList (Model.definitions stream)).entries := by
    apply Catalog.entries_congr
    · rw [Catalog.ids_ofList, Catalog.ids_ofList, h.ids]
    · intro id
      rw [Catalog.lookup_ofList, Catalog.lookup_ofList, h.latest]
  rw [load_of_readable hreadable, load_of_readable h.readable]
  simp only [ofDefinitions, ofScan, ofCatalog_congr hentries]

/-! ## The contents -/

theorem ids_of_load (h : (load o stream).result = .ok F) :
    F.ids = ((Model.definitions stream).map Definition.id).eraseDups := by
  rcases load_eq_ok_iff.1 h with ⟨_, hcatalog, _⟩
  rw [ids_of_ofCatalog hcatalog, Catalog.ids_ofList]

theorem record_of_load (h : (load o stream).result = .ok F) (i : Fin F.size) :
    ∃ d, latest? (Model.definitions stream) (F.idAt i) = some d ∧ d.node = F.record i := by
  rcases load_eq_ok_iff.1 h with ⟨_, hcatalog, _⟩
  rcases record_of_ofCatalog hcatalog i with ⟨d, hd, hnode⟩
  refine ⟨d, ?_, hnode⟩
  rw [← hd, Catalog.lookup_ofList]

theorem root_of_load (h : (load o stream).result = .ok F) : F.root.val = 0 :=
  root_of_ofCatalog (load_eq_ok_iff.1 h).2.1

/-- The first id stays the first one when repetitions are dropped. -/
theorem head?_eraseDups (ids : List NodeId) : ids.eraseDups.head? = ids.head? := by
  cases ids with
  | nil =>
      rfl
  | cons id rest =>
      simp [List.eraseDups_cons]

theorem idAt_root_of_load (h : (load o stream).result = .ok F) :
    (Model.definitions stream).head?.map Definition.id = some (F.idAt F.root) := by
  -- The root is at the first position, whose id is the first that appears.
  have hroot : F.ids.head? = some (F.idAt F.root) := by
    have hget := F.getElem?_ids F.root
    rw [root_of_load h] at hget
    rw [List.head?_eq_getElem?, hget]
  rw [← List.head?_map, ← head?_eraseDups, ← ids_of_load h, hroot]

/-- A written branch, and the branch of a forest at the positions of the ids that it names. -/
def PointsAt (F : Forest) (w : Branch NodeId) (b : Branch (Fin F.size)) : Prop :=
  b.feature = w.feature ∧ F.ids[b.yes.val]? = some w.yes ∧ F.ids[b.no.val]? = some w.no

theorem pointsAt_record (i : Fin F.size) :
    List.Forall₂ (PointsAt F) (F.record i).branches (F.node i).branches := by
  have hmap : (F.record i).branches = (F.node i).branches.map (Branch.map F.idAt) := rfl
  rw [hmap, List.forall₂_map_left_iff]
  apply List.forall₂_same.2
  intro b _
  exact ⟨rfl, F.getElem?_ids b.yes, F.getElem?_ids b.no⟩

/--
A forest that was loaded lists the ids of the node lines by first appearance, has for each id what
its last line says, with every branch at the positions of the ids written there, and has the first
id at the root. Another stream that differs in superseded definitions only loads to the same forest.
-/
theorem contents_of_load (h : (load o stream).result = .ok F) :
    Model.Readable stream ∧
      F.ids = ((Model.definitions stream).map Definition.id).eraseDups ∧
      (∀ i, ∃ d, latest? (Model.definitions stream) (F.idAt i) = some d ∧
        (F.node i).base = d.node.base ∧
        List.Forall₂ (PointsAt F) d.node.branches (F.node i).branches) ∧
      F.root.val = 0 ∧
      (Model.definitions stream).head?.map Definition.id = some (F.idAt F.root) ∧
      ∀ stream', Model.SameSurvivors stream stream' → (load o stream').result = .ok F := by
  have hreadable := readable_of_load h
  refine ⟨hreadable, ids_of_load h, ?_, root_of_load h, idAt_root_of_load h, ?_⟩
  · intro i
    rcases record_of_load h i with ⟨d, hd, hnode⟩
    refine ⟨d, hd, ?_, ?_⟩
    · rw [hnode]
      rfl
    · rw [hnode]
      exact pointsAt_record i
  · intro stream' hsame
    rw [load_congr hreadable hsame, h]

/-! ### A root that is defined twice -/

deriving instance DecidableEq for Node, Definition

/-- The first definition of node 1 names node 9, which is not defined; line 4 supersedes it. -/
def rootRedefined : List UInt8 :=
  Utf8.encode "dtree\n1\t0.5\t5:9:9\n2\t1\t\n1\t7\t5:3:2\n3\t-1\t\n"

/-- The same nodes, with a first definition of node 1 that names none. -/
def rootAmended : List UInt8 :=
  Utf8.encode "dtree\n1\t4\t\n2\t1\t\n1\t7\t5:3:2\n3\t-1\t\n"

theorem sameSurvivors_rootAmended : Model.SameSurvivors rootRedefined rootAmended := by
  have hload : (load {} rootAmended).result.isOk = true := by
    decide +kernel
  have hrest : Model.definitions rootRedefined =
      ⟨2, ⟨1, 0.5, [⟨5, 9, 9⟩]⟩⟩ :: (Model.definitions rootAmended).tail := by
    decide +kernel
  have hamended : Model.definitions rootAmended =
      [⟨2, ⟨1, 4, []⟩⟩, ⟨3, ⟨2, 1, []⟩⟩, ⟨4, ⟨1, 7, [⟨5, 3, 2⟩]⟩⟩, ⟨5, ⟨3, -1, []⟩⟩] := by
    decide +kernel
  rcases exists_eq_ok hload with ⟨F, hF⟩
  refine ⟨readable_of_load hF, ?_, ?_⟩
  · rw [hrest, hamended]
    rfl
  · intro id
    rw [hrest, hamended]
    -- Only lookups of node 1 pass over the line in which the streams differ.
    by_cases h : (1 : NodeId) = id <;> simp [latest?, Definition.id, List.find?_cons, h]

theorem contents_of_load_rootRedefined :
    ∃ F, (load {} rootRedefined).result = .ok F ∧ F.ids = [1, 2, 3] ∧ F.idAt F.root = 1 ∧
      (load {} rootAmended).result = .ok F := by
  have hload : (load {} rootRedefined).result.isOk = true := by
    decide +kernel
  have hfirst : (Model.definitions rootRedefined).head?.map Definition.id = some 1 := by
    decide +kernel
  rcases exists_eq_ok hload with ⟨F, hF⟩
  rcases contents_of_load hF with ⟨_, hids, _, _, hroot, hsame⟩
  refine ⟨F, hF, ?_, ?_, hsame _ sameSurvivors_rootAmended⟩
  · rw [hids]
    decide +kernel
  · rw [hfirst] at hroot
    exact (Option.some.inj hroot).symm

end Forest
end DecisionForest

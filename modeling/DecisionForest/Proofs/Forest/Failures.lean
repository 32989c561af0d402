import DecisionForest.Proofs.Forest.Cycle
import DecisionForest.Proofs.Forest.Loaded
import DecisionForest.Proofs.Model.Faults

/-!
# How a load ends

A load ends in one of five ways: there is no node line, a line holds no node, a reference is to an
unknown id, there is a cycle and cycles are refused, or there is a forest. Each way is tied to a
condition on the lines of the stream, and each condition presupposes that the ones before it fail.

- `Forest.resolve_eq_error_iff` and `Forest.ofCatalog_eq_error_iff` say which reference resolving
  stops at,
- `Forest.onCycle_iff_of_ofCatalog` finds the cycles of a forest among the ids of the stream,
- `Forest.Outcome` lists the ways with their conditions, `Forest.outcome_load` says that a load ends
  in one of them,
- `Forest.load_outcomes` has one equivalence for each way.
-/

namespace DecisionForest
namespace Forest

/-! ## References that cannot be resolved -/

section Resolve

variable {c : Catalog} {d : Definition} {e : ModelError}

/-- The yes side is looked up before the no side. -/
theorem mapM_required_eq_error_iff (fault : Side → NodeId → ModelError) (b : Branch NodeId) :
    b.mapM (fun side id => required (fault side id) (c.find? id)) = .error e ↔
      (([(.yes, b.yes), (.no, b.no)].filter fun r => r.2 ∉ c.ids).map fun r =>
        fault r.1 r.2).head? = some e := by
  unfold Branch.mapM
  by_cases hyes : b.yes ∈ c.ids
  · rcases c.mem_ids_iff.1 hyes with ⟨yes, hfound⟩
    by_cases hno : b.no ∈ c.ids
    · rcases c.mem_ids_iff.1 hno with ⟨no, hfound'⟩
      simp [hyes, hno, hfound, hfound', required, bind, Except.bind, pure, Except.pure]
    · have hmissing := c.find?_eq_none_iff.2 hno
      simp [hyes, hno, hfound, hmissing, required, bind, Except.bind]
  · have hmissing := c.find?_eq_none_iff.2 hyes
    simp [hyes, hmissing, required, bind, Except.bind]

theorem resolve_eq_error_iff :
    resolve c d = .error e ↔ (Model.unknownReferences c.ids d).head? = some e :=
  mapM_eq_error_iff_head? fun b _ =>
    mapM_required_eq_error_iff (fun side id => .dangling d.id id side d.line) b

theorem ofCatalog_eq_error_iff :
    ofCatalog c = .error e ↔
      c.size = 0 ∧ e = .empty ∨
        0 < c.size ∧ (c.entries.toList.flatMap (Model.unknownReferences c.ids)).head? = some e := by
  unfold ofCatalog
  by_cases h : 0 < c.size
  · have hentries : c.entries.toVector.toList = c.entries.toList := rfl
    have hresolve : c.entries.toVector.mapM (resolve c) = .error e ↔
        (c.entries.toList.flatMap (Model.unknownReferences c.ids)).head? = some e := by
      rw [vector_mapM_eq_error_iff, hentries]
      exact mapM_eq_error_iff_head? fun _ _ => resolve_eq_error_iff
    rw [← hresolve]
    have hsize : c.size ≠ 0 := Nat.ne_of_gt h
    cases c.entries.toVector.mapM (resolve c) <;>
      simp [h, hsize, bind, Except.bind, pure, Except.pure]
  · have hsize : c.size = 0 := Nat.eq_zero_of_not_pos h
    simp [hsize, eq_comm]

end Resolve

/-! ## Cycles among ids -/

section Cycles

variable {stream : List UInt8} {F : Forest}

theorem refers_idAt_iff (h : ofCatalog (Catalog.ofList (Model.definitions stream)) = .ok F)
    (i : Fin F.size) (id : NodeId) :
    Model.Refers stream (F.idAt i) id ↔ ∃ j, F.idAt j = id ∧ F.Edge i j := by
  rcases record_of_ofCatalog h i with ⟨d, hd, hnode⟩
  rw [Catalog.lookup_ofList] at hd
  have htargets : d.node.targets = (F.targets i).map F.idAt := by
    rw [hnode]
    exact Node.targets_map F.idAt (F.node i)
  unfold Model.Refers
  rw [hd]
  simp only [Option.some.injEq, exists_eq_left', htargets, List.mem_map, F.mem_targets_iff]
  constructor
  · rintro ⟨j, hij, hj⟩
    exact ⟨j, hj, hij⟩
  · rintro ⟨j, hj, hij⟩
    exact ⟨j, hij, hj⟩

/-- Only ids that stand in the forest lead anywhere. -/
theorem exists_idAt_of_refers (h : ofCatalog (Catalog.ofList (Model.definitions stream)) = .ok F)
    {a b : NodeId} (hab : Model.Refers stream a b) : ∃ i, F.idAt i = a := by
  rcases hab with ⟨d, hd, _⟩
  rw [← Catalog.lookup_ofList] at hd
  have hmem : a ∈ F.ids := by
    rw [ids_of_ofCatalog h, Catalog.mem_ids_iff]
    rcases Option.map_eq_some_iff.1 hd with ⟨i, hi, _⟩
    exact ⟨i, hi⟩
  rcases List.mem_map.1 hmem with ⟨i, _, hi⟩
  exact ⟨i, hi⟩

theorem onCycle_iff_of_ofCatalog
    (h : ofCatalog (Catalog.ofList (Model.definitions stream)) = .ok F) (id : NodeId) :
    Model.OnCycle stream id ↔ ∃ i, F.idAt i = id ∧ F.OnCycle i := by
  have hcycle : ∀ i, Model.OnCycle stream (F.idAt i) ↔ F.OnCycle i := fun i =>
    onCycle_iff (refers_idAt_iff h) F.idAt_injective
  constructor
  · intro hid
    -- The id leads to another one, so it stands in the forest.
    rcases Relation.TransGen.head'_iff.1 hid with ⟨b, hab, _⟩
    rcases exists_idAt_of_refers h hab with ⟨i, rfl⟩
    exact ⟨i, rfl, (hcycle i).1 hid⟩
  · rintro ⟨i, rfl, hi⟩
    exact (hcycle i).2 hi

end Cycles

/-! ## The ways in which a load ends -/

variable {o : LoadOptions} {stream : List UInt8} {e : ModelError}

/-- There are node lines, and nothing is wrong with them or with their references. -/
structure Resolvable (stream : List UInt8) : Prop where
  nodeLine : ¬ Model.NoNodeLine stream
  faultless : Model.Faultless stream
  resolved : Model.danglingReferences stream = []

theorem definitions_eq_nil_iff (h : Model.Faultless stream) :
    Model.definitions stream = [] ↔ Model.NoNodeLine stream := by
  rw [← Model.nodeLines_eq_nil_iff, Model.definitions, List.filterMap_eq_nil_iff]
  constructor
  · intro hnone
    by_contra hnodes
    rcases List.exists_mem_of_ne_nil _ hnodes with ⟨line, hline⟩
    -- The line holds a node, so it defines something.
    rcases Model.readable_iff.2 h line hline with ⟨d, hd⟩
    have hdefinition := hnone line hline
    rw [Model.definition?, hd] at hdefinition
    cases hdefinition
  · intro hnodes
    simp [hnodes]

theorem load_of_firstFault (h : FirstFault Model.Faulty (Model.nodeLines stream) e) :
    (load o stream).result = .error (.model e) := by
  rw [load_result]
  split
  · rename_i hlines
    rw [Model.nodeLines_eq_nil hlines] at h
    exact absurd h not_firstFault_nil
  · rename_i header body hlines
    rw [Model.nodeLines_eq hlines, ← Model.scan_error?_eq_some_iff] at h
    rw [ofScan, h]
    rfl

theorem size_ofList_eq_zero_iff (ds : List Definition) :
    (Catalog.ofList ds).size = 0 ↔ ds = [] := by
  have hlength : (Catalog.ofList ds).size = (ds.map Definition.id).eraseDups.length := by
    rw [← Catalog.ids_ofList, Catalog.ids, List.length_map, Array.length_toList]
  rw [hlength, List.length_eq_zero_iff]
  cases ds with
  | nil =>
      simp
  | cons d ds =>
      simp [List.eraseDups_cons]

/-- What a faultless stream fails with before there is a forest. -/
theorem ofCatalog_definitions_eq_error_iff (h : Model.Faultless stream) :
    ofCatalog (Catalog.ofList (Model.definitions stream)) = .error e ↔
      Model.NoNodeLine stream ∧ e = .empty ∨
        (Model.danglingReferences stream).head? = some e := by
  have hids : ∀ id, id ∈ (Catalog.ofList (Model.definitions stream)).ids ↔
      id ∈ (Model.definitions stream).map Definition.id := by
    intro id
    rw [Catalog.ids_ofList, List.mem_eraseDups]
  have hreferences : (Catalog.ofList (Model.definitions stream)).entries.toList.flatMap
      (Model.unknownReferences (Catalog.ofList (Model.definitions stream)).ids) =
        Model.danglingReferences stream := by
    rw [Model.danglingReferences, Model.survivors_eq,
      funext (Model.unknownReferences_congr hids)]
  rw [ofCatalog_eq_error_iff, hreferences, Nat.pos_iff_ne_zero, ne_eq, size_ofList_eq_zero_iff,
    definitions_eq_nil_iff h]
  -- Where there is a reference there is a node line.
  have hnodes : (Model.danglingReferences stream).head? = some e → ¬ Model.NoNodeLine stream := by
    intro hhead hnone
    rw [← definitions_eq_nil_iff h] at hnone
    rw [Model.danglingReferences, hnone] at hhead
    cases hhead
  constructor
  · rintro (hempty | ⟨_, hhead⟩)
    · exact Or.inl hempty
    · exact Or.inr hhead
  · rintro (hempty | hhead)
    · exact Or.inl hempty
    · exact Or.inr ⟨hnodes hhead, hhead⟩

/-! ### The load of a faultless stream -/

section Faultless

variable {F : Forest}

theorem load_of_ofCatalog_error (h : Model.Faultless stream)
    (hcatalog : ofCatalog (Catalog.ofList (Model.definitions stream)) = .error e) :
    (load o stream).result = .error (.model e) := by
  rw [load_of_readable (Model.readable_iff.2 h), ofDefinitions, ofScan, hcatalog]
  rfl

theorem load_of_ofCatalog_ok (h : Model.Faultless stream)
    (hcatalog : ofCatalog (Catalog.ofList (Model.definitions stream)) = .ok F) :
    (load o stream).result =
      match F.rejectedCycle? o with
      | some id => .error (.model (.cyclic id))
      | none => .ok F := by
  rw [load_of_readable (Model.readable_iff.2 h), ofDefinitions, ofScan, hcatalog]
  change Except.mapError Error.model (match F.rejectedCycle? o with
    | some id => .error (.cyclic id)
    | none => pure F) = _
  cases F.rejectedCycle? o <;> rfl

theorem resolvable_iff :
    Resolvable stream ↔ Model.Faultless stream ∧
      ∃ F, ofCatalog (Catalog.ofList (Model.definitions stream)) = .ok F := by
  constructor
  · intro h
    refine ⟨h.faultless, ?_⟩
    cases hcatalog : ofCatalog (Catalog.ofList (Model.definitions stream)) with
    | ok F =>
        exact ⟨F, rfl⟩
    | error e =>
        rcases (ofCatalog_definitions_eq_error_iff h.faultless).1 hcatalog with ⟨hnone, _⟩ | hhead
        · exact absurd hnone h.nodeLine
        · rw [h.resolved] at hhead
          cases hhead
  · rintro ⟨h, F, hF⟩
    have hfails : ∀ e, ¬ (Model.NoNodeLine stream ∧ e = .empty ∨
        (Model.danglingReferences stream).head? = some e) := by
      intro e he
      rw [(ofCatalog_definitions_eq_error_iff h).2 he] at hF
      cases hF
    refine ⟨fun hnone => hfails .empty (Or.inl ⟨hnone, rfl⟩), h, ?_⟩
    rw [← List.head?_eq_none_iff, Option.eq_none_iff_forall_ne_some]
    exact fun e he => hfails e (Or.inr he)

theorem onCycle_of_rejectedCycle?
    (hcatalog : ofCatalog (Catalog.ofList (Model.definitions stream)) = .ok F) {id : NodeId}
    (h : F.rejectedCycle? o = some id) : o.rejectCycles = true ∧ Model.OnCycle stream id := by
  unfold rejectedCycle? at h
  split at h
  · rename_i hreject
    exact ⟨hreject, (onCycle_iff_of_ofCatalog hcatalog id).2 (onCycle_of_findCycle? h)⟩
  · cases h

theorem rejectedCycle?_eq_none_iff
    (hcatalog : ofCatalog (Catalog.ofList (Model.definitions stream)) = .ok F) :
    F.rejectedCycle? o = none ↔ ¬ (o.rejectCycles = true ∧ ∃ id, Model.OnCycle stream id) := by
  have hcycle : (∃ id, Model.OnCycle stream id) ↔ ∃ i, F.OnCycle i := by
    simp only [onCycle_iff_of_ofCatalog hcatalog]
    constructor
    · rintro ⟨_, i, _, hi⟩
      exact ⟨i, hi⟩
    · rintro ⟨i, hi⟩
      exact ⟨F.idAt i, i, rfl, hi⟩
  unfold rejectedCycle?
  cases o.rejectCycles with
  | false =>
      simp
  | true =>
      rw [hcycle, if_pos rfl, findCycle?_eq_none_iff]
      simp

end Faultless

/-! ### All ways -/

/-- A way for the load of a stream to end, with its condition. -/
inductive Outcome (o : LoadOptions) (stream : List UInt8) : Except ModelError Forest → Prop where
  | empty : Model.NoNodeLine stream → Outcome o stream (.error .empty)
  | line {number : Nat} {content : String} {fault : LineFault} :
      FirstFault Model.Faulty (Model.nodeLines stream) (.line number content fault) →
      Outcome o stream (.error (.line number content fault))
  | dangling {owner id : NodeId} {side : Side} {number : Nat} :
      Model.Faultless stream →
      (Model.danglingReferences stream).head? = some (.dangling owner id side number) →
      Outcome o stream (.error (.dangling owner id side number))
  | cyclic {id : NodeId} :
      Resolvable stream → o.rejectCycles = true → Model.OnCycle stream id →
      Outcome o stream (.error (.cyclic id))
  | forest {F : Forest} :
      Resolvable stream → ¬ (o.rejectCycles = true ∧ ∃ id, Model.OnCycle stream id) →
      Outcome o stream (.ok F)

theorem outcome_load (o : LoadOptions) (stream : List UInt8) :
    ∃ r, Outcome o stream r ∧ (load o stream).result = r.mapError Error.model := by
  by_cases hfaulty : ∃ e, FirstFault Model.Faulty (Model.nodeLines stream) e
  · rcases hfaulty with ⟨e, he⟩
    refine ⟨.error e, ?_, load_of_firstFault he⟩
    -- A fault of a line is an error that names the line.
    rcases he with ⟨before, line, after, hlines, hbefore, hline⟩
    cases hline with
    | encoding hcs =>
        exact .line ⟨before, line, after, hlines, hbefore, .encoding hcs⟩
    | text hcs hread =>
        exact .line ⟨before, line, after, hlines, hbefore, .text hcs hread⟩
  · have hfaultless : Model.Faultless stream := by
      intro line hline e he
      exact hfaulty (exists_firstFault_iff.2 ⟨line, hline, e, he⟩)
    cases hcatalog : ofCatalog (Catalog.ofList (Model.definitions stream)) with
    | error e =>
        refine ⟨.error e, ?_, load_of_ofCatalog_error hfaultless hcatalog⟩
        rcases (ofCatalog_definitions_eq_error_iff hfaultless).1 hcatalog with ⟨hnone, rfl⟩ | hhead
        · exact .empty hnone
        · rcases Model.eq_dangling_of_mem_unknownReferences (List.mem_of_head? hhead) with
            ⟨owner, id, side, number, rfl⟩
          exact .dangling hfaultless hhead
    | ok F =>
        have hresolvable : Resolvable stream := resolvable_iff.2 ⟨hfaultless, F, hcatalog⟩
        have hresult := load_of_ofCatalog_ok (o := o) hfaultless hcatalog
        cases hrejected : F.rejectedCycle? o with
        | some id =>
            rw [hrejected] at hresult
            rcases onCycle_of_rejectedCycle? hcatalog hrejected with ⟨hreject, hid⟩
            exact ⟨.error (.cyclic id), .cyclic hresolvable hreject hid, hresult⟩
        | none =>
            rw [hrejected] at hresult
            have haccepted := (rejectedCycle?_eq_none_iff hcatalog).1 hrejected
            exact ⟨.ok F, .forest hresolvable haccepted, hresult⟩

/-- A load ends in one way only. -/
theorem outcome_of_load {r : Except ModelError Forest}
    (h : (load o stream).result = r.mapError Error.model) : Outcome o stream r := by
  rcases outcome_load o stream with ⟨r', hr', hresult⟩
  rw [hresult] at h
  cases r' <;> cases r <;> cases h <;> exact hr'

theorem load_of_noNodeLine (h : Model.NoNodeLine stream) :
    (load o stream).result = .error (.model .empty) := by
  have hfaultless : Model.Faultless stream := by
    rw [← Model.nodeLines_eq_nil_iff] at h
    intro line hline
    rw [h] at hline
    cases hline
  exact load_of_ofCatalog_error hfaultless
    ((ofCatalog_definitions_eq_error_iff hfaultless).2 (Or.inl ⟨h, rfl⟩))

theorem exists_cyclic_of_resolvable (h : Resolvable stream)
    (hcycle : o.rejectCycles = true ∧ ∃ id, Model.OnCycle stream id) :
    ∃ id, (load o stream).result = .error (.model (.cyclic id)) := by
  rcases resolvable_iff.1 h with ⟨hfaultless, F, hcatalog⟩
  have hresult := load_of_ofCatalog_ok (o := o) hfaultless hcatalog
  cases hrejected : F.rejectedCycle? o with
  | some id =>
      rw [hrejected] at hresult
      exact ⟨id, hresult⟩
  | none =>
      exact absurd hcycle ((rejectedCycle?_eq_none_iff hcatalog).1 hrejected)

theorem exists_load_of_resolvable (h : Resolvable stream)
    (hcycle : ¬ (o.rejectCycles = true ∧ ∃ id, Model.OnCycle stream id)) :
    ∃ F, (load o stream).result = .ok F := by
  rcases resolvable_iff.1 h with ⟨hfaultless, F, hcatalog⟩
  have hresult := load_of_ofCatalog_ok (o := o) hfaultless hcatalog
  rw [(rejectedCycle?_eq_none_iff hcatalog).2 hcycle] at hresult
  exact ⟨F, hresult⟩

/-- The id that is defined first has a position, so a forest with definitions has a root. -/
theorem exists_find?_of_head? {ds : List Definition} {d : Definition} (h : ds.head? = some d) :
    (∃ i, (Catalog.ofList ds).find? d.id = some i) ∧
      ofCatalog (Catalog.ofList ds) ≠ .error .empty := by
  have hmem : d ∈ ds := List.mem_of_head? h
  constructor
  · rw [← Catalog.mem_ids_iff, Catalog.ids_ofList, List.mem_eraseDups]
    exact List.mem_map_of_mem hmem
  · intro hempty
    rcases ofCatalog_eq_error_iff.1 hempty with ⟨hsize, _⟩ | ⟨_, hhead⟩
    · rw [size_ofList_eq_zero_iff] at hsize
      rw [hsize] at hmem
      cases hmem
    · -- What resolving reports is a reference.
      rcases Model.eq_dangling_of_mem_unknownReferences (List.mem_of_head? hhead) with
        ⟨owner, id, side, number, hdangling⟩
      cases hdangling

/--
How a load ends, by what the lines of the stream say. Of several things that are wrong the first in
this order is reported: no node line; the first node line that does not hold a node, with its number
in the stream and its text; the first reference of a surviving definition to an unknown id; a cycle
where cycles are refused. Only then is there a forest. The id that is defined first always has a
position, so resolving never fails for want of a root.
-/
theorem load_outcomes (o : LoadOptions) (stream : List UInt8) :
    ((load o stream).result = .error (.model .empty) ↔ Model.NoNodeLine stream) ∧
    (∀ number content fault,
      (load o stream).result = .error (.model (.line number content fault)) ↔
        FirstFault Model.Faulty (Model.nodeLines stream) (.line number content fault)) ∧
    (∀ owner id side number,
      (load o stream).result = .error (.model (.dangling owner id side number)) ↔
        Model.Faultless stream ∧
          (Model.danglingReferences stream).head? = some (.dangling owner id side number)) ∧
    ((∃ id, (load o stream).result = .error (.model (.cyclic id))) ↔
      Resolvable stream ∧ o.rejectCycles = true ∧ ∃ id, Model.OnCycle stream id) ∧
    (∀ id, (load o stream).result = .error (.model (.cyclic id)) → Model.OnCycle stream id) ∧
    ((∃ F, (load o stream).result = .ok F) ↔
      Resolvable stream ∧ ¬ (o.rejectCycles = true ∧ ∃ id, Model.OnCycle stream id)) ∧
    (∀ e, (load o stream).result = .error e → ∃ cause, e = .model cause) ∧
    ∀ d, (Model.definitions stream).head? = some d →
      (∃ i, (Catalog.ofList (Model.definitions stream)).find? d.id = some i) ∧
        ofCatalog (Catalog.ofList (Model.definitions stream)) ≠ .error .empty := by
  refine ⟨⟨fun h => ?_, load_of_noNodeLine⟩,
    fun number content fault => ⟨fun h => ?_, load_of_firstFault⟩,
    fun owner id side number => ⟨fun h => ?_, ?_⟩, ⟨?_, ?_⟩, fun id h => ?_, ⟨?_, ?_⟩,
    fun e h => ?_, fun d => exists_find?_of_head?⟩
  · cases outcome_of_load (r := .error .empty) h with
    | empty hnone => exact hnone
  · cases outcome_of_load (r := .error (.line number content fault)) h with
    | line hfirst => exact hfirst
  · cases outcome_of_load (r := .error (.dangling owner id side number)) h with
    | dangling hfaultless hhead => exact ⟨hfaultless, hhead⟩
  · rintro ⟨hfaultless, hhead⟩
    exact load_of_ofCatalog_error hfaultless
      ((ofCatalog_definitions_eq_error_iff hfaultless).2 (Or.inr hhead))
  · rintro ⟨id, h⟩
    cases outcome_of_load (r := .error (.cyclic id)) h with
    | cyclic hresolvable hreject hid => exact ⟨hresolvable, hreject, id, hid⟩
  · rintro ⟨hresolvable, hcycle⟩
    exact exists_cyclic_of_resolvable hresolvable hcycle
  · cases outcome_of_load (r := .error (.cyclic id)) h with
    | cyclic _ _ hid => exact hid
  · rintro ⟨F, h⟩
    cases outcome_of_load (r := .ok F) h with
    | forest hresolvable haccepted => exact ⟨hresolvable, haccepted⟩
  · rintro ⟨hresolvable, haccepted⟩
    exact exists_load_of_resolvable hresolvable haccepted
  · rcases outcome_load o stream with ⟨r, _, hresult⟩
    rw [hresult] at h
    cases r with
    | error cause =>
        cases h
        exact ⟨cause, rfl⟩
    | ok F =>
        cases h

end Forest
end DecisionForest

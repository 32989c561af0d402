import DecisionForest.Proofs.Forest.Loaded

/-!
# Which redefinitions are reported

While the node lines of a stream are read, each line of an id that an earlier line has is reported, in
line order. The line kept of an id is overwritten with each redefinition, so the report calls the
latest earlier line the first one, which it is for the second line of an id only.

- `redefinition?` is the report of one definition that follows others, `reports` lists those of several
  in a row; `Catalog.redefinitions_ofList` ties the reports of a catalog to them,
- `Model.getElem?_definitions` says on which line of the stream a definition stands,
- `latest?_eq_earliest?_iff` says when the latest line of an id is the first one,
- `Forest.load_redefinitions` is about the log of a load, and `Forest.misnamed_first_line` is a stream of
  three lines whose last report is wrong.
-/

namespace DecisionForest

/-! ## The first and the latest definition -/

/-- The definitions in a list with a given id. -/
def withId (ds : List Definition) (id : NodeId) : List Definition :=
  ds.filter fun d => d.id == id

/-- The first definition in a list with a given id. -/
def earliest? (ds : List Definition) (id : NodeId) : Option Definition :=
  ds.find? fun d => d.id == id

theorem earliest?_eq_head? (ds : List Definition) (id : NodeId) :
    earliest? ds id = (withId ds id).head? :=
  List.head?_filter.symm

theorem latest?_eq_getLast? (ds : List Definition) (id : NodeId) :
    latest? ds id = (withId ds id).getLast? := by
  rw [latest?, ← List.head?_filter, List.filter_reverse, List.head?_reverse, withId]

/-- On lines in order, the latest line of an id is the first one if there are no others. -/
theorem line_eq_iff {ds : List Definition} (h : ds.Pairwise fun d e => d.line < e.line)
    {id : NodeId} {first former : Definition} (hfirst : earliest? ds id = some first)
    (hformer : latest? ds id = some former) :
    former.line = first.line ↔ (withId ds id).length = 1 := by
  rw [earliest?_eq_head?] at hfirst
  rw [latest?_eq_getLast?] at hformer
  have hsorted : (withId ds id).Pairwise fun d e => d.line < e.line := h.filter _
  cases hds : withId ds id with
  | nil =>
      rw [hds] at hfirst
      cases hfirst
  | cons d rest =>
      rw [hds] at hfirst hformer hsorted
      cases hfirst
      cases rest with
      | nil =>
          cases hformer
          simp
      | cons e rest =>
          -- The latest one comes after the first one.
          have hmem : former ∈ e :: rest := by
            rw [List.getLast?_cons_cons] at hformer
            exact List.mem_of_getLast? hformer
          have hlt : first.line < former.line := List.rel_of_pairwise_cons hsorted hmem
          constructor
          · intro heq
            exact absurd heq (Nat.ne_of_gt hlt)
          · intro hlength
            simp at hlength

/-! ## Reports of a catalog -/

/-- What is reported of a definition that follows others: a redefinition if one of them has its id, of
which the latest is named. -/
def redefinition? (before : List Definition) (d : Definition) : Option Event :=
  (latest? before d.id).map fun former => .redefinition d.id d.line former.line

/-- The reports of a list of definitions, each of them seen after those before it. -/
def reports (ds : List Definition) : List Event :=
  ds.zipIdx.filterMap fun entry => redefinition? (ds.take entry.2) entry.1

namespace Catalog

theorem redefinitions_cons (before : List Definition) (d : Definition) (rest : List Definition) :
    (ofList before).redefinitions (d :: rest) =
      (redefinition? before d).toList ++ (ofList (before ++ [d])).redefinitions rest := by
  rw [redefinition?, ← lookup_ofList, lookup, ofList_append, redefinitions]
  cases (ofList before).find? d.id <;> rfl

theorem redefinitions_ofList (before ds : List Definition) :
    (ofList before).redefinitions ds =
      ds.zipIdx.filterMap fun entry => redefinition? (before ++ ds.take entry.2) entry.1 := by
  induction ds generalizing before with
  | nil =>
      rfl
  | cons d rest ih =>
      rw [redefinitions_cons, ih, List.zipIdx_cons, List.zipIdx_succ, List.filterMap_cons,
        List.filterMap_map]
      simp only [Function.comp_def, List.take_succ_cons, List.take_zero, List.append_nil,
        List.append_assoc, List.singleton_append]
      cases redefinition? before d <;> rfl

end Catalog

/-! ## Lines of definitions -/

namespace Model

variable {stream : List UInt8}

theorem line_of_readLine {number : Nat} {raw : List UInt8} {d : Definition}
    (h : readLine number raw = .ok (some d)) : d.line = number := by
  unfold readLine at h
  split at h
  · cases h
  · dsimp only at h
    split at h
    · cases h
    · split at h <;> cases h
      rfl

theorem forall₂_definitions (h : Readable stream) :
    List.Forall₂ (fun line d => readLine line.2 line.1 = .ok (some d)) (nodeLines stream)
      (definitions stream) := by
  unfold definitions
  unfold Readable at h
  generalize nodeLines stream = lines at h ⊢
  induction lines with
  | nil =>
      exact .nil
  | cons line rest ih =>
      obtain ⟨d, hd⟩ := h line List.mem_cons_self
      have hline : definition? line = some d := by
        rw [definition?, hd]
      rw [List.filterMap_cons_some hline]
      exact .cons hd (ih fun other hother => h other (List.mem_cons_of_mem line hother))

/-- The node lines are the second line of the stream and those that follow it. -/
theorem getElem?_nodeLines {k : Nat} {line : List UInt8 × Nat}
    (h : (nodeLines stream)[k]? = some line) :
    (Text.lines stream)[k + 1]? = some line.1 ∧ line.2 = k + 2 := by
  have hprefix : nodeLines stream <+: ((Text.lines stream).zipIdx 1).tail :=
    List.takeWhile_prefix _
  obtain ⟨rest, hrest⟩ := hprefix
  have hlength := (List.getElem?_eq_some_iff.1 h).1
  have hline : ((Text.lines stream).zipIdx 1)[k + 1]? = some line := by
    rw [← List.getElem?_tail, ← hrest, List.getElem?_append_left hlength, h]
  rw [List.getElem?_zipIdx] at hline
  obtain ⟨raw, hraw, rfl⟩ := Option.map_eq_some_iff.1 hline
  exact ⟨hraw, by simp only; omega⟩

/-- A definition stands on the line of its number, and all lines between them hold one too. -/
theorem getElem?_definitions (h : Readable stream) {k : Nat} {d : Definition}
    (hd : (definitions stream)[k]? = some d) :
    d.line = k + 2 ∧ ∃ raw, (Text.lines stream)[k + 1]? = some raw ∧
      readLine (k + 2) raw = .ok (some d) := by
  obtain ⟨hlength, hlines⟩ := List.forall₂_iff_get.1 (forall₂_definitions h)
  obtain ⟨hk, rfl⟩ := List.getElem?_eq_some_iff.1 hd
  have hk' : k < (nodeLines stream).length := hlength ▸ hk
  obtain ⟨hraw, hnumber⟩ := getElem?_nodeLines (List.getElem?_eq_getElem hk')
  have hread := hlines k hk' hk
  rw [List.get_eq_getElem, List.get_eq_getElem, hnumber] at hread
  exact ⟨line_of_readLine hread, _, hraw, hread⟩

theorem pairwise_line_definitions (h : Readable stream) :
    (definitions stream).Pairwise fun d e => d.line < e.line := by
  rw [List.pairwise_iff_getElem]
  intro i j hi hj hij
  rw [(getElem?_definitions h (List.getElem?_eq_getElem hi)).1,
    (getElem?_definitions h (List.getElem?_eq_getElem hj)).1]
  omega

end Model

/-! ## The log of a load -/

def Event.isRedefinition : Event → Bool
  | .redefinition _ _ _ => true
  | _ => false

namespace Catalog

theorem filter_redefinitions (c : Catalog) (ds : List Definition) :
    (c.redefinitions ds).filter Event.isRedefinition = c.redefinitions ds := by
  induction ds generalizing c with
  | nil =>
      rfl
  | cons d rest ih =>
      unfold redefinitions
      split
      · rw [List.filter_cons_of_pos rfl, ih]
      · exact ih _

end Catalog

namespace Forest

variable {o : LoadOptions} {stream : List UInt8}

theorem filter_headerEvents (o : LoadOptions) (raw : List UInt8) :
    (headerEvents o raw).filter Event.isRedefinition = [] := by
  unfold headerEvents
  simp only
  split <;> rfl

theorem filter_summaryEvents (F : Forest) :
    F.summaryEvents.filter Event.isRedefinition = [] := by
  unfold summaryEvents
  simp only
  split <;> rfl

/-- No redefinition is reported but of the node lines. -/
theorem filter_load_events (o : LoadOptions) {stream header : List UInt8}
    {body : List (List UInt8)} (hlines : Text.lines stream = header :: body) :
    (load o stream).events.filter Event.isRedefinition =
      Catalog.redefinitions .empty (Model.scan 2 body).definitions := by
  rw [load_events o hlines, List.filter_append, List.filter_append, filter_headerEvents,
    Catalog.filter_redefinitions, List.nil_append]
  cases ofScan o (Model.scan 2 body) with
  | error e =>
      exact List.append_nil _
  | ok F =>
      dsimp only
      rw [filter_summaryEvents, List.append_nil]

theorem filter_load_events_of_readable (h : Model.Readable stream) :
    (load o stream).events.filter Event.isRedefinition =
      Catalog.redefinitions .empty (Model.definitions stream) := by
  cases hlines : Text.lines stream with
  | nil =>
      have hnone : Model.definitions stream = [] := by
        rw [Model.definitions, Model.nodeLines_eq_nil hlines]
        rfl
      rw [hnone, load, hlines]
      rfl
  | cons header body =>
      rw [filter_load_events o hlines, Model.scan_of_readable hlines h]

/--
In a stream whose node lines can all be read, the definitions stand on the second line and the lines
that follow it. A load reports a redefinition for each of them whose id an earlier one has, once and in
line order, and for no other, whatever comes of the load. The report names the id, the line itself and
the line of the latest earlier definition of the id. It is worded as the line of the first definition,
and is that line exactly if the id was defined only once before.
-/
theorem load_redefinitions (o : LoadOptions) (h : Model.Readable stream) :
    (load o stream).events.filter Event.isRedefinition =
        reports (Model.definitions stream) ∧
      (∀ k d, (Model.definitions stream)[k]? = some d →
        d.line = k + 2 ∧ ∃ raw, (Text.lines stream)[k + 1]? = some raw ∧
          Model.readLine (k + 2) raw = .ok (some d)) ∧
      (∀ k id first former, earliest? ((Model.definitions stream).take k) id = some first →
        latest? ((Model.definitions stream).take k) id = some former →
          (former.line = first.line ↔
            (withId ((Model.definitions stream).take k) id).length = 1)) ∧
      ∀ id line former,
        (Event.redefinition id line former).level = .warn ∧
          (Event.redefinition id line former).message =
            "Node " ++ toString id.toNat ++ " redefined at line " ++ toString line ++
              " (first defined at line " ++ toString former ++
                "), keeping the later definition" := by
  refine ⟨?_, fun _ _ => Model.getElem?_definitions h, ?_, fun _ _ _ => ⟨rfl, rfl⟩⟩
  · have hempty : Catalog.empty = Catalog.ofList [] := rfl
    rw [filter_load_events_of_readable h, hempty, Catalog.redefinitions_ofList, reports]
    simp only [List.nil_append]
  · intro k id first former
    exact line_eq_iff ((Model.pairwise_line_definitions h).take)

/-! ### Three definitions of one node -/

def definedThrice : List UInt8 :=
  Utf8.encode "dtree\n1\t1\t\n1\t2\t\n1\t3\t\n"

theorem definitions_definedThrice :
    Model.definitions definedThrice = [⟨2, ⟨1, 1, []⟩⟩, ⟨3, ⟨1, 2, []⟩⟩, ⟨4, ⟨1, 3, []⟩⟩] := by
  decide +kernel

theorem readable_definedThrice : Model.Readable definedThrice := by
  have hload : (load {} definedThrice).result.isOk = true := by
    decide +kernel
  obtain ⟨F, hF⟩ := exists_eq_ok hload
  exact readable_of_load hF

theorem load_redefinitions_definedThrice :
    Model.Readable definedThrice ∧
      (load {} definedThrice).events.filter Event.isRedefinition =
        [.redefinition 1 3 2, .redefinition 1 4 3] := by
  refine ⟨readable_definedThrice, ?_⟩
  rw [(load_redefinitions {} readable_definedThrice).1, definitions_definedThrice]
  rfl

/-- The last report says that the node was first defined on line 3, which was line 2. -/
theorem misnamed_first_line :
    .redefinition 1 4 3 ∈ (load {} definedThrice).events ∧
      (Event.redefinition 1 4 3).message =
        "Node 1 redefined at line 4 (first defined at line 3), keeping the later definition" ∧
      (earliest? (Model.definitions definedThrice) 1).map Definition.line = some 2 := by
  refine ⟨?_, ?_, ?_⟩
  · decide +kernel
  · decide +kernel
  · decide +kernel

end Forest
end DecisionForest

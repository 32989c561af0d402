import DecisionForest.Proofs.Model.Catalog
import DecisionForest.Proofs.Model.Lines
import DecisionForest.Proofs.Results

/-!
# What can be wrong with a stream

All that is wrong with the node lines of a stream, in the order in which it is looked for: lines
that hold no node, and references to ids that no line defines.

- `Model.NoNodeLine` is a stream without node lines,
- `Model.Faulty` is a line that does not hold a node, with the error that says so; the loop over the
  lines ends with the first one (`Model.scan_error?_eq_some_iff`),
- `Model.survivors` lists the definitions that no later line supersedes, and
  `Model.danglingReferences` their references to unknown ids,
- `Model.Refers` and `Model.OnCycle` are the graph that the survivors make of the ids.
-/

namespace DecisionForest
namespace Model

variable {stream : List UInt8} {line : List UInt8 × Nat} {e : ModelError}

/-! ## Streams without node lines -/

/-- There are no bytes, or the line below the header is absent or blank. -/
def NoNodeLine (stream : List UInt8) : Prop :=
  stream = [] ∨ (Text.lines stream)[1]? = none ∨
    ∃ second, (Text.lines stream)[1]? = some second ∧ Text.isBlankLine second = true

theorem nodeLines_eq_nil_iff : nodeLines stream = [] ↔ NoNodeLine stream := by
  have hempty : stream = [] → (Text.lines stream)[1]? = none := by
    rintro rfl
    rfl
  unfold nodeLines NoNodeLine
  match hlines : Text.lines stream with
  | [] =>
      simp
  | [header] =>
      simp [List.zipIdx_cons]
  | header :: second :: rest =>
      -- Only here is there a second line, so only here the stream has to have bytes.
      have hbytes : stream ≠ [] := by
        intro hnil
        have hnone := hempty hnil
        rw [hlines] at hnone
        simp at hnone
      cases hblank : Text.isBlankLine second <;> simp [List.zipIdx_cons, hblank, hbytes]

theorem not_blank_of_mem_nodeLines (h : line ∈ nodeLines stream) :
    Text.isBlankLine line.1 = false := by
  have htest := List.mem_takeWhile_imp h
  simpa using htest

/-! ## Lines that do not hold a node -/

/-- A numbered line that does not hold a node, and the error that shows its text. -/
inductive Faulty (line : List UInt8 × Nat) : ModelError → Prop where
  /-- The bytes are not text; what can be shown is shown. -/
  | encoding {offset : Nat} : Utf8.decode? line.1 = .error offset →
      Faulty line (.line line.2 (String.ofList (Text.dropReturns (Utf8.decodeLossy line.1)))
        (.encoding offset))
  /-- The text without its line ends is not that of a node. -/
  | text {cs : List Char} {fault : LineFault} : Utf8.decode? line.1 = .ok cs →
      NodeLine.read (Text.dropReturns cs) = .error fault →
      Faulty line (.line line.2 (String.ofList (Text.dropReturns cs)) fault)

/-- No node line is faulty. -/
def Faultless (stream : List UInt8) : Prop :=
  ∀ line ∈ nodeLines stream, ∀ e, ¬ Faulty line e

theorem readLine_eq_error_iff (hline : Text.isBlankLine line.1 = false) :
    readLine line.2 line.1 = .error e ↔ Faulty line e := by
  have hnone : readLine line.2 line.1 ≠ .ok none := by
    rw [ne_eq, readLine_eq_ok_none_iff, hline]
    simp
  unfold readLine at hnone ⊢
  cases hcs : Utf8.decode? line.1 with
  | error offset =>
      constructor
      · intro h
        cases h
        exact .encoding hcs
      · rintro (hoffset | ⟨htext, -⟩)
        · rw [hcs] at hoffset
          cases hoffset
          rfl
        · rw [hcs] at htext
          cases htext
  | ok cs =>
      have hnil : Text.dropReturns cs ≠ [] := by
        intro hnil
        simp [hcs, hnil] at hnone
      simp only [hnil, if_false]
      constructor
      · intro h
        cases hread : NodeLine.read (Text.dropReturns cs) with
        | error fault =>
            rw [hread] at h
            cases h
            exact .text hcs hread
        | ok node =>
            rw [hread] at h
            cases h
      · rintro (hoffset | ⟨htext, hread⟩)
        · rw [hcs] at hoffset
          cases hoffset
        · rw [hcs] at htext
          cases htext
          rw [hread]

/-- A line that is not blank holds a node or is faulty. -/
theorem exists_readLine_iff (hline : Text.isBlankLine line.1 = false) :
    (∃ d, readLine line.2 line.1 = .ok (some d)) ↔ ∀ e, ¬ Faulty line e := by
  simp only [← readLine_eq_error_iff hline]
  cases hread : readLine line.2 line.1 with
  | error e =>
      simp
  | ok d? =>
      cases d? with
      | none =>
          rw [readLine_eq_ok_none_iff, hline] at hread
          cases hread
      | some d =>
          simp

theorem readable_iff : Readable stream ↔ Faultless stream := by
  unfold Readable Faultless
  constructor
  · intro h line hline
    exact (exists_readLine_iff (not_blank_of_mem_nodeLines hline)).1 (h line hline)
  · intro h line hline
    exact (exists_readLine_iff (not_blank_of_mem_nodeLines hline)).2 (h line hline)

/-- The loop over the lines ends with the first faulty one. -/
theorem scan_error?_eq_some_iff (number : Nat) (body : List (List UInt8)) :
    (scan number body).error? = some e ↔ FirstFault Faulty (upToBlank number body) e := by
  induction body generalizing number with
  | nil =>
      simp [scan, upToBlank_nil, not_firstFault_nil]
  | cons raw rest ih =>
      unfold scan
      cases hread : readLine number raw with
      | error e' =>
          have hblank : Text.isBlankLine raw = false :=
            isBlankLine_eq_false (by rw [hread]; simp)
          have hfaulty : ∀ e, Faulty (raw, number) e ↔ e' = e := by
            intro e
            rw [← readLine_eq_error_iff hblank, hread, Except.error.injEq]
          simp [upToBlank_cons number rest hblank, firstFault_cons_iff, hfaulty]
      | ok d? =>
          cases d? with
          | none =>
              have hblank := readLine_eq_ok_none_iff.1 hread
              simp [upToBlank_cons_blank number rest hblank, not_firstFault_nil]
          | some d =>
              have hblank : Text.isBlankLine raw = false :=
                isBlankLine_eq_false (by rw [hread]; simp)
              have hfaultless : ∀ e, ¬ Faulty (raw, number) e :=
                (exists_readLine_iff hblank).1 ⟨d, hread⟩
              simp [upToBlank_cons number rest hblank, firstFault_cons_iff, hfaultless, ih]

/-! ## References to unknown ids -/

/-- The definitions that no later one supersedes, in the order in which their ids first appear. -/
def survivors (ds : List Definition) : List Definition :=
  (ds.map Definition.id).eraseDups.filterMap (latest? ds)

/-- The references of a definition to ids outside a list, branch by branch and the yes side before
the no side. -/
def unknownReferences (ids : List NodeId) (d : Definition) : List ModelError :=
  d.node.branches.flatMap fun b =>
    ([(.yes, b.yes), (.no, b.no)].filter fun r => r.2 ∉ ids).map fun r =>
      .dangling d.id r.2 r.1 d.line

/-- The references of the survivors to ids that no line defines. -/
def danglingReferences (stream : List UInt8) : List ModelError :=
  (survivors (definitions stream)).flatMap
    (unknownReferences ((definitions stream).map Definition.id))

theorem survivors_eq (ds : List Definition) :
    survivors ds = (Catalog.ofList ds).entries.toList := by
  rw [Catalog.entries_eq, Catalog.ids_ofList, survivors]
  congr 1
  funext id
  rw [Catalog.lookup_ofList]

theorem unknownReferences_congr {ids ids' : List NodeId} (h : ∀ id, id ∈ ids ↔ id ∈ ids')
    (d : Definition) : unknownReferences ids d = unknownReferences ids' d := by
  unfold unknownReferences
  simp only [h]

theorem eq_dangling_of_mem_unknownReferences {ids : List NodeId} {ds : List Definition}
    (h : e ∈ ds.flatMap (unknownReferences ids)) :
    ∃ owner id side number, e = .dangling owner id side number := by
  simp only [unknownReferences, List.mem_flatMap, List.mem_map] at h
  rcases h with ⟨d, _, b, _, r, _, rfl⟩
  exact ⟨_, _, _, _, rfl⟩

/-! ## The graph of the ids -/

/-- The last definition of an id names another id. -/
def Refers (stream : List UInt8) (a b : NodeId) : Prop :=
  ∃ d, latest? (definitions stream) a = some d ∧ b ∈ d.node.targets

/-- An id that leads back to itself. -/
def OnCycle (stream : List UInt8) (id : NodeId) : Prop :=
  Relation.TransGen (Refers stream) id id

end Model
end DecisionForest

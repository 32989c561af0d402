import DecisionForest.Proofs.Forest.Cycle
import DecisionForest.Proofs.Forest.Traversal

/-!
# Node lines in another order, and further node lines

Two streams that define the same nodes in another order load to forests with other positions, and
node lines that the root does not lead to add positions that nothing leads to. What is asked of a
forest by ids is the same as before, as long as the first node line stays the first.

- `Model.Rearranges` relates a stream of distinct ids and one with its node lines in another order
  and further node lines among them,
- `Forest.exists_load_of_rearranges` loads the latter, `Forest.exists_embeds_of_rearranges` finds the
  former forest in it,
- `Forest.branchCount_eq` and `Forest.featureIds_eq` are what is counted over all nodes,
- `Forest.load_rearranged` is what the two forests have in common.
-/

namespace DecisionForest

namespace Model

variable {stream stream' : List UInt8} {more : List (List UInt8)}

/-! ## Node lines without numbers -/

/-- The bytes of the node lines. -/
def nodeTexts (stream : List UInt8) : List (List UInt8) :=
  (nodeLines stream).map Prod.fst

/-- The node on a line, if it is the line of a node. -/
def nodeOf? (raw : List UInt8) : Option (Node NodeId) :=
  (definition? (raw, 0)).map Definition.node

/-- Which node a line holds does not depend on its number. -/
theorem map_node_definition? (line : List UInt8 × Nat) :
    (definition? line).map Definition.node = nodeOf? line.1 := by
  unfold nodeOf? definition? readLine
  cases Utf8.decode? line.1 with
  | error offset =>
      rfl
  | ok cs =>
      by_cases hblank : Text.dropReturns cs = []
      · simp [hblank]
      · cases hread : NodeLine.read (Text.dropReturns cs) <;> simp [hblank, hread]

theorem map_node_definitions (stream : List UInt8) :
    (definitions stream).map Definition.node = (nodeTexts stream).filterMap nodeOf? := by
  rw [definitions, nodeTexts, List.map_filterMap, List.filterMap_map]
  exact List.filterMap_congr fun line _ => map_node_definition? line

theorem definition?_eq_some_iff {line : List UInt8 × Nat} {d : Definition} :
    definition? line = some d ↔ readLine line.2 line.1 = .ok (some d) := by
  unfold definition?
  cases readLine line.2 line.1 <;> simp

theorem readable_iff_nodeOf? :
    Readable stream ↔ ∀ raw ∈ nodeTexts stream, (nodeOf? raw).isSome = true := by
  have hline : ∀ line : List UInt8 × Nat,
      (∃ d, readLine line.2 line.1 = .ok (some d)) ↔ (nodeOf? line.1).isSome = true := by
    intro line
    rw [← map_node_definition?, Option.isSome_map, Option.isSome_iff_exists]
    exact exists_congr fun _ => definition?_eq_some_iff.symm
  rw [nodeTexts, List.forall_mem_map]
  exact forall₂_congr fun line _ => hline line

/-- The first node line defines the first node. -/
theorem head?_nodes (h : Readable stream) :
    (definitions stream).head?.map Definition.node = (nodeTexts stream).head?.bind nodeOf? := by
  rw [← List.head?_map, map_node_definitions]
  cases hlines : nodeTexts stream with
  | nil =>
      rfl
  | cons raw rest =>
      have hraw : (nodeOf? raw).isSome = true :=
        readable_iff_nodeOf?.1 h raw (by rw [hlines]; exact List.mem_cons_self)
      obtain ⟨n, hn⟩ := Option.isSome_iff_exists.1 hraw
      simp [hn]

/-! ## Rearranged streams -/

/-- The node lines of `stream'` are those of `stream`, the first one first and the others in any
order, and the lines `more` anywhere after the first, which hold nodes with ids of their own and name
only ids that `stream'` defines. -/
structure Rearranges (stream stream' : List UInt8) (more : List (List UInt8)) : Prop where
  first : (nodeTexts stream').head? = (nodeTexts stream).head?
  rest : (nodeTexts stream').tail.Perm ((nodeTexts stream).tail ++ more)
  isNode : ∀ raw ∈ more, (nodeOf? raw).isSome = true
  distinct : ((more.filterMap nodeOf?).map Node.id).Nodup
  fresh : ∀ n ∈ more.filterMap nodeOf?, n.id ∉ (definitions stream).map Definition.id
  closed : ∀ n ∈ more.filterMap nodeOf?, ∀ id ∈ n.targets,
    id ∈ (definitions stream').map Definition.id

namespace Rearranges

theorem perm_nodeTexts (h : Rearranges stream stream' more) :
    (nodeTexts stream').Perm (nodeTexts stream ++ more) := by
  have hfirst := h.first
  have hrest := h.rest
  cases hlines : nodeTexts stream with
  | nil =>
      rw [hlines] at hfirst hrest
      rw [List.head?_eq_none_iff.1 hfirst] at hrest ⊢
      exact hrest
  | cons raw rest =>
      rw [hlines] at hfirst hrest
      obtain ⟨rest', hlines'⟩ := List.head?_eq_some_iff.1 hfirst
      rw [hlines'] at hrest ⊢
      exact hrest.cons raw

theorem perm_nodes (h : Rearranges stream stream' more) :
    ((definitions stream').map Definition.node).Perm
      ((definitions stream).map Definition.node ++ more.filterMap nodeOf?) := by
  rw [map_node_definitions, map_node_definitions, ← List.filterMap_append]
  exact h.perm_nodeTexts.filterMap nodeOf?

theorem perm_ids (h : Rearranges stream stream' more) :
    ((definitions stream').map Definition.id).Perm
      ((definitions stream).map Definition.id ++ (more.filterMap nodeOf?).map Node.id) := by
  have hids := h.perm_nodes.map Node.id
  rw [List.map_append, List.map_map, List.map_map] at hids
  exact hids

theorem readable (h : Rearranges stream stream' more) (hstream : Readable stream) :
    Readable stream' := by
  rw [readable_iff_nodeOf?] at hstream ⊢
  intro raw hraw
  rcases List.mem_append.1 (h.perm_nodeTexts.mem_iff.1 hraw) with hold | hnew
  · exact hstream raw hold
  · exact h.isNode raw hnew

theorem nodup_ids (h : Rearranges stream stream' more)
    (hdistinct : ((definitions stream).map Definition.id).Nodup) :
    ((definitions stream').map Definition.id).Nodup := by
  have hapart : ∀ id ∈ (definitions stream).map Definition.id,
      ∀ id' ∈ (more.filterMap nodeOf?).map Node.id, id ≠ id' := by
    rintro id hid _ hid' rfl
    obtain ⟨n, hn, rfl⟩ := List.mem_map.1 hid'
    exact h.fresh n hn hid
  exact h.perm_ids.nodup_iff.2 (List.nodup_append.2 ⟨hdistinct, h.distinct, hapart⟩)

/-- The ids that are named are defined, those of the former lines by these lines. -/
theorem closed_of_closed (h : Rearranges stream stream' more)
    (hclosed : ∀ d ∈ definitions stream, ∀ id ∈ d.node.targets,
      id ∈ (definitions stream).map Definition.id) :
    ∀ d ∈ definitions stream', ∀ id ∈ d.node.targets,
      id ∈ (definitions stream').map Definition.id := by
  intro d hd id hid
  have hnode : d.node ∈ (definitions stream').map Definition.node := List.mem_map_of_mem hd
  rcases List.mem_append.1 (h.perm_nodes.mem_iff.1 hnode) with hold | hnew
  · obtain ⟨d₀, hd₀, hsame⟩ := List.mem_map.1 hold
    rw [← hsame] at hid
    exact h.perm_ids.mem_iff.2 (List.mem_append_left _ (hclosed d₀ hd₀ id hid))
  · exact h.closed d.node hnew id hid

end Rearranges

end Model

namespace Forest

variable {o : LoadOptions} {stream stream' : List UInt8} {more : List (List UInt8)} {F F' : Forest}

/-! ## Loading a rearranged stream -/

theorem records_of_load (hload : (load o stream).result = .ok F)
    (hdistinct : ((Model.definitions stream).map Definition.id).Nodup) :
    F.records = (Model.definitions stream).map Definition.node :=
  records_of_distinct hdistinct (load_eq_ok_iff.1 hload).2.1

/-- A stream that loads names only ids that it defines. -/
theorem closed_of_load (hload : (load o stream).result = .ok F)
    (hdistinct : ((Model.definitions stream).map Definition.id).Nodup) :
    ∀ d ∈ Model.definitions stream, ∀ id ∈ d.node.targets,
      id ∈ (Model.definitions stream).map Definition.id := by
  obtain ⟨_, hclosed⟩ := exists_ofCatalog_iff.1 ⟨F, (load_eq_ok_iff.1 hload).2.1⟩
  intro d hd id hid
  have hentry : d ∈ (Catalog.ofList (Model.definitions stream)).entries := by
    rw [← Array.mem_toList_iff, Catalog.entries_ofList_of_nodup hdistinct]
    exact hd
  exact mem_ids_ofList_iff.1 (hclosed d hentry id hid)

theorem exists_load_of_rearranges (hload : (load o stream).result = .ok F)
    (hdistinct : ((Model.definitions stream).map Definition.id).Nodup)
    (h : Model.Rearranges stream stream' more) (checkHeader : Bool) :
    ∃ F', (load { rejectCycles := false, checkHeader } stream').result = .ok F' ∧
      F'.records.Perm (F.records ++ more.filterMap Model.nodeOf?) ∧
      F'.idAt F'.root = F.idAt F.root := by
  have hreadable : Model.Readable stream' := h.readable (readable_of_load hload)
  have hfirst : (Model.definitions stream').head?.map Definition.node =
      (Model.definitions stream).head?.map Definition.node := by
    rw [Model.head?_nodes hreadable, Model.head?_nodes (readable_of_load hload), h.first]
  have hids : (Model.definitions stream').head?.map Definition.id =
      (Model.definitions stream).head?.map Definition.id := by
    have hmap := congrArg (Option.map Node.id) hfirst
    rw [Option.map_map, Option.map_map] at hmap
    exact hmap
  -- The root of the former forest is defined, so there is something to load.
  have hne : Model.definitions stream' ≠ [] := by
    intro hnil
    rw [idAt_root_of_load hload, hnil] at hids
    cases hids
  obtain ⟨F', hF', hrecords⟩ := exists_ofCatalog_of_distinct (h.nodup_ids hdistinct) hne
    (h.closed_of_closed (closed_of_load hload hdistinct))
  have hload' : (load { rejectCycles := false, checkHeader } stream').result = .ok F' :=
    load_eq_ok_iff.2 ⟨hreadable, hF', rfl⟩
  refine ⟨F', hload', ?_, ?_⟩
  · rw [hrecords, records_of_load hload hdistinct]
    exact h.perm_nodes
  · rw [idAt_root_of_load hload', idAt_root_of_load hload] at hids
    exact Option.some.inj hids

/-- The former forest stands in the one with further nodes, root at root. -/
theorem exists_embeds_of_rearranges {further : List (Node NodeId)}
    (hperm : F'.records.Perm (F.records ++ further)) (hroot : F'.idAt F'.root = F.idAt F.root) :
    ∃ f, Embeds F F' f ∧ f F.root = F'.root := by
  have hmem : ∀ n ∈ F.records, n ∈ F'.records := by
    intro n hn
    exact hperm.mem_iff.2 (List.mem_append_left _ hn)
  obtain ⟨f, hf⟩ := exists_embeds_of_mem hmem
  refine ⟨f, hf, F'.idAt_injective ?_⟩
  rw [hf.idAt_eq, hroot]

/-! ## What is counted over all nodes -/

theorem branchCount_eq (F : Forest) : F.branchCount = (F.records.flatMap Node.branches).length := by
  have hlength : ∀ i, (F.record i).branches.length = (F.node i).branches.length := by
    intro i
    exact List.length_map _
  simp [branchCount, records, toList_nodes, List.length_flatMap, List.flatMap_map, hlength]

theorem featureIds_eq (F : Forest) :
    F.featureIds = Features.ascending (F.records.flatMap fun n => n.branches.map Branch.feature) := by
  have hfeatures : ∀ i, (F.record i).branches.map Branch.feature =
      (F.node i).branches.map Branch.feature := by
    intro i
    exact List.map_map
  simp [featureIds, records, toList_nodes, List.flatMap_map, hfeatures]

section Permuted

variable (hperm : F'.records.Perm F.records)
include hperm

theorem branchCount_of_perm : F'.branchCount = F.branchCount := by
  rw [branchCount_eq, branchCount_eq]
  exact (hperm.flatMap_right Node.branches).length_eq

theorem featureIds_of_perm : F'.featureIds = F.featureIds := by
  rw [featureIds_eq, featureIds_eq]
  apply Features.ascending_congr
  intro f
  exact (hperm.flatMap_right fun n => n.branches.map Branch.feature).mem_iff

/-- Where the nodes are the same, every position stands for one of the other forest. -/
theorem findCycle?_eq_none_iff_of_perm {f : Fin F.size → Fin F'.size} (hf : Embeds F F' f) :
    F'.findCycle? = none ↔ F.findCycle? = none := by
  have hsurjective : ∀ j, ∃ k, f k = j := by
    intro j
    have hmem : F'.record j ∈ F'.records := List.mem_map_of_mem (List.mem_finRange j)
    obtain ⟨k, _, hk⟩ := List.mem_map.1 (hperm.mem_iff.1 hmem)
    have hid : F.idAt k = F'.idAt j := congrArg Node.id hk
    exact ⟨k, F'.idAt_injective ((hf.idAt_eq k).trans hid)⟩
  rw [findCycle?_eq_none_iff, findCycle?_eq_none_iff]
  constructor
  · intro hnone k hcycle
    exact hnone (f k) (hf.onCycle_iff.2 hcycle)
  · intro hnone j hcycle
    obtain ⟨k, rfl⟩ := hsurjective j
    exact hnone k (hf.onCycle_iff.1 hcycle)

end Permuted

/-! ## What the two forests have in common -/

/--
Take a stream of distinct ids that loads, and put its node lines into another order, the first one
excepted, with any number of node lines of new ids among them that name defined ids only. It loads
again, to a forest with the same root, the same node for each id of before, the same ids in
pre-order, the same text and the same scores. Without new lines it has a cycle if there was one, and
as many branches, and tests the same features.
-/
theorem load_rearranged (hload : (load o stream).result = .ok F)
    (hdistinct : ((Model.definitions stream).map Definition.id).Nodup)
    (h : Model.Rearranges stream stream' more) (checkHeader : Bool) :
    ∃ F', (load { rejectCycles := false, checkHeader } stream').result = .ok F' ∧
      F'.idAt F'.root = F.idAt F.root ∧
      (∀ i, ∃ i', F'.indexOf? (F.idAt i) = some i' ∧ F'.record i' = F.record i) ∧
      F'.reachable.map F'.idAt = F.reachable.map F.idAt ∧
      F'.text = F.text ∧
      (∀ add features, F'.scoreWith add features = F.scoreWith add features) ∧
      (∀ features, F'.score features = F.score features) ∧
      (more = [] →
        (F'.findCycle? = none ↔ F.findCycle? = none) ∧ F'.branchCount = F.branchCount ∧
          F'.featureIds = F.featureIds) := by
  obtain ⟨F', hload', hperm, hroot⟩ := exists_load_of_rearranges hload hdistinct h checkHeader
  obtain ⟨f, hf, hrootAt⟩ := exists_embeds_of_rearranges hperm hroot
  have hscore : ∀ add features, F'.scoreWith add features = F.scoreWith add features := by
    intro add features
    exact (hf.scoreWith_eq hrootAt add features).symm
  refine ⟨F', hload', hroot, ?_, ?_, hf.text_eq hrootAt, hscore, ?_, ?_⟩
  · intro i
    have hid : F.idAt i = F'.idAt (f i) := (hf.idAt_eq i).symm
    refine ⟨f i, ?_, hf.record_eq i⟩
    rw [hid]
    exact F'.indexOf?_idAt (f i)
  · have hids : (fun i => F'.idAt (f i)) = F.idAt := funext hf.idAt_eq
    rw [hf.reachable_eq hrootAt, List.map_map, Function.comp_def, hids]
  · intro features
    rw [score, score, hscore]
  · rintro rfl
    have hsame : F'.records.Perm F.records := by
      simpa using hperm
    exact ⟨findCycle?_eq_none_iff_of_perm hsame hf, branchCount_of_perm hsame,
      featureIds_of_perm hsame⟩

/-! ### A leaf that nothing leads to -/

/-- Node 1 goes on at node 2 or at node 3. -/
def inOrder : List UInt8 :=
  Utf8.encode "dtree\n1\t0.5\t5:2:3\n2\t1\t\n3\t2\t\n"

/-- A node that goes on at itself and at node 2. -/
def extraLine : List UInt8 :=
  Utf8.encode "9\t7\t1:9:2"

/-- The nodes of `inOrder` with the last one second, and the extra one before it. -/
def outOfOrder : List UInt8 :=
  Utf8.encode "dtree\n1\t0.5\t5:2:3\n" ++ extraLine ++ Utf8.encode "\n3\t2\t\n2\t1\t\n"

theorem rearranges_outOfOrder : Model.Rearranges inOrder outOfOrder [extraLine] where
  first := by decide +kernel
  rest := by decide +kernel
  isNode := by decide +kernel
  distinct := by decide +kernel
  fresh := by decide +kernel
  closed := by
    have hnodes : [extraLine].filterMap Model.nodeOf? = [⟨9, 7, [⟨1, 9, 2⟩]⟩] := by
      decide +kernel
    have hids : (Model.definitions outOfOrder).map Definition.id = [1, 9, 3, 2] := by
      decide +kernel
    rw [hnodes, hids]
    intro n hn id hid
    rw [List.mem_singleton.1 hn] at hid
    have htarget : id = 9 ∨ id = 2 := by
      simpa [Node.targets, Branch.targets] using hid
    rcases htarget with rfl | rfl <;> decide

theorem load_rearranged_outOfOrder :
    ((Model.definitions inOrder).map Definition.id).Nodup ∧
      Model.Rearranges inOrder outOfOrder [extraLine] ∧
      ∃ F F', (load {} inOrder).result = .ok F ∧
        (load { rejectCycles := false, checkHeader := true } outOfOrder).result = .ok F' ∧
        F'.idAt F'.root = 1 ∧ F'.text = F.text ∧ F'.score #[5] = F.score #[5] := by
  have hdistinct : ((Model.definitions inOrder).map Definition.id).Nodup := by
    decide +kernel
  have hload : (load {} inOrder).result.isOk = true := by
    decide +kernel
  obtain ⟨F, hF⟩ := exists_eq_ok hload
  obtain ⟨F', hF', hroot, _, _, htext, _, hscore, _⟩ :=
    load_rearranged hF hdistinct rearranges_outOfOrder true
  have hfirst : F.idAt F.root = 1 := by
    have hhead := idAt_root_of_load hF
    have hone : (Model.definitions inOrder).head?.map Definition.id = some 1 := by
      decide +kernel
    exact Option.some.inj (hhead.symm.trans hone)
  exact ⟨hdistinct, rearranges_outOfOrder, F, F', hF, hF', hroot.trans hfirst, htext, hscore #[5]⟩

end Forest
end DecisionForest

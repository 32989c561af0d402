import DecisionForest.Proofs.Forest.Cycle
import DecisionForest.Proofs.Forest.Embedding
import DecisionForest.Proofs.Forest.Reachable
import DecisionForest.Proofs.Forest.Redefinitions
import DecisionForest.Proofs.Model.RoundTrip

/-!
# Written forests load again

The text of a forest defines each node that the root reaches once, and names no others. So it loads,
whatever the forest, and what is loaded is the part of the forest that the root reaches, in the
order in which it was written, with base values as their digits say.

- `Forest.definitions_text` is what the lines of the text define,
- `Forest.exists_load_text` loads it,
- `Forest.exists_embeds` places the loaded forest in the one that was written,
- `Forest.load_text_exact` puts this together: contents, scores and refused cycles.
-/

namespace DecisionForest
namespace Forest

variable (F : Forest)

/-! ## The lines of the text -/

/-- What the text of a forest defines, with the numbers of the lines. -/
def writtenDefinitions : List Definition :=
  Model.writtenDefinitions 2 (F.reachable.map F.record)

theorem lines_text :
    Text.lines (Utf8.encode F.text) =
      Utf8.ascii modelHeader.toList ::
        (F.reachable.map F.record).map fun n => Utf8.ascii (NodeLine.write n) := by
  have hlines : ∀ l ∈ F.lines, ∀ c ∈ l, c.toNat < 0x80 ∧ Text.isReturn c = false := by
    intro l hl c hc
    rcases List.mem_cons.1 hl with rfl | hl
    · have hheader : ∀ c ∈ modelHeader.toList, c.toNat < 0x80 ∧ Text.isReturn c = false :=
        List.all_iff_forall_prop.1 (by decide)
      exact hheader c hc
    · rcases List.mem_map.1 hl with ⟨i, _, rfl⟩
      exact NodeLine.ascii_of_mem_write hc
  calc
    Text.lines (Utf8.encode F.text) = F.lines.map Utf8.ascii := Text.lines_encode hlines
    _ = Utf8.ascii modelHeader.toList ::
          (F.reachable.map F.record).map fun n => Utf8.ascii (NodeLine.write n) := by
        simp [lines, Function.comp_def]

theorem definitions_text :
    Model.scan 2 ((F.reachable.map F.record).map fun n => Utf8.ascii (NodeLine.write n)) =
      { definitions := F.writtenDefinitions, error? := none } :=
  Model.scan_write 2 _

theorem map_node_writtenDefinitions :
    F.writtenDefinitions.map Definition.node =
      F.reachable.map fun i => (F.record i).mapBase reread := by
  rw [writtenDefinitions, Model.map_node_writtenDefinitions, List.map_map]
  rfl

theorem map_id_writtenDefinitions :
    F.writtenDefinitions.map Definition.id = F.reachable.map F.idAt := by
  calc
    F.writtenDefinitions.map Definition.id =
        (F.writtenDefinitions.map Definition.node).map Node.id := by
      rw [List.map_map]
      rfl
    _ = F.reachable.map F.idAt := by
      rw [map_node_writtenDefinitions, List.map_map]
      rfl

/-- No id is written twice. -/
theorem nodup_writtenDefinitions : (F.writtenDefinitions.map Definition.id).Nodup := by
  rw [map_id_writtenDefinitions]
  exact F.nodup_reachable.map F.idAt_injective

/-- Every id that is named is written. -/
theorem targets_writtenDefinitions {d : Definition} (hd : d ∈ F.writtenDefinitions) :
    ∀ id ∈ d.node.targets, id ∈ F.writtenDefinitions.map Definition.id := by
  intro id hid
  have hnode : d.node ∈ F.writtenDefinitions.map Definition.node := List.mem_map_of_mem hd
  rw [map_node_writtenDefinitions] at hnode
  rcases List.mem_map.1 hnode with ⟨i, hi, hrecord⟩
  have htargets : d.node.targets = (F.targets i).map F.idAt := by
    rw [← hrecord]
    exact Node.targets_map F.idAt (F.node i)
  rw [htargets] at hid
  rcases List.mem_map.1 hid with ⟨j, hj, rfl⟩
  rw [map_id_writtenDefinitions]
  apply List.mem_map_of_mem
  -- What a reached position goes on at is reached.
  have hreach : F.Reaches F.root i := mem_reachable_iff.1 hi
  exact mem_reachable_iff.2 (hreach.tail (F.mem_targets_iff.1 hj))

/-! ## Loading the text -/

theorem load_text_result (o : LoadOptions) :
    (loadText o F.text).result =
      (ofDefinitions o F.writtenDefinitions).mapError Error.model := by
  rw [loadText, load_result, lines_text, ofDefinitions, ← definitions_text]

theorem exists_load_text :
    ∃ G, ofCatalog (Catalog.ofList F.writtenDefinitions) = .ok G ∧
      G.records = F.reachable.map fun i => (F.record i).mapBase reread := by
  -- There is a node, as the root reaches itself.
  have hne : F.writtenDefinitions ≠ [] := by
    intro hnil
    obtain ⟨rest, hrest⟩ := F.reachable_eq_cons
    have hids := F.map_id_writtenDefinitions
    rw [hnil, hrest] at hids
    cases hids
  obtain ⟨G, hG, hrecords⟩ := exists_ofCatalog_of_distinct F.nodup_writtenDefinitions hne
    fun d hd => F.targets_writtenDefinitions hd
  exact ⟨G, hG, hrecords.trans F.map_node_writtenDefinitions⟩

/-- No line of the text defines a node again. -/
theorem redefinition_not_mem_events (o : LoadOptions) (id : NodeId) (line former : Nat) :
    .redefinition id line former ∉ (loadText o F.text).events := by
  have hnone : Catalog.redefinitions .empty F.writtenDefinitions = [] :=
    Catalog.redefinitions_eq_nil .empty F.nodup_writtenDefinitions
  intro hmem
  have hreported : .redefinition id line former ∈
      (loadText o F.text).events.filter Event.isRedefinition := List.mem_filter.2 ⟨hmem, rfl⟩
  rw [loadText, filter_load_events o F.lines_text, definitions_text, hnone] at hreported
  cases hreported

/-! ## The loaded forest in the written one -/

variable {F} {G : Forest}

theorem exists_embeds
    (h : G.records = F.reachable.map fun i => (F.record i).mapBase reread) :
    ∃ f : Fin G.size → Fin F.size,
      Embeds G (F.mapBase reread) f ∧ ∀ i, (∃ k, f k = i) ↔ i ∈ F.reachable := by
  have hposition : ∀ k, ∃ i ∈ F.reachable, (F.mapBase reread).record i = G.record k := by
    intro k
    have hmem : G.record k ∈ G.records := List.mem_map_of_mem (List.mem_finRange k)
    rw [h] at hmem
    rcases List.mem_map.1 hmem with ⟨i, hi, hrecord⟩
    exact ⟨i, hi, (F.record_mapBase reread i).trans hrecord⟩
  choose f hreached hrecord using hposition
  refine ⟨f, embeds_of_record hrecord, fun i => ⟨?_, ?_⟩⟩
  · rintro ⟨k, rfl⟩
    exact hreached k
  · intro hi
    have hmem : (F.record i).mapBase reread ∈ G.records := by
      rw [h]
      exact List.mem_map_of_mem hi
    rcases List.mem_map.1 hmem with ⟨k, _, hk⟩
    refine ⟨k, F.idAt_injective ?_⟩
    -- Both positions have the id of the node at `k`.
    have hid : (F.mapBase reread).idAt (f k) = (G.record k).id := congrArg Node.id (hrecord k)
    rw [hk, idAt_mapBase] at hid
    exact hid

theorem root_of_records (hroot : G.root.val = 0)
    (h : G.records = F.reachable.map fun i => (F.record i).mapBase reread) :
    G.idAt G.root = F.idAt F.root := by
  rcases F.reachable_eq_cons with ⟨rest, hrest⟩
  have hfirst : G.ids.head? = some (F.idAt F.root) := by
    rw [G.ids_eq_map_records, h, hrest]
    rfl
  have hget := G.getElem?_ids G.root
  rw [hroot, ← List.head?_eq_getElem?, hfirst] at hget
  exact (Option.some.inj hget).symm

/-- A loader that refuses cycles fails for a cycle that the root leads to, and for no other. -/
theorem load_text_rejectCycles (checkHeader : Bool)
    (hG : ofCatalog (Catalog.ofList F.writtenDefinitions) = .ok G) {f : Fin G.size → Fin F.size}
    (h : Embeds G (F.mapBase reread) f) (hrange : ∀ i, (∃ k, f k = i) ↔ i ∈ F.reachable) :
    (∃ e, (loadText { rejectCycles := true, checkHeader } F.text).result = .error e) ↔
      ∃ i, F.Reaches F.root i ∧ F.OnCycle i := by
  -- The cycles of the loaded forest are those of the written one that were written.
  have hcycle : (∀ k, ¬ G.OnCycle k) ↔ ∀ i ∈ F.reachable, ¬ F.OnCycle i := by
    constructor
    · intro hnone i hi
      rcases (hrange i).2 hi with ⟨k, rfl⟩
      rw [← F.onCycle_mapBase reread, h.onCycle_iff]
      exact hnone k
    · intro hnone k
      rw [← h.onCycle_iff, F.onCycle_mapBase reread]
      exact hnone (f k) ((hrange (f k)).1 ⟨k, rfl⟩)
  rw [exists_eq_error_iff, load_text_result]
  constructor
  · intro hfail
    by_contra hno
    have hnone : G.findCycle? = none := by
      rw [findCycle?_eq_none_iff, hcycle]
      intro i hi hcycle
      exact hno ⟨i, mem_reachable_iff.1 hi, hcycle⟩
    exact hfail G (mapError_eq_ok_iff.2 (ofDefinitions_eq_ok_iff.2 ⟨hG, hnone⟩))
  · rintro ⟨i, hreach, hi⟩ G' hG'
    rcases ofDefinitions_eq_ok_iff.1 (mapError_eq_ok_iff.1 hG') with ⟨hcatalog, hnone⟩
    rw [hG] at hcatalog
    cases hcatalog
    exact hcycle.1 (findCycle?_eq_none_iff.1 hnone) i (mem_reachable_iff.2 hreach) hi

/--
The text of any forest loads without an id being defined twice, to the nodes that the root reaches,
each once, in the order of `reachable`, with base values reread. The loaded forest has the scores of
the written one with base values reread, for any way to add and any row, and has one wherever the
written one has. A loader that refuses cycles fails on the text exactly if the root leads to a
cycle.
-/
theorem load_text_exact (F : Forest) (checkHeader : Bool) :
    ∃ G, (loadText { rejectCycles := false, checkHeader } F.text).result = .ok G ∧
      (∀ id line former, Event.redefinition id line former ∉
        (loadText { rejectCycles := false, checkHeader } F.text).events) ∧
      G.root.val = 0 ∧
      G.records = F.reachable.map (fun i => (F.record i).mapBase reread) ∧
      (F.reachable.Nodup ∧ ∀ i, i ∈ F.reachable ↔ F.Reaches F.root i) ∧
      (∀ add features,
        G.scoreWith add features = (F.mapBase reread).scoreWith add features ∧
          (G.scoreWith add features).isSome = (F.scoreWith add features).isSome) ∧
      (∀ features, G.score features = (F.mapBase reread).score features) ∧
      ((∃ e, (loadText { rejectCycles := true, checkHeader } F.text).result = .error e) ↔
        ∃ i, F.Reaches F.root i ∧ F.OnCycle i) := by
  rcases F.exists_load_text with ⟨G, hG, hrecords⟩
  have hroot : G.root.val = 0 := root_of_ofCatalog hG
  rcases exists_embeds hrecords with ⟨f, hembeds, hrange⟩
  have hposition : f G.root = F.root := by
    apply F.idAt_injective
    calc
      F.idAt (f G.root) = (F.mapBase reread).idAt (f G.root) := (F.idAt_mapBase reread _).symm
      _ = G.idAt G.root := hembeds.idAt_eq G.root
      _ = F.idAt F.root := root_of_records hroot hrecords
  have hscore : ∀ add features,
      G.scoreWith add features = (F.mapBase reread).scoreWith add features :=
    hembeds.scoreWith_eq hposition
  refine ⟨G, ?_, F.redefinition_not_mem_events _, hroot, hrecords, ?_, ?_, ?_, ?_⟩
  · rw [load_text_result, mapError_eq_ok_iff, ofDefinitions_eq_ok_iff]
    exact ⟨hG, rfl⟩
  · exact ⟨nodup_reachable, fun i => mem_reachable_iff⟩
  · intro add features
    refine ⟨hscore add features, ?_⟩
    rw [hscore, isSome_scoreWith_mapBase]
  · intro features
    rw [score, score, hscore]
  · exact load_text_rejectCycles checkHeader hG hembeds hrange

end Forest
end DecisionForest

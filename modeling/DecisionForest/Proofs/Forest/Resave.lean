import DecisionForest.Proofs.Forest.RoundTrip
import DecisionForest.Proofs.Forest.Traversal
import DecisionForest.Proofs.Number.Reread

/-!
# Saving what was loaded from a saved forest

Written base values are rounded, so a forest that is loaded from the text of another one need not be
the part of it that was written. But it has the same text again, and so it is loaded from its own
text.

- `NodeLine.write_mapBase_reread` says that a reread node is written alike,
- `Forest.text_mapBase_reread` says so of a whole forest,
- `Forest.resave_exact` is about the forest loaded from a text, its own text and its base values.
-/

namespace DecisionForest

theorem NodeLine.write_mapBase_reread (n : Node NodeId) : write (n.mapBase reread) = write n := by
  have hbase : writeFixed basePlaces (n.mapBase reread).base = writeFixed basePlaces n.base :=
    writeFixed_reread n.base
  rw [write, hbase]
  rfl

namespace Forest

variable {F G : Forest}

/-! ## Texts -/

theorem text_mapBase_reread (F : Forest) : (F.mapBase reread).text = F.text := by
  have hwrite : ∀ i : Fin F.size,
      NodeLine.write ((F.mapBase reread).record i) = NodeLine.write (F.record i) := by
    intro i
    exact (congrArg NodeLine.write (F.record_mapBase reread i)).trans
      (NodeLine.write_mapBase_reread (F.record i))
  have hlines : (F.mapBase reread).lines = F.lines := by
    unfold lines
    rw [F.reachable_mapBase reread]
    exact congrArg (modelHeader.toList :: ·) (List.map_congr_left fun i _ => hwrite i)
  rw [text, hlines]
  rfl

/-- The root of the loaded forest stands for the root of the written one. -/
theorem root_of_embeds {f : Fin G.size → Fin F.size} (h : Embeds G (F.mapBase reread) f)
    (hroot : G.root.val = 0)
    (hrecords : G.records = F.reachable.map fun i => (F.record i).mapBase reread) :
    f G.root = F.root := by
  apply F.idAt_injective
  calc
    F.idAt (f G.root) = (F.mapBase reread).idAt (f G.root) := (F.idAt_mapBase reread _).symm
    _ = G.idAt G.root := h.idAt_eq G.root
    _ = F.idAt F.root := root_of_records hroot hrecords

/-! ## Loading and saving -/

/-- A written node is found again by its id, with the same branches and a base value near by. -/
theorem exists_node_of_embeds {f : Fin G.size → Fin F.size} (h : Embeds G (F.mapBase reread) f)
    (k : Fin G.size) :
    G.indexOf? (F.idAt (f k)) = some k ∧ (G.record k).branches = (F.record (f k)).branches ∧
      Datum.Near (1 / 10 ^ 7) (Datum.ofFloat (F.node (f k)).base)
        (Datum.ofFloat (G.node k).base) := by
  have hrecord : G.record k = (F.record (f k)).mapBase reread :=
    (h.record_eq k).symm.trans (F.record_mapBase reread (f k))
  have hid : G.idAt k = F.idAt (f k) := congrArg Node.id hrecord
  have hbase : (G.node k).base = reread (F.node (f k)).base := congrArg Node.base hrecord
  refine ⟨?_, ?_, ?_⟩
  · rw [← hid]
    exact G.indexOf?_idAt k
  · rw [hrecord]
    rfl
  · rw [hbase]
    exact near_reread (F.node (f k)).base

/--
The text of any forest loads, to the same forest whatever else the loader looks at. That forest has
the same text, byte for byte, so it is what its own text loads to. It has each node that the root of
the first one reaches, with the same branches and a base value of the same kind and sign, which is off
by `10⁻⁷` at most if it is finite.
-/
theorem resave_exact (F : Forest) :
    ∃ G : Forest,
      (∀ checkHeader, (loadText { rejectCycles := false, checkHeader } F.text).result = .ok G) ∧
      (∀ o H, (loadText o F.text).result = .ok H → H = G) ∧
      G.text = F.text ∧
      (∀ checkHeader, (loadText { rejectCycles := false, checkHeader } G.text).result = .ok G) ∧
      ∀ i, F.Reaches F.root i →
        ∃ k, G.indexOf? (F.idAt i) = some k ∧ (G.record k).branches = (F.record i).branches ∧
          Datum.Near (1 / 10 ^ 7) (Datum.ofFloat (F.node i).base)
            (Datum.ofFloat (G.node k).base) := by
  obtain ⟨G, hG, hrecords⟩ := F.exists_load_text
  obtain ⟨f, hembeds, hrange⟩ := exists_embeds hrecords
  have hroot : f G.root = F.root := root_of_embeds hembeds (root_of_ofCatalog hG) hrecords
  have hload : ∀ checkHeader,
      (loadText { rejectCycles := false, checkHeader } F.text).result = .ok G := by
    intro checkHeader
    rw [load_text_result, mapError_eq_ok_iff, ofDefinitions_eq_ok_iff]
    exact ⟨hG, rfl⟩
  have htext : G.text = F.text :=
    calc
      G.text = (F.mapBase reread).text := (hembeds.text_eq hroot).symm
      _ = F.text := F.text_mapBase_reread
  refine ⟨G, hload, ?_, htext, ?_, ?_⟩
  · intro o H hH
    rw [load_text_result, mapError_eq_ok_iff, ofDefinitions_eq_ok_iff, hG] at hH
    exact (Except.ok.inj hH.1).symm
  · intro checkHeader
    rw [htext]
    exact hload checkHeader
  · intro i hi
    obtain ⟨k, rfl⟩ := (hrange i).2 (mem_reachable_iff.2 hi)
    exact ⟨k, exists_node_of_embeds hembeds k⟩

end Forest
end DecisionForest

import DecisionForest.Proofs.Model.Grammar
import DecisionForest.Proofs.Model.Lines
import DecisionForest.Proofs.Model.Node
import DecisionForest.Proofs.Number.RoundTrip

/-!
# Written node lines read back

What is written for a node is the text of a node by the grammar of node lines, so it is read as one.

- `NodeLine.nodeText_write` is the node that a written line is the text of: all is as in the node that
  was written, but for the base value, which is the one that its digits stand for,
- `Text.lines_encode` cuts the bytes of a text into its lines,
- `Model.scan_write` reads node after node.
-/

namespace DecisionForest

/-- Line ends are not plain. -/
theorem IsPlain.isReturn_eq_false {c : Char} (h : IsPlain c) : Text.isReturn c = false := by
  rw [Bool.eq_false_iff, ne_eq, Text.isReturn_iff]
  rintro (rfl | rfl)
  · exact h.2 (by decide)
  · exact h.2 (by decide)

namespace NodeLine

/-! ## Node lines -/

theorem nodeText_write (n : Node NodeId) : NodeText (write n) (n.mapBase reread) :=
  nodeText_join (Numeral.denotes_digits _) (literal_writeFixed n.base)
    (branchesText_writeBranches n.branches)

theorem read_write (n : Node NodeId) : read (write n) = .ok (n.mapBase reread) :=
  read_eq_ok_iff.2 (nodeText_write n)

theorem write_ne_nil (n : Node NodeId) : write n ≠ [] := by
  have hdigits : Numeral.digits n.id.toNat ≠ [] := Nat.toDigits_ne_nil
  simp [write, hdigits]

/-- A node line is one line of ASCII. -/
theorem ascii_of_mem_write {n : Node NodeId} {c : Char} (h : c ∈ write n) :
    c.toNat < 0x80 ∧ Text.isReturn c = false := by
  rcases (nodeText_write n).writtenWith c h with hplain | hseparator
  · exact ⟨hplain.1, hplain.isReturn_eq_false⟩
  · have hall : ∀ c ∈ [fieldSeparator, branchSeparator, partSeparator],
        c.toNat < 0x80 ∧ Text.isReturn c = false :=
      List.all_iff_forall_prop.1 (by decide)
    exact hall c hseparator

end NodeLine

/-! ## Lines of a text -/

namespace Text

theorem lines_flatMap {ls : List (List UInt8)} (h : ∀ l ∈ ls, 0x0A ∉ l) :
    lines (ls.flatMap (· ++ [0x0A])) = ls := by
  -- Line feeds that end lines separate them from one another and from an empty rest.
  have hends : ls.flatMap (· ++ [0x0A]) = [0x0A].intercalate (ls ++ [[]]) := by
    induction ls with
    | nil =>
        rfl
    | cons l rest ih =>
        have hrest := ih fun l hl => h l (List.mem_cons_of_mem _ hl)
        rw [List.flatMap_cons, hrest, List.cons_append,
          List.intercalate_cons_of_ne_nil (by simp)]
  have hparts : ([0x0A].intercalate (ls ++ [[]])).splitOn 0x0A = ls ++ [[]] := by
    apply List.splitOn_intercalate
    · intro l hl
      rcases List.mem_append.1 hl with hmem | hlast
      · exact h l hmem
      · rw [List.mem_singleton.1 hlast]
        exact List.not_mem_nil
    · simp
  unfold lines
  rw [hends, hparts]
  simp

/-- The bytes of a text of ASCII lines, each ended by a line feed. -/
theorem lines_encode {ls : List (List Char)}
    (h : ∀ l ∈ ls, ∀ c ∈ l, c.toNat < 0x80 ∧ isReturn c = false) :
    lines (Utf8.encode (String.ofList (ls.flatMap (· ++ ['\n'])))) = ls.map Utf8.ascii := by
  have hascii : ∀ c ∈ ls.flatMap (· ++ ['\n']), c.toNat < 0x80 := by
    intro c hc
    rcases List.mem_flatMap.1 hc with ⟨l, hl, hmem⟩
    rcases List.mem_append.1 hmem with hinside | hend
    · exact (h l hl c hinside).1
    · rw [List.mem_singleton.1 hend]
      decide
  have hbytes : Utf8.ascii (ls.flatMap (· ++ ['\n'])) =
      (ls.map Utf8.ascii).flatMap (· ++ [0x0A]) := by
    simp only [Utf8.ascii, List.map_flatMap, List.flatMap_map, List.map_append]
    rfl
  have hfree : ∀ l ∈ ls.map Utf8.ascii, 0x0A ∉ l := by
    intro l hl hmem
    rcases List.mem_map.1 hl with ⟨cs, hcs, rfl⟩
    rcases List.mem_map.1 hmem with ⟨c, hc, hfeed⟩
    have hval : c.toNat = 0x0A := by
      rw [← Utf8.toNat_ofNat_ascii (h cs hcs c hc).1, hfeed]
      rfl
    have hnewline : c = '\n' := Char.toNat_inj.1 hval
    have hreturn := (h cs hcs c hc).2
    rw [hnewline] at hreturn
    cases hreturn
  rw [Utf8.encode_eq_ascii hascii, hbytes, lines_flatMap hfree]

theorem dropReturns_eq_self {cs : List Char} (h : ∀ c ∈ cs, isReturn c = false) :
    dropReturns cs = cs := by
  have hreverse : cs.reverse.dropWhile isReturn = cs.reverse := by
    cases hcs : cs.reverse with
    | nil =>
        rfl
    | cons c rest =>
        have hmem : c ∈ cs := by
          rw [← List.mem_reverse, hcs]
          exact List.mem_cons_self
        rw [List.dropWhile_cons_of_neg]
        simp [h c hmem]
  rw [dropReturns, hreverse, List.reverse_reverse]

end Text

/-! ## Node after node -/

namespace Model

theorem readLine_write (number : Nat) (n : Node NodeId) :
    readLine number (Utf8.ascii (NodeLine.write n)) =
      .ok (some { line := number, node := n.mapBase reread }) := by
  have hdecode : Utf8.decode? (Utf8.ascii (NodeLine.write n)) = .ok (NodeLine.write n) :=
    Utf8.decode?_encode_ascii fun _ hc => (NodeLine.ascii_of_mem_write hc).1
  have hcontent : Text.dropReturns (NodeLine.write n) = NodeLine.write n :=
    Text.dropReturns_eq_self fun _ hc => (NodeLine.ascii_of_mem_write hc).2
  unfold readLine
  simp only [hdecode, hcontent, NodeLine.write_ne_nil, if_false, NodeLine.read_write]

/-- What the written lines of some nodes define, counting lines from `number`. -/
def writtenDefinitions (number : Nat) (nodes : List (Node NodeId)) : List Definition :=
  (nodes.zipIdx number).map fun line => { line := line.2, node := line.1.mapBase reread }

theorem scan_write (number : Nat) (nodes : List (Node NodeId)) :
    scan number (nodes.map fun n => Utf8.ascii (NodeLine.write n)) =
      { definitions := writtenDefinitions number nodes, error? := none } := by
  induction nodes generalizing number with
  | nil =>
      rfl
  | cons n rest ih =>
      rw [List.map_cons, scan, readLine_write]
      simp only [ih]
      rfl

theorem map_node_writtenDefinitions (number : Nat) (nodes : List (Node NodeId)) :
    (writtenDefinitions number nodes).map Definition.node = nodes.map (Node.mapBase reread) := by
  induction nodes generalizing number with
  | nil =>
      rfl
  | cons n rest ih =>
      exact congrArg (n.mapBase reread :: ·) (ih (number + 1))

end Model
end DecisionForest

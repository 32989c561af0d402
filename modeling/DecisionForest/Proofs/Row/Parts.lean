import DecisionForest.Proofs.Row.Cursor

/-!
# Rows of a stream in parts

A stream that is put together from parts gives what the parts give, in order: a part changes nothing
about the others but the numbers by which errors call the lines below it.

- `Rows.movedBy` is an item of a line that comes later by a number of lines,
- `Rows.rowsOf` lists the rows among the items; `Rows.rowsOf_eq` reads them off the lines one by one,
- `Rows.items_of_parts` is a stream in two parts, read turn by turn, line by line or all at once.
-/

namespace DecisionForest
namespace Rows

variable {offset : FeatureId} {counted k : Nat} {a b raw : List UInt8} {stream stream' : List UInt8}

/-! ## Later lines -/

/-- The error about a line that comes later by a number of lines. -/
def moveError (k : Nat) : Error → Error
  | .rows (.line number fault) => .rows (.line (number + k) fault)
  | e => e

def movedBy (k : Nat) : Except Error Row → Except Error Row :=
  Except.mapError (moveError k)

theorem toOption_movedBy (k : Nat) (x : Except Error Row) : (movedBy k x).toOption = x.toOption := by
  cases x <;> rfl

theorem item?_readLine_add (offset : FeatureId) (number k : Nat) (raw : List UInt8) :
    item? (readLine offset (number + k) raw) =
      (item? (readLine offset number raw)).map (movedBy k) := by
  unfold readLine
  cases Utf8.decode? raw with
  | error position =>
      rfl
  | ok cs =>
      dsimp only
      cases RowLine.read offset cs with
      | error fault =>
          rfl
      | ok row? =>
          cases row? <;> rfl

theorem itemsFrom_add (offset : FeatureId) (counted k : Nat) (lines : List (List UInt8)) :
    itemsFrom offset (counted + k) lines = (itemsFrom offset counted lines).map (movedBy k) := by
  induction lines generalizing counted with
  | nil =>
      rfl
  | cons raw rest ih =>
      have hnumber : counted + k + 1 = counted + 1 + k := by omega
      have hcounted : counted + k + [raw].countP isText = counted + [raw].countP isText + k := by
        omega
      rw [itemsFrom_cons, itemsFrom_cons, hnumber, hcounted, ih, item?_readLine_add,
        List.map_append, Option.toList_map]

/-- Below a part without a line that is cut short, all lines are as they were. -/
theorem items_append (offset : FeatureId) (ha : Text.IsWhole a) (b : List UInt8) :
    items offset (a ++ b) =
      items offset a ++ (items offset b).map (movedBy ((Text.lines a).countP isText)) := by
  rw [items, Text.lines_append ha, itemsFrom_append, itemsFrom_add]
  rfl

/-! ## Line by line -/

/-- What a line adds: one item, or none if it is silent. It is the same item that the line gives as a
stream of its own, but for the number. -/
def Adds (offset : FeatureId) (raw : List UInt8) (part : List (Except Error Row)) : Prop :=
  part.length = (if isSilent raw then 0 else 1) ∧
    ∃ k, part = (items offset (raw ++ [0x0A])).map (movedBy k)

theorem length_item? (offset : FeatureId) (number : Nat) (raw : List UInt8) :
    (item? (readLine offset number raw)).toList.length = if isSilent raw then 0 else 1 := by
  by_cases hsilent : isSilent raw = true
  · rw [if_pos hsilent, readLine_eq_ok_none_iff.2 hsilent]
    rfl
  · have hloud : readLine offset number raw ≠ .ok none := mt readLine_eq_ok_none_iff.1 hsilent
    rw [if_neg hsilent]
    rcases hread : readLine offset number raw with e | _ | row
    · rfl
    · exact absurd hread hloud
    · rfl

theorem items_line (offset : FeatureId) (h : 0x0A ∉ raw) :
    items offset (raw ++ [0x0A]) = (item? (readLine offset 1 raw)).toList := by
  rw [items, Text.lines_header h, Text.lines_nil, itemsFrom_cons, itemsFrom, List.append_nil]

theorem adds_item? (offset : FeatureId) (number : Nat) (h : 0x0A ∉ raw) :
    Adds offset raw (item? (readLine offset (number + 1) raw)).toList := by
  refine ⟨length_item? offset _ raw, number, ?_⟩
  rw [items_line offset h, Nat.add_comm, item?_readLine_add, Option.toList_map]

theorem exists_parts (offset : FeatureId) (counted : Nat) {lines : List (List UInt8)}
    (h : ∀ raw ∈ lines, 0x0A ∉ raw) :
    ∃ parts, itemsFrom offset counted lines = parts.flatten ∧
      List.Forall₂ (Adds offset) lines parts := by
  induction lines generalizing counted with
  | nil =>
      exact ⟨[], rfl, .nil⟩
  | cons raw rest ih =>
      obtain ⟨parts, hitems, hparts⟩ :=
        ih (counted + [raw].countP isText) fun line hline => h line (by simp [hline])
      have hraw := adds_item? offset counted (h raw (by simp))
      exact ⟨_ :: parts, by rw [itemsFrom_cons, hitems, List.flatten_cons], .cons hraw hparts⟩

/-! ## Rows alone -/

def rowsOf (offset : FeatureId) (stream : List UInt8) : List Row :=
  (items offset stream).filterMap Except.toOption

/-- The row that a line is, if it is one. -/
def row? (offset : FeatureId) (raw : List UInt8) : Option Row :=
  (item? (readLine offset 1 raw)).bind Except.toOption

theorem row?_of_silent (h : isSilent raw = true) : row? offset raw = none := by
  rw [row?, readLine_eq_ok_none_iff.2 h]
  rfl

theorem row?_of_faulty {number : Nat} {e : Error} (h : Faulty offset (raw, number) e) :
    row? offset raw = none := by
  rcases h with hcs | ⟨hcs, hread⟩
  · rw [row?, readLine, hcs]
    rfl
  · rw [row?, readLine, hcs]
    simp [hread, Except.mapError, item?, Except.toOption]

theorem toOption_item? (offset : FeatureId) (number : Nat) (raw : List UInt8) :
    (item? (readLine offset (number + 1) raw)).bind Except.toOption = row? offset raw := by
  rw [Nat.add_comm, item?_readLine_add, Option.bind_map, row?]
  congr 1
  funext x
  exact toOption_movedBy number x

theorem filterMap_itemsFrom (offset : FeatureId) (counted : Nat) (lines : List (List UInt8)) :
    (itemsFrom offset counted lines).filterMap Except.toOption = lines.filterMap (row? offset) := by
  induction lines generalizing counted with
  | nil =>
      rfl
  | cons raw rest ih =>
      rw [itemsFrom_cons, List.filterMap_append, ih, List.filterMap_cons,
        ← toOption_item? offset counted raw]
      cases item? (readLine offset (counted + 1) raw) with
      | none =>
          rfl
      | some x =>
          cases x <;> rfl

/-- No line has a say in what rows the others are. -/
theorem rowsOf_eq (offset : FeatureId) (stream : List UInt8) :
    rowsOf offset stream = (Text.lines stream).filterMap (row? offset) :=
  filterMap_itemsFrom offset 0 (Text.lines stream)

theorem rowsOf_append (offset : FeatureId) (ha : Text.IsWhole a) (b : List UInt8) :
    rowsOf offset (a ++ b) = rowsOf offset a ++ rowsOf offset b := by
  simp only [rowsOf_eq, Text.lines_append ha, List.filterMap_append]

theorem rowsOf_of_silent (h : ∀ raw ∈ Text.lines stream, isSilent raw = true) :
    rowsOf offset stream = [] := by
  rw [rowsOf_eq, List.filterMap_eq_nil_iff]
  intro raw hraw
  exact row?_of_silent (h raw hraw)

theorem readAll_eq_ok_rowsOf_iff :
    readAll offset stream = .ok (rowsOf offset stream) ↔
      ∀ line ∈ numbered stream, ∀ e, ¬ Faulty offset line e := by
  rw [← exists_readAll_eq_ok_iff]
  constructor
  · intro h
    exact ⟨_, h⟩
  · rintro ⟨rows, hrows⟩
    have hall : rowsOf offset stream = rows := by
      rw [rowsOf, readAll_eq_ok_iff.1 hrows, List.filterMap_map]
      exact List.filterMap_some
    rw [hall, hrows]

/-! ## All of it -/

/-- A stream in two parts, the first of which ends where a line does. Reading any stream comes to an
end and gives its items, which are those of the first part followed by those of the second, with the
numbers moved. Every line adds one item unless it is silent; silent lines between the parts change no
row, and a line with an error there takes none away. All rows are read if no line is faulty, and the
first faulty line decides otherwise. -/
theorem items_of_parts (offset : FeatureId) {a : List UInt8} (ha : Text.IsWhole a)
    (b : List UInt8) :
    (∀ stream xs, Cursor.Yields offset (.start stream) xs ↔ xs = items offset stream) ∧
      items offset (a ++ b) =
        items offset a ++ (items offset b).map (movedBy ((Text.lines a).countP isText)) ∧
      (∀ stream, ∃ parts, items offset stream = parts.flatten ∧
        List.Forall₂ (Adds offset) (Text.lines stream) parts) ∧
      (∀ between, Text.IsWhole between → (∀ raw ∈ Text.lines between, isSilent raw = true) →
        rowsOf offset (a ++ (between ++ b)) = rowsOf offset (a ++ b)) ∧
      (∀ raw, 0x0A ∉ raw → (∃ e, Faulty offset (raw, 1) e) →
        rowsOf offset (a ++ (raw ++ 0x0A :: b)) = rowsOf offset a ++ rowsOf offset b) ∧
      ∀ stream,
        (readAll offset stream = .ok (rowsOf offset stream) ↔
          ∀ line ∈ numbered stream, ∀ e, ¬ Faulty offset line e) ∧
        ∀ e, readAll offset stream = .error e ↔
          FirstFault (Faulty offset) (numbered stream) e := by
  refine ⟨?turns, items_append offset ha b, ?lines, ?silent, ?faulty, ?all⟩
  case turns =>
    intro stream xs
    exact Cursor.yields_iff
  case lines =>
    intro stream
    exact exists_parts offset 0 fun raw hraw => Text.not_mem_of_mem_lines hraw
  case silent =>
    intro between hbetween hsilent
    rw [rowsOf_append offset ha, rowsOf_append offset hbetween, rowsOf_of_silent hsilent,
      List.nil_append, rowsOf_append offset ha]
  case faulty =>
    rintro raw hraw ⟨e, he⟩
    have hlines : Text.lines (raw ++ 0x0A :: b) = raw :: Text.lines b := Text.lines_header hraw b
    rw [rowsOf_append offset ha, rowsOf_eq offset (raw ++ 0x0A :: b), hlines,
      List.filterMap_cons_none (row?_of_faulty he), ← rowsOf_eq]
  case all =>
    intro stream
    exact ⟨readAll_eq_ok_rowsOf_iff, fun e => readAll_eq_error_iff⟩

/-- The lines `1 0:1` and `0 1:1` as parts, and a comment or the line `x` between them. -/
theorem items_of_parts_two_rows :
    Text.IsWhole (Utf8.ascii "1 0:1\n".toList) ∧
      items 1 (Utf8.ascii "1 0:1\n".toList ++ Utf8.ascii "0 1:1".toList) =
        items 1 (Utf8.ascii "1 0:1\n".toList) ++
          (items 1 (Utf8.ascii "0 1:1".toList)).map (movedBy 1) ∧
      rowsOf 1 (Utf8.ascii "1 0:1\n".toList ++ ([0x23, 0x0A] ++ Utf8.ascii "0 1:1".toList)) =
        rowsOf 1 (Utf8.ascii "1 0:1\n".toList ++ Utf8.ascii "0 1:1".toList) ∧
      rowsOf 1 (Utf8.ascii "1 0:1\n".toList ++ ([0x78] ++ 0x0A :: Utf8.ascii "0 1:1".toList)) =
        rowsOf 1 (Utf8.ascii "1 0:1\n".toList) ++ rowsOf 1 (Utf8.ascii "0 1:1".toList) ∧
      (rowsOf 1 (Utf8.ascii "1 0:1\n".toList ++ Utf8.ascii "0 1:1".toList)).map Row.features =
        [[1], [2]] := by
  have hwhole : Text.IsWhole (Utf8.ascii "1 0:1\n".toList) := by
    right
    decide
  have hsilent : ∀ raw ∈ Text.lines [0x23, 0x0A], isSilent raw = true := by decide
  have hfaulty : ∃ e, Faulty 1 ([0x78], 1) e := ⟨_, @Faulty.text 1 ([0x78], 1) ['x'] _ rfl rfl⟩
  have hcounted : (Text.lines (Utf8.ascii "1 0:1\n".toList)).countP isText = 1 := by
    decide +kernel
  obtain ⟨_, happend, _, hbetween, hfault, _⟩ :=
    items_of_parts 1 hwhole (Utf8.ascii "0 1:1".toList)
  rw [hcounted] at happend
  refine ⟨hwhole, happend, ?_, ?_, ?_⟩
  · exact hbetween [0x23, 0x0A] (Or.inr rfl) hsilent
  · exact hfault [0x78] (by decide) hfaulty
  · decide +kernel

end Rows
end DecisionForest

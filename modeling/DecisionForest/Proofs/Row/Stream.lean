import DecisionForest.Proofs.Row.Line
import DecisionForest.Row.Stream

/-!
# What the lines of a row stream give

Every line of a row stream answers for itself: it is a row, silent or faulty, whatever stands on the
other lines. Only the number by which an error calls a line depends on the lines before it.

- `Rows.isSilent` is a line that is blank or only a comment, `Rows.Gives` one that is a row, and
  `Rows.Faulty` one that is neither, with the error that says so,
- `Rows.items_eq` lists the items of a stream as what each line gives, `Rows.items_numbers` says
  which numbers the errors among them have,
- `Rows.readAll_eq_error_iff` is the first faulty line, `Rows.gives_of_readAll` all rows.
-/

namespace DecisionForest

/-! ## One line -/

namespace Rows

variable {offset : FeatureId} {stream : List UInt8} {raw : List UInt8} {number counted : Nat}

def isText (raw : List UInt8) : Bool :=
  (Utf8.decode? raw).isOk

/-- Blank, or only a comment. -/
def isSilent (raw : List UInt8) : Bool :=
  match Utf8.decode? raw with
  | .error _ => false
  | .ok cs => (cs.takeWhile (· ≠ RowLine.commentMark)).all Text.isBlank

/-- A line that is a row. -/
def Gives (offset : FeatureId) (raw : List UInt8) (row : Row) : Prop :=
  ∃ cs, Utf8.decode? raw = .ok cs ∧ RowLine.read offset cs = .ok (some row)

/-- A numbered line that cannot be read, and the error of it. -/
inductive Faulty (offset : FeatureId) (line : List UInt8 × Nat) : Error → Prop where
  | encoding {position : Nat} : Utf8.decode? line.1 = .error position →
      Faulty offset line (.storage .notText)
  | text {cs : List Char} {fault : RowFault} : Utf8.decode? line.1 = .ok cs →
      RowLine.read offset cs = .error fault → Faulty offset line (.rows (.line line.2 fault))

/-- What a line is when errors call it by a number. -/
def readLine (offset : FeatureId) (number : Nat) (raw : List UInt8) : Except Error (Option Row) :=
  match Utf8.decode? raw with
  | .error _ => .error (.storage .notText)
  | .ok cs => (RowLine.read offset cs).mapError fun fault => .rows (.line number fault)

theorem readLine_eq_ok_iff {row? : Option Row} :
    readLine offset number raw = .ok row? ↔
      ∃ cs, Utf8.decode? raw = .ok cs ∧ RowLine.read offset cs = .ok row? := by
  unfold readLine
  cases Utf8.decode? raw with
  | error position =>
      simp
  | ok cs =>
      simp [mapError_eq_ok_iff]

theorem readLine_eq_ok_none_iff : readLine offset number raw = .ok none ↔ isSilent raw = true := by
  rw [readLine_eq_ok_iff, isSilent]
  cases Utf8.decode? raw with
  | error position =>
      simp
  | ok cs =>
      simp [RowLine.read_eq_ok_none_iff]

theorem readLine_eq_ok_some_iff {row : Row} :
    readLine offset number raw = .ok (some row) ↔ Gives offset raw row :=
  readLine_eq_ok_iff

theorem readLine_eq_error_iff {e : Error} :
    readLine offset number raw = .error e ↔ Faulty offset (raw, number) e := by
  unfold readLine
  constructor
  · intro h
    cases hcs : Utf8.decode? raw with
    | error position =>
        rw [hcs] at h
        cases h
        exact .encoding hcs
    | ok cs =>
        rw [hcs] at h
        rcases mapError_eq_error_iff.1 h with ⟨fault, hread, rfl⟩
        exact .text hcs hread
  · rintro (hcs | ⟨hcs, hread⟩)
    · rw [hcs]
    · rw [hcs]
      exact mapError_eq_error_iff.2 ⟨_, hread, rfl⟩

theorem isSilent_eq_false_of_gives {row : Row} (h : Gives offset raw row) :
    isSilent raw = false := by
  rw [Bool.eq_false_iff, ne_eq, ← @readLine_eq_ok_none_iff offset raw 0,
    readLine_eq_ok_some_iff.2 h]
  simp

theorem isText_of_readLine_eq_ok {row? : Option Row} (h : readLine offset number raw = .ok row?) :
    isText raw = true := by
  rcases readLine_eq_ok_iff.1 h with ⟨cs, hcs, _⟩
  rw [isText, hcs]
  rfl

/-! ## The lines of a stream -/

/-- The item that a line adds, if it adds one. -/
def item? : Except Error (Option Row) → Option (Except Error Row)
  | .ok row? => row?.map .ok
  | .error e => some (.error e)

theorem item?_eq_ok_iff {x : Except Error (Option Row)} {row : Row} :
    item? x = some (.ok row) ↔ x = .ok (some row) := by
  rcases x with e | _ | row' <;> simp [item?]

/-- A line is counted if it is text. -/
theorem itemsFrom_cons (raw : List UInt8) (rest : List (List UInt8)) :
    itemsFrom offset counted (raw :: rest) =
      (item? (readLine offset (counted + 1) raw)).toList ++
        itemsFrom offset (counted + [raw].countP isText) rest := by
  rw [itemsFrom, readLine, List.countP_singleton, isText]
  cases Utf8.decode? raw with
  | error position =>
      rfl
  | ok cs =>
      have htext : (Except.ok cs : Except Nat (List Char)).isOk = true := rfl
      cases hread : RowLine.read offset cs with
      | error fault =>
          simp [hread, htext, item?, Except.mapError]
      | ok row? =>
          cases row? <;> simp [hread, htext, item?, Except.mapError]

theorem itemsFrom_append (before after : List (List UInt8)) :
    itemsFrom offset counted (before ++ after) =
      itemsFrom offset counted before ++
        itemsFrom offset (counted + before.countP isText) after := by
  induction before generalizing counted with
  | nil =>
      rfl
  | cons raw rest ih =>
      rw [List.cons_append, itemsFrom_cons, itemsFrom_cons, ih, List.append_assoc, Nat.add_assoc,
        ← List.countP_append]
      rfl

/-- The lines before a position that the numbering counts. -/
def countedBefore (stream : List UInt8) (position : Nat) : Nat :=
  ((Text.lines stream).take position).countP isText

theorem itemsFrom_eq (counted : Nat) (lines : List (List UInt8)) :
    itemsFrom offset counted lines = lines.zipIdx.filterMap fun line =>
      item? (readLine offset (counted + (lines.take line.2).countP isText + 1) line.1) := by
  induction lines using List.reverseRecOn with
  | nil =>
      rfl
  | append_singleton before raw ih =>
      -- The last line changes nothing for those before it.
      have hbefore : ∀ line ∈ before.zipIdx,
          (before ++ [raw]).take line.2 = before.take line.2 := by
        intro line hline
        have hposition := List.snd_lt_of_mem_zipIdx hline
        exact List.take_append_of_le_length (by omega)
      rw [itemsFrom_append, ih, itemsFrom_cons, List.zipIdx_append, List.filterMap_append]
      congr 1
      · apply List.filterMap_congr
        intro line hline
        rw [hbefore line hline]
      · cases hitem : item? (readLine offset (counted + before.countP isText + 1) raw) <;>
          simp [itemsFrom, hitem]

theorem items_eq (offset : FeatureId) (stream : List UInt8) :
    items offset stream = (Text.lines stream).zipIdx.filterMap fun line =>
      item? (readLine offset (countedBefore stream line.2 + 1) line.1) := by
  simpa [items, countedBefore] using itemsFrom_eq 0 (Text.lines stream)

/-- The numbering is that of the lines up to the first that is not text, and falls behind there. -/
theorem countedBefore_eq_iff {position : Nat} (h : position ≤ (Text.lines stream).length) :
    countedBefore stream position = position ↔
      ∀ earlier ∈ (Text.lines stream).take position, isText earlier = true := by
  have hlength : ((Text.lines stream).take position).length = position :=
    List.length_take_of_le h
  rw [← List.countP_eq_length, hlength, countedBefore]

/-- The error of a line says that it is not text, or calls it by its number and says more. -/
theorem message_of_readLine {e : Error} (h : readLine offset number raw = .error e) :
    (isText raw = false ∧ e = .storage .notText) ∨
      (isText raw = true ∧ e.category = "data_loading" ∧ ∃ fault : RowFault,
        e.message =
          "Data loading error: " ++ ("line " ++ toString number ++ ": " ++ fault.reason)) := by
  rcases readLine_eq_error_iff.1 h with hcs | ⟨hcs, _⟩
  · exact Or.inl ⟨by rw [isText, hcs]; rfl, rfl⟩
  · exact Or.inr ⟨by rw [isText, hcs]; rfl, rfl, _, rfl⟩

/-- Every item comes from a line of its own, and an error about a line calls it by the number of the
lines of text before it plus one. That is its place among all lines as long as every line before it
is text, and no longer. -/
theorem items_numbers (offset : FeatureId) (stream : List UInt8) :
    (items offset stream = (Text.lines stream).zipIdx.filterMap fun line =>
        item? (readLine offset (countedBefore stream line.2 + 1) line.1)) ∧
      (∀ line ∈ (Text.lines stream).zipIdx, ∀ e,
        readLine offset (countedBefore stream line.2 + 1) line.1 = .error e →
          (isText line.1 = false ∧ e = .storage .notText) ∨
            (isText line.1 = true ∧ e.category = "data_loading" ∧ ∃ fault : RowFault,
              e.message = "Data loading error: " ++
                ("line " ++ toString (countedBefore stream line.2 + 1) ++ ": " ++ fault.reason))) ∧
      ∀ line ∈ (Text.lines stream).zipIdx,
        (countedBefore stream line.2 + 1 = line.2 + 1 ↔
          ∀ earlier ∈ (Text.lines stream).take line.2, isText earlier = true) := by
  refine ⟨items_eq offset stream, ?_, ?_⟩
  · intro line _ e he
    exact message_of_readLine he
  · intro line hline
    have hposition := List.snd_lt_of_mem_zipIdx hline
    rw [Nat.add_right_cancel_iff]
    exact countedBefore_eq_iff (by omega)

/-- Below a line that is not text, the second line is called the first. -/
theorem items_misnumber_second_line :
    Text.lines [0xFF, 0x0A, 0x78] = [[0xFF], [0x78]] ∧
      items 1 [0xFF, 0x0A, 0x78] =
        [.error (.storage .notText), .error (.rows (.line 1 (.label "x")))] ∧
      (Error.rows (.line 1 (.label "x"))).message =
        "Data loading error: line 1: invalid label 'x'" := by
  refine ⟨?_, ?_, ?_⟩
  · decide
  · rfl
  · decide

theorem ok_mem_items_iff {row : Row} :
    .ok row ∈ items offset stream ↔ ∃ raw ∈ Text.lines stream, Gives offset raw row := by
  simp only [items_eq, List.mem_filterMap, item?_eq_ok_iff, readLine_eq_ok_some_iff]
  constructor
  · rintro ⟨line, hline, hrow⟩
    exact ⟨line.1, List.fst_mem_of_mem_zipIdx hline, hrow⟩
  · rintro ⟨raw, hraw, hrow⟩
    rcases List.getElem?_of_mem hraw with ⟨position, hposition⟩
    exact ⟨(raw, position), List.mem_zipIdx_iff_getElem?.2 hposition, hrow⟩

/-- Every row of a stream has its features in strict order, also below lines with errors. -/
theorem pairwise_of_ok_mem_items {row : Row} (h : .ok row ∈ items offset stream) :
    row.features.Pairwise (· < ·) := by
  rcases ok_mem_items_iff.1 h with ⟨raw, _, cs, _, hread⟩
  exact RowLine.pairwise_features hread

/-! ## All rows or the first error -/

/-- The lines with their numbers, the first of which is one. -/
def numbered (stream : List UInt8) : List (List UInt8 × Nat) :=
  (Text.lines stream).zipIdx 1

/-- The lines that are not silent. -/
def loudLines (stream : List UInt8) : List (List UInt8) :=
  (Text.lines stream).filter fun raw => !isSilent raw

/-- The first error is that of the first faulty line, by its place among all lines. -/
theorem firstFault_itemsFrom_iff {e : Error} (lines : List (List UInt8)) :
    FirstFault (fun item e => item = .error e) (itemsFrom offset counted lines) e ↔
      FirstFault (Faulty offset) (lines.zipIdx (counted + 1)) e := by
  induction lines generalizing counted with
  | nil =>
      simp [itemsFrom, not_firstFault_nil]
  | cons raw rest ih =>
      rw [itemsFrom_cons, List.zipIdx_cons, firstFault_cons_iff]
      simp only [← readLine_eq_error_iff]
      cases hread : readLine offset (counted + 1) raw with
      | error e' =>
          simp [item?, firstFault_cons_iff]
      | ok row? =>
          -- The line is counted, so the numbers of the rest go on after its own.
          have hcount : [raw].countP isText = 1 := by
            simp [isText_of_readLine_eq_ok hread]
          cases row? <;> simp [item?, hcount, firstFault_cons_iff, ih]

theorem readAll_eq_error_iff {e : Error} :
    readAll offset stream = .error e ↔ FirstFault (Faulty offset) (numbered stream) e := by
  rw [readAll, mapM_eq_error_iff]
  exact firstFault_itemsFrom_iff (Text.lines stream)

/-- A line that is not faulty is silent or a row. -/
theorem not_faulty_iff :
    (∀ e, ¬ Faulty offset (raw, number) e) ↔ isSilent raw = true ∨ ∃ row, Gives offset raw row := by
  simp only [← readLine_eq_error_iff, ← @readLine_eq_ok_none_iff offset raw number,
    ← @readLine_eq_ok_some_iff offset raw number]
  rcases readLine offset number raw with e | _ | row <;> simp

theorem forall_not_faulty_iff :
    (∀ line ∈ numbered stream, ∀ e, ¬ Faulty offset line e) ↔
      ∀ raw ∈ Text.lines stream, isSilent raw = true ∨ ∃ row, Gives offset raw row := by
  constructor
  · intro h raw hraw
    rcases List.getElem?_of_mem hraw with ⟨position, hposition⟩
    have hline : (raw, position + 1) ∈ numbered stream := by
      rw [numbered, List.mem_zipIdx_iff_le_and_getElem?_sub]
      exact ⟨by simp, by simpa using hposition⟩
    exact not_faulty_iff.1 (h _ hline)
  · intro h line hline
    exact not_faulty_iff.2 (h line.1 (List.fst_mem_of_mem_zipIdx hline))

/-- All rows are read if no line is faulty. -/
theorem exists_readAll_eq_ok_iff :
    (∃ rows, readAll offset stream = .ok rows) ↔
      ∀ line ∈ numbered stream, ∀ e, ¬ Faulty offset line e := by
  calc (∃ rows, readAll offset stream = .ok rows)
    _ ↔ ¬ ∃ e, readAll offset stream = .error e := by
        rw [exists_eq_error_iff]
        simp
    _ ↔ ¬ ∃ line ∈ numbered stream, ∃ e, Faulty offset line e := by
        simp only [readAll_eq_error_iff, exists_firstFault_iff]
    _ ↔ ∀ line ∈ numbered stream, ∀ e, ¬ Faulty offset line e := by
        simp

theorem readAll_eq_ok_iff {rows : List Row} :
    readAll offset stream = .ok rows ↔ items offset stream = rows.map .ok := by
  rw [readAll, mapM_eq_ok_iff, ← List.forall₂_eq_eq_eq, List.forall₂_map_right_iff]
  rfl

theorem ok_mem_items_of_readAll {rows : List Row} {row : Row} (h : readAll offset stream = .ok rows)
    (hrow : row ∈ rows) : .ok row ∈ items offset stream := by
  rw [readAll_eq_ok_iff.1 h]
  exact List.mem_map_of_mem hrow

/-- Where there are no errors, the rows are those of the lines that are not silent, in order. -/
theorem gives_of_itemsFrom {rows : List Row} (lines : List (List UInt8))
    (h : List.Forall₂ (fun item row => item = .ok row) (itemsFrom offset counted lines) rows) :
    List.Forall₂ (Gives offset) (lines.filter fun raw => !isSilent raw) rows := by
  induction lines generalizing counted rows with
  | nil =>
      cases h
      exact List.Forall₂.nil
  | cons raw rest ih =>
      rw [itemsFrom_cons] at h
      cases hread : readLine offset (counted + 1) raw with
      | error e =>
          -- The first item would be an error.
          rw [hread] at h
          cases h with
          | cons hitem _ =>
              cases hitem
      | ok row? =>
          rw [hread] at h
          cases row? with
          | none =>
              have hsilent := readLine_eq_ok_none_iff.1 hread
              rw [List.filter_cons_of_neg (by simp [hsilent])]
              exact ih h
          | some row =>
              have hgives := readLine_eq_ok_some_iff.1 hread
              have hloud := isSilent_eq_false_of_gives hgives
              rw [List.filter_cons_of_pos (by simp [hloud])]
              cases h with
              | cons hitem hrest =>
                  cases hitem
                  exact List.Forall₂.cons hgives (ih hrest)

theorem gives_of_readAll {rows : List Row} (h : readAll offset stream = .ok rows) :
    List.Forall₂ (Gives offset) (loudLines stream) rows :=
  gives_of_itemsFrom (Text.lines stream) (mapM_eq_ok_iff.1 h)

end Rows
end DecisionForest

import DecisionForest.Proofs.Forest.Loaded
import DecisionForest.Proofs.Text.Lines

/-!
# What does not matter to a load

A load looks at the lines below the header, up to the first blank one, and of each line at its text
without carriage returns at the end. So nothing else in the bytes of a stream has an effect on its
result, whether that is a forest or an error.

- `Forest.load_eq_of_scan` is a load by the lines below the header,
- `Model.scan_append_blank` says that reading ends at a blank line, `Model.scan_sameButReturn` that
  it looks through carriage returns,
- `Forest.load_framing` puts this together.
-/

namespace DecisionForest

namespace Model

/-! ## Reading lines -/

theorem isBlankLine_of_returns {blank : List UInt8} (h : ∀ b ∈ blank, b = 0x0D) :
    Text.isBlankLine blank = true := by
  have hreturn : ∀ b ∈ blank, (b == 0x0D || b == 0x0A) = true := by
    intro b hb
    rw [h b hb]
    rfl
  exact List.all_eq_true.2 hreturn

/-- Nothing is read from a blank line on. -/
theorem scan_append_blank (number : Nat) (body : List (List UInt8)) {blank : List UInt8}
    (hblank : Text.isBlankLine blank = true) (rest : List (List UInt8)) :
    scan number (body ++ blank :: rest) = scan number body := by
  induction body generalizing number with
  | nil =>
      have hread : readLine number blank = .ok none := readLine_eq_ok_none_iff.2 hblank
      simp [scan, hread]
  | cons raw body ih =>
      simp only [List.cons_append, scan, ih]

/-- A carriage return at the end of a line is not part of its text, nor of what is shown of it. -/
theorem readLine_append_return (number : Nat) (raw : List UInt8) :
    readLine number (raw ++ [0x0D]) = readLine number raw := by
  have hreturn : Char.ofNat (0x0D : UInt8).toNat = '\r' := rfl
  have hascii : (0x0D : UInt8) < 0x80 := by decide
  unfold readLine
  rw [Utf8.decode?_append_ascii hascii, Utf8.decodeLossy_append_ascii hascii, hreturn,
    Text.dropReturns_append_return]
  cases Utf8.decode? raw with
  | error offset =>
      rfl
  | ok cs =>
      simp only [Except.map, Text.dropReturns_append_return]

theorem scan_sameButReturn (number : Nat) {body body' : List (List UInt8)}
    (h : List.Forall₂ Text.SameButReturn body body') : scan number body' = scan number body := by
  induction h generalizing number with
  | nil =>
      rfl
  | @cons raw raw' body body' hraw _ ih =>
      have hread : readLine number raw' = readLine number raw := by
        rcases hraw with rfl | rfl
        · rfl
        · exact readLine_append_return number raw
      simp only [scan, hread, ih]

end Model

namespace Forest

variable {o : LoadOptions}

/-! ## Loads of one body -/

/-- A stream without lines fails as one without lines below the header does. -/
theorem load_eq_of_scan (o : LoadOptions) (stream : List UInt8) :
    (load o stream).result =
      (ofScan o (Model.scan 2 (Text.lines stream).tail)).mapError Error.model := by
  rw [load_result]
  cases Text.lines stream <;> rfl

/-- Results agree where reading the lines below the header does. -/
theorem load_congr_scan {stream stream' : List UInt8}
    (h : Model.scan 2 (Text.lines stream').tail = Model.scan 2 (Text.lines stream).tail) :
    (load o stream').result = (load o stream).result := by
  rw [load_eq_of_scan, load_eq_of_scan, h]

theorem load_header {header header' : List UInt8} (h : 0x0A ∉ header) (h' : 0x0A ∉ header')
    (rest : List UInt8) :
    (load o (header' ++ 0x0A :: rest)).result = (load o (header ++ 0x0A :: rest)).result := by
  apply load_congr_scan
  rw [Text.lines_header h', Text.lines_header h, List.tail_cons, List.tail_cons]

theorem load_checkHeader (checkHeader : Bool) (stream : List UInt8) :
    (load { o with checkHeader } stream).result = (load o stream).result := by
  rw [load_eq_of_scan, load_eq_of_scan]
  rfl

theorem load_pastBlank {blank : List UInt8} (h : ∀ b ∈ blank, b = 0x0D)
    (before rest rest' : List UInt8) :
    (load o (before ++ 0x0A :: (blank ++ 0x0A :: rest'))).result =
      (load o (before ++ 0x0A :: (blank ++ 0x0A :: rest))).result := by
  have hfree : 0x0A ∉ blank := by
    intro hmem
    exact absurd (h _ hmem) (by decide)
  have hne : before.splitOn 0x0A ≠ [] := List.splitOn_ne_nil 0x0A before
  -- Whatever follows the blank line, reading ends with the lines before it.
  have hscan : ∀ rest, Model.scan 2
      (Text.lines (before ++ 0x0A :: (blank ++ 0x0A :: rest))).tail =
        Model.scan 2 (before.splitOn 0x0A).tail := by
    intro rest
    rw [Text.lines_feed, Text.lines_header hfree, List.tail_append_of_ne_nil hne]
    exact Model.scan_append_blank 2 _ (Model.isBlankLine_of_returns h) _
  apply load_congr_scan
  rw [hscan, hscan]

theorem load_withReturns (stream : List UInt8) :
    (load o (Text.withReturns stream)).result = (load o stream).result := by
  apply load_congr_scan
  -- The header is among the lines that may have a carriage return, and is dropped on both sides.
  have htails : List.Forall₂ Text.SameButReturn (Text.lines stream).tail
      (Text.lines (Text.withReturns stream)).tail := by
    simpa using List.forall₂_drop 1 (Text.lines_withReturns stream)
  exact Model.scan_sameButReturn 2 htails

theorem load_append_feed (stream : List UInt8) :
    (load o (stream ++ [0x0A])).result = (load o stream).result := by
  apply load_congr_scan
  rcases Text.lines_append_feed stream with hsame | hmore
  · rw [hsame]
  · rw [hmore]
    -- The one more line is the header, or it is a blank line below it.
    cases Text.lines stream with
    | nil =>
        rfl
    | cons header body =>
        exact Model.scan_append_blank 2 body rfl []

/--
The result of a load, forest or error, with all numbers and texts of lines in it, stays as it is
when the bytes of the header are others, whatever they are; when the header is checked or not; when
other bytes follow a line below the header that is empty or made of carriage returns; when every line
feed has a carriage return before it; and when a line feed at the end of the stream is missing.
-/
theorem load_framing (o : LoadOptions) :
    (∀ header header' rest, 0x0A ∉ header → 0x0A ∉ header' →
      (load o (header' ++ 0x0A :: rest)).result = (load o (header ++ 0x0A :: rest)).result) ∧
    (∀ checkHeader stream,
      (load { o with checkHeader } stream).result = (load o stream).result) ∧
    (∀ before blank rest rest', (∀ b ∈ blank, b = 0x0D) →
      (load o (before ++ 0x0A :: (blank ++ 0x0A :: rest'))).result =
        (load o (before ++ 0x0A :: (blank ++ 0x0A :: rest))).result) ∧
    (∀ stream, (load o (Text.withReturns stream)).result = (load o stream).result) ∧
    ∀ stream, (load o (stream ++ [0x0A])).result = (load o stream).result :=
  ⟨fun _ _ rest h h' => load_header h h' rest, load_checkHeader,
    fun before _ rest rest' h => load_pastBlank h before rest rest', load_withReturns,
    load_append_feed⟩

/-- A node line and a line that is none. -/
def faultyLine : List UInt8 :=
  Utf8.encode "1\t0\t\nx"

theorem load_framing_faultyLine :
    0x0A ∉ Utf8.encode "dtree" ∧ 0x0A ∉ ([0xFF, 0x09] : List UInt8) ∧
      (∀ b ∈ ([0x0D] : List UInt8), b = 0x0D) ∧
      (load {} (Utf8.encode "dtree" ++ 0x0A :: faultyLine)).result.isOk = false ∧
      (load {} ([0xFF, 0x09] ++ 0x0A :: faultyLine)).result =
        (load {} (Utf8.encode "dtree" ++ 0x0A :: faultyLine)).result ∧
      (load {} (faultyLine ++ 0x0A :: ([0x0D] ++ 0x0A :: [0xFF]))).result =
        (load {} (faultyLine ++ 0x0A :: ([0x0D] ++ 0x0A :: []))).result := by
  have hheader : 0x0A ∉ Utf8.encode "dtree" := by decide +kernel
  have hother : 0x0A ∉ ([0xFF, 0x09] : List UInt8) := by decide
  have hblank : ∀ b ∈ ([0x0D] : List UInt8), b = 0x0D := fun _ => List.mem_singleton.1
  have hfails : (load {} (Utf8.encode "dtree" ++ 0x0A :: faultyLine)).result.isOk = false := by
    decide +kernel
  refine ⟨hheader, hother, hblank, hfails, ?_, ?_⟩
  · exact (load_framing {}).1 _ _ faultyLine hheader hother
  · exact (load_framing {}).2.2.1 faultyLine _ [] [0xFF] hblank

end Forest
end DecisionForest

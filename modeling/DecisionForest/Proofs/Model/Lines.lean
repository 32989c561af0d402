import Mathlib.Data.List.DropRight
import DecisionForest.Model.Scan
import DecisionForest.Proofs.Text.Ascii

/-!
# The node lines of a stream

Which lines of a stream hold a node each, said without the loop that reads them.

- `Text.isBlankLine` is a line of bytes that holds nothing but line ends; it is the line that ends
  the node lines (`Model.readLine_eq_ok_none_iff`),
- `Model.nodeLines` lists the lines below the header up to the first blank one, with their numbers,
- `Model.Readable` says that each of them is the line of a node, and `Model.definitions` lists these
  nodes,
- `Model.scan_error?_eq_none_iff` and `Model.scan_definitions` tie the loop to them.
-/

namespace DecisionForest

/-! ## Blank lines -/

namespace Text

/-- Nothing but carriage returns and line feeds. -/
def isBlankLine (raw : List UInt8) : Bool :=
  raw.all fun b => b == 0x0D || b == 0x0A

theorem dropReturns_eq_nil_iff {cs : List Char} :
    dropReturns cs = [] ↔ ∀ c ∈ cs, isReturn c = true :=
  List.rdropWhile_eq_nil_iff

theorem isReturn_iff {c : Char} : isReturn c = true ↔ c = '\r' ∨ c = '\n' := by
  simp [isReturn]

/-- A line is blank when nothing is left of its text once the line ends are dropped. -/
theorem isBlankLine_iff {raw : List UInt8} :
    isBlankLine raw = true ↔ ∃ cs, Utf8.decode? raw = .ok cs ∧ dropReturns cs = [] := by
  constructor
  · intro h
    have hbytes : ∀ b ∈ raw, b = 0x0D ∨ b = 0x0A := by
      simpa [isBlankLine] using h
    have hascii : ∀ b ∈ raw, b < 0x80 := by
      intro b hb
      rcases hbytes b hb with rfl | rfl <;> decide
    refine ⟨_, Utf8.decode?_ascii hascii, dropReturns_eq_nil_iff.2 ?_⟩
    intro c hc
    rcases List.mem_map.1 hc with ⟨b, hb, rfl⟩
    rcases hbytes b hb with rfl | rfl <;> decide
  · rintro ⟨cs, hcs, hdrop⟩
    have hreturns : ∀ c ∈ cs, c = '\r' ∨ c = '\n' := by
      intro c hc
      exact isReturn_iff.1 (dropReturns_eq_nil_iff.1 hdrop c hc)
    have hsmall : ∀ c ∈ cs, c.toNat < 0x80 := by
      intro c hc
      rcases hreturns c hc with rfl | rfl <;> decide
    rcases Utf8.eq_map_of_decode? hcs hsmall with ⟨hascii, hmap⟩
    -- The text is ASCII, so its characters are the bytes.
    have hbytes : ∀ b ∈ raw, b = 0x0D ∨ b = 0x0A := by
      intro b hb
      have hmem : Char.ofNat b.toNat ∈ cs := by
        rw [hmap]
        exact List.mem_map.2 ⟨b, hb, rfl⟩
      have hval : (Char.ofNat b.toNat).toNat = b.toNat :=
        Utf8.toNat_ofNat (Or.inl (by have := UInt8.toNat_lt b; omega))
      rcases hreturns _ hmem with hc | hc
      · left
        rw [hc] at hval
        exact UInt8.toNat_inj.1 hval.symm
      · right
        rw [hc] at hval
        exact UInt8.toNat_inj.1 hval.symm
    simpa [isBlankLine] using hbytes

end Text

namespace Model

theorem readLine_eq_ok_none_iff {number : Nat} {raw : List UInt8} :
    readLine number raw = .ok none ↔ Text.isBlankLine raw = true := by
  rw [Text.isBlankLine_iff]
  unfold readLine
  cases hcs : Utf8.decode? raw with
  | error offset =>
      simp
  | ok cs =>
      by_cases hdrop : Text.dropReturns cs = []
      · simp [hdrop]
      · cases hread : NodeLine.read (Text.dropReturns cs) <;> simp [hdrop, hread]

theorem isBlankLine_eq_false {number : Nat} {raw : List UInt8}
    (h : readLine number raw ≠ .ok none) : Text.isBlankLine raw = false := by
  rw [Bool.eq_false_iff]
  intro hblank
  exact h (readLine_eq_ok_none_iff.2 hblank)

/-! ## Node lines -/

/-- The lines below the header up to the first blank one, each with its number. -/
def nodeLines (stream : List UInt8) : List (List UInt8 × Nat) :=
  ((Text.lines stream).zipIdx 1).tail.takeWhile fun line => !Text.isBlankLine line.1

/-- What a line defines, if it is the line of a node. -/
def definition? (line : List UInt8 × Nat) : Option Definition :=
  match readLine line.2 line.1 with
  | .ok d? => d?
  | .error _ => none

/-- What the node lines define, line by line. -/
def definitions (stream : List UInt8) : List Definition :=
  (nodeLines stream).filterMap definition?

/-- Every node line is the line of a node. -/
def Readable (stream : List UInt8) : Prop :=
  ∀ line ∈ nodeLines stream, ∃ d, readLine line.2 line.1 = .ok (some d)

/-! ## The loop over the lines -/

section Scan

variable (number : Nat) (body : List (List UInt8))

/-- The numbered lines that the loop reads. -/
abbrev upToBlank : List (List UInt8 × Nat) :=
  (body.zipIdx number).takeWhile fun line => !Text.isBlankLine line.1

theorem upToBlank_nil : upToBlank number [] = [] :=
  rfl

theorem upToBlank_cons_blank {raw : List UInt8} (h : Text.isBlankLine raw = true) :
    upToBlank number (raw :: body) = [] := by
  simp [upToBlank, List.zipIdx_cons, h]

theorem upToBlank_cons {raw : List UInt8} (h : Text.isBlankLine raw = false) :
    upToBlank number (raw :: body) = (raw, number) :: upToBlank (number + 1) body := by
  simp [upToBlank, List.zipIdx_cons, h]

theorem scan_error?_eq_none_iff :
    (scan number body).error? = none ↔
      ∀ line ∈ upToBlank number body, ∃ d, readLine line.2 line.1 = .ok (some d) := by
  -- Line by line: an error ends the loop, a blank line ends both sides, a node goes on.
  induction body generalizing number with
  | nil =>
      simp [scan, upToBlank_nil]
  | cons raw rest ih =>
      unfold scan
      cases hread : readLine number raw with
      | error e =>
          have hblank : Text.isBlankLine raw = false :=
            isBlankLine_eq_false (by rw [hread]; simp)
          simp [upToBlank_cons number rest hblank, hread]
      | ok d? =>
          cases d? with
          | none =>
              have hblank := readLine_eq_ok_none_iff.1 hread
              simp [upToBlank_cons_blank number rest hblank]
          | some d =>
              have hblank : Text.isBlankLine raw = false :=
                isBlankLine_eq_false (by rw [hread]; simp)
              simp [upToBlank_cons number rest hblank, hread, ih]

theorem scan_definitions (h : (scan number body).error? = none) :
    (scan number body).definitions = (upToBlank number body).filterMap definition? := by
  induction body generalizing number with
  | nil =>
      simp [scan, upToBlank_nil]
  | cons raw rest ih =>
      unfold scan at h ⊢
      cases hread : readLine number raw with
      | error e =>
          rw [hread] at h
          cases h
      | ok d? =>
          rw [hread] at h
          cases d? with
          | none =>
              have hblank := readLine_eq_ok_none_iff.1 hread
              simp [upToBlank_cons_blank number rest hblank]
          | some d =>
              have hblank : Text.isBlankLine raw = false :=
                isBlankLine_eq_false (by rw [hread]; simp)
              have hd : definition? (raw, number) = some d := by
                simp [definition?, hread]
              simp [upToBlank_cons number rest hblank, hd, ih (number + 1) h]

end Scan

end Model
end DecisionForest

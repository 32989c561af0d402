import Mathlib.Data.List.Basic
import DecisionForest.Proofs.Results
import DecisionForest.Text.Line
import DecisionForest.Text.Utf8

/-!
# Bytes below `0x80`

UTF-8 writes the first 128 characters as one byte each and uses these bytes for nothing else. So a
byte below `0x80` is cut off as a character of its own (`Utf8.pieces_cons_ascii`), and a character
below `0x80` comes from such a byte only (`Utf8.lt_of_pieces_cons`).

- `Utf8.decode?_eq_ok_iff` says which texts are decoded from which bytes,
- `Utf8.decode?_append_ascii` and `Utf8.decodeLossy_append_ascii` are decoding with such a byte at the
  end,
- `Utf8.encode_eq_ascii` and `Utf8.decode?_encode_ascii` are encoding a text of such characters and
  reading it back.
-/

namespace DecisionForest
namespace Utf8

/-! ## Characters of one byte -/

theorem pieces_cons_ascii {a : UInt8} (h : a < 0x80) (rest : List UInt8) :
    pieces (a :: rest) = .char (Char.ofNat a.toNat) :: pieces rest := by
  rw [pieces.eq_def (a :: rest)]
  exact if_pos h

theorem pieces_ascii {bs : List UInt8} (h : ∀ b ∈ bs, b < 0x80) :
    pieces bs = bs.map fun b => .char (Char.ofNat b.toNat) := by
  induction bs with
  | nil =>
      simp [pieces]
  | cons a rest ih =>
      rw [pieces_cons_ascii (h a (by simp)), ih fun b hb => h b (by simp [hb])]
      rfl

/-! ## Characters of several bytes -/

theorem toNat_ofNat {n : Nat} (h : n.isValidChar) : (Char.ofNat n).toNat = n := by
  unfold Char.ofNat
  rw [dif_pos h]
  rfl

theorem le_toNat_ofNat {n : Nat} (hn : 0x80 ≤ n) (hv : n.isValidChar) :
    0x80 ≤ (Char.ofNat n).toNat := by
  rw [toNat_ofNat hv]
  exact hn

theorem le_toNat_of_two {a b : UInt8} (ha : 0xC2 ≤ a ∧ a ≤ 0xDF) :
    0x80 ≤ (Char.ofNat (a.toNat % 32 * 64 + payload b)).toNat := by
  have hlo : 0xC2 ≤ a.toNat := UInt8.le_iff_toNat_le.1 ha.1
  have hhi : a.toNat ≤ 0xDF := UInt8.le_iff_toNat_le.1 ha.2
  have hb : payload b < 64 := Nat.mod_lt _ (by decide)
  apply le_toNat_ofNat
  · omega
  · left
    omega

/-- The second byte rules out over-long forms, whose value would be small, and surrogates, whose
value is no character. -/
theorem le_toNat_of_three {a b c : UInt8} (ha : 0xE0 ≤ a ∧ a ≤ 0xEF)
    (hb : isSecondOfThree a b = true) :
    0x80 ≤ (Char.ofNat (a.toNat % 16 * 4096 + payload b * 64 + payload c)).toNat := by
  have hlo : 0xE0 ≤ a.toNat := UInt8.le_iff_toNat_le.1 ha.1
  have hhi : a.toNat ≤ 0xEF := UInt8.le_iff_toNat_le.1 ha.2
  have hc : payload c < 64 := Nat.mod_lt _ (by decide)
  simp only [isSecondOfThree, UInt8.le_iff_toNat_le, ← UInt8.toNat_inj, isTail] at hb
  simp only [payload] at *
  apply le_toNat_ofNat
  · split at hb <;> simp at * <;> omega
  · split at hb
    · simp at *
      left
      omega
    · split at hb <;> simp at * <;> simp only [Nat.isValidChar] <;> omega

/-- The second byte rules out over-long forms and values past the last character. -/
theorem le_toNat_of_four {a b c d : UInt8} (ha : 0xF0 ≤ a ∧ a ≤ 0xF4)
    (hb : isSecondOfFour a b = true) :
    0x80 ≤ (Char.ofNat
      (a.toNat % 8 * 262144 + payload b * 4096 + payload c * 64 + payload d)).toNat := by
  have hlo : 0xF0 ≤ a.toNat := UInt8.le_iff_toNat_le.1 ha.1
  have hhi : a.toNat ≤ 0xF4 := UInt8.le_iff_toNat_le.1 ha.2
  have hc : payload c < 64 := Nat.mod_lt _ (by decide)
  have hd : payload d < 64 := Nat.mod_lt _ (by decide)
  simp only [isSecondOfFour, UInt8.le_iff_toNat_le, ← UInt8.toNat_inj, isTail] at hb
  simp only [payload] at *
  apply le_toNat_ofNat
  · split at hb <;> simp at * <;> omega
  · right
    split at hb
    · simp at *
      omega
    · split at hb <;> simp at * <;> omega

/-- A character below `0x80` starts with a byte below `0x80`: it is the whole of that byte. -/
theorem lt_of_pieces_cons {a : UInt8} {rest : List UInt8} {c : Char} {ps : List Piece}
    (h : pieces (a :: rest) = .char c :: ps) (hc : c.toNat < 0x80) : a < 0x80 := by
  by_contra ha
  rw [pieces.eq_def (a :: rest)] at h
  simp only [ha, if_false, Bool.and_eq_true, decide_eq_true_eq] at h
  -- One case for each width; only a complete character starts with `.char`.
  split at h
  · rename_i hwidth
    split at h
    · split at h
      · cases h
        exact absurd hc (Nat.not_lt.2 (le_toNat_of_two hwidth))
      · cases h
    · cases h
  · split at h
    · rename_i hwidth
      split at h
      · split at h
        · rename_i hsecond
          split at h
          · split at h
            · cases h
              exact absurd hc (Nat.not_lt.2 (le_toNat_of_three hwidth hsecond))
            · cases h
          · cases h
        · cases h
      · cases h
    · split at h
      · rename_i hwidth
        split at h
        · split at h
          · rename_i hsecond
            split at h
            · split at h
              · split at h
                · split at h
                  · cases h
                    exact absurd hc (Nat.not_lt.2 (le_toNat_of_four hwidth hsecond))
                  · cases h
                · cases h
              · cases h
            · cases h
          · cases h
        · cases h
      · cases h

/-! ## Decoding -/

theorem collect_eq_ok_iff {offset : Nat} {ps : List Piece} {cs : List Char} :
    Piece.collect offset ps = .ok cs ↔ ps = cs.map .char := by
  induction ps generalizing offset cs with
  | nil =>
      cases cs <;> simp [Piece.collect]
  | cons p rest ih =>
      cases p with
      | broken width =>
          cases cs <;> simp [Piece.collect]
      | char c =>
          rw [Piece.collect, map_eq_ok_iff]
          constructor
          · rintro ⟨ds, hds, rfl⟩
            rw [ih.1 hds, List.map_cons]
          · intro h
            cases cs with
            | nil =>
                cases h
            | cons d ds =>
                rw [List.map_cons] at h
                injection h with hc hrest
                injection hc with hc
                exact ⟨ds, ih.2 hrest, by rw [hc]⟩

theorem decode?_eq_ok_iff {bs : List UInt8} {cs : List Char} :
    decode? bs = .ok cs ↔ pieces bs = cs.map .char :=
  collect_eq_ok_iff

theorem decode?_ascii {bs : List UInt8} (h : ∀ b ∈ bs, b < 0x80) :
    decode? bs = .ok (bs.map fun b => Char.ofNat b.toNat) := by
  rw [decode?_eq_ok_iff, pieces_ascii h, List.map_map]
  rfl

/-- Bytes that decode to characters below `0x80` are these characters, one byte each. -/
theorem eq_map_of_decode? {bs : List UInt8} {cs : List Char} (h : decode? bs = .ok cs)
    (hcs : ∀ c ∈ cs, c.toNat < 0x80) :
    (∀ b ∈ bs, b < 0x80) ∧ cs = bs.map fun b => Char.ofNat b.toNat := by
  rw [decode?_eq_ok_iff] at h
  induction bs generalizing cs with
  | nil =>
      cases cs with
      | nil =>
          simp
      | cons c cs =>
          simp [pieces] at h
  | cons a rest ih =>
      cases cs with
      | nil =>
          -- A byte is always cut into something.
          exfalso
          rw [pieces.eq_def (a :: rest)] at h
          simp only [List.map_nil] at h
          split at h
          · cases h
          · repeat' split at h
            all_goals cases h
      | cons c cs =>
          have ha : a < 0x80 := lt_of_pieces_cons h (hcs c (by simp))
          rw [pieces_cons_ascii ha] at h
          injection h with hc hrest
          injection hc with hc
          rcases ih hrest fun d hd => hcs d (by simp [hd]) with ⟨hrest', hcs'⟩
          refine ⟨?_, ?_⟩
          · intro b hb
            rcases List.mem_cons.1 hb with rfl | hb
            · exact ha
            · exact hrest' b hb
          · rw [List.map_cons, hc, hcs']

/-! ## A byte at the end -/

section Last

variable {b : UInt8}

/-- No continuation byte is in range, be the range narrowed by the byte before it or not. -/
theorem le_eq_false_of_ascii (hb : b < 0x80) {low : UInt8} (hlow : 0x80 ≤ low) :
    decide (low ≤ b) = false := by
  have hlt : b.toNat < 0x80 := UInt8.lt_iff_toNat_lt.1 hb
  have hle : 0x80 ≤ low.toNat := UInt8.le_iff_toNat_le.1 hlow
  have hnot : ¬ low.toNat ≤ b.toNat := by omega
  exact decide_eq_false fun h => hnot (UInt8.le_iff_toNat_le.1 h)

theorem isTail_ascii (hb : b < 0x80) : isTail b = false := by
  simp [isTail, le_eq_false_of_ascii hb]

theorem isSecondOfThree_ascii (hb : b < 0x80) (lead : UInt8) : isSecondOfThree lead b = false := by
  simp [isSecondOfThree, isTail_ascii hb, le_eq_false_of_ascii hb]

theorem isSecondOfFour_ascii (hb : b < 0x80) (lead : UInt8) : isSecondOfFour lead b = false := by
  simp [isSecondOfFour, isTail_ascii hb, le_eq_false_of_ascii hb]

theorem pieces_nil : pieces [] = [] := by
  simp [pieces]

/-- A byte below `0x80` completes no character, so what stands before it is cut as it was. -/
theorem pieces_append_ascii (hb : b < 0x80) (raw : List UInt8) :
    pieces (raw ++ [b]) = pieces raw ++ [.char (Char.ofNat b.toNat)] := by
  -- One case for each way to cut off a piece; the byte may be the one that ends a broken run.
  fun_induction pieces raw with
  | case1 =>
      rw [List.nil_append, pieces_cons_ascii hb, pieces_nil, List.nil_append]
  | _ =>
      simp only [List.cons_append, List.nil_append] at *
      rw [pieces.eq_def]
      simp only [*, if_true, if_false, Bool.false_eq_true, isTail_ascii hb,
        isSecondOfThree_ascii hb, isSecondOfFour_ascii hb, pieces_cons_ascii hb, pieces_nil]

theorem decodeLossy_append_ascii (hb : b < 0x80) (raw : List UInt8) :
    decodeLossy (raw ++ [b]) = decodeLossy raw ++ [Char.ofNat b.toNat] := by
  simp [decodeLossy, pieces_append_ascii hb, Piece.lossy]

theorem collect_append (offset : Nat) (ps : List Piece) (c : Char) :
    Piece.collect offset (ps ++ [.char c]) = (Piece.collect offset ps).map (· ++ [c]) := by
  induction ps generalizing offset with
  | nil =>
      rfl
  | cons p ps ih =>
      cases p with
      | broken width =>
          rfl
      | char d =>
          simp only [List.cons_append, Piece.collect, ih]
          cases Piece.collect (offset + d.utf8Size) ps <;> rfl

/-- Text stays text, and what is not text is ill-formed where it was. -/
theorem decode?_append_ascii (hb : b < 0x80) (raw : List UInt8) :
    decode? (raw ++ [b]) = (decode? raw).map (· ++ [Char.ofNat b.toNat]) := by
  rw [decode?, pieces_append_ascii hb]
  exact collect_append 0 (pieces raw) _

end Last

/-! ## Encoding -/

/-- A text of characters below `0x80`, one byte each. -/
def ascii (cs : List Char) : List UInt8 :=
  cs.map fun c => UInt8.ofNat c.toNat

theorem utf8EncodeChar_ascii {c : Char} (h : c.toNat < 0x80) :
    String.utf8EncodeChar c = [UInt8.ofNat c.toNat] := by
  have hle : c.toNat ≤ 0x7F := Nat.le_of_lt_succ h
  exact if_pos hle

theorem encode_eq_ascii {cs : List Char} (h : ∀ c ∈ cs, c.toNat < 0x80) :
    encode (String.ofList cs) = ascii cs := by
  rw [encode, String.toList_ofList, ascii, List.map_eq_flatMap]
  exact List.flatMap_congr fun c hc => utf8EncodeChar_ascii (h c hc)

theorem toNat_ofNat_ascii {c : Char} (h : c.toNat < 0x80) :
    (UInt8.ofNat c.toNat).toNat = c.toNat :=
  UInt8.toNat_ofNat_of_lt (Nat.lt_trans h (by decide))

theorem decode?_encode_ascii {cs : List Char} (h : ∀ c ∈ cs, c.toNat < 0x80) :
    decode? (ascii cs) = .ok cs := by
  have hbytes : ∀ b ∈ ascii cs, b < 0x80 := by
    intro b hb
    rcases List.mem_map.1 hb with ⟨c, hc, rfl⟩
    rw [UInt8.lt_iff_toNat_lt, toNat_ofNat_ascii (h c hc)]
    exact h c hc
  rw [decode?_ascii hbytes, ascii, List.map_map]
  have hsame : cs.map ((fun b : UInt8 => Char.ofNat b.toNat) ∘ fun c => UInt8.ofNat c.toNat) =
      cs.map id := by
    apply List.map_congr_left
    intro c hc
    simp only [Function.comp_apply, toNat_ofNat_ascii (h c hc)]
    exact Char.ofNat_toNat c
  rw [hsame, List.map_id]

end Utf8
end DecisionForest

import Mathlib.Data.Bool.AllAny
import Mathlib.Data.List.TakeWhile
import DecisionForest.Number.Numeral
import DecisionForest.Proofs.Number.Magnitude

/-!
# The texts of numbers

Which texts are numbers, and what they stand for, without a word on how they are read.

- `IsPlain` holds of the characters that numbers are written with: they are ASCII, none of them
  separates parts of a node line and none ends a line,
- `Numeral.Denotes` relates a numeral to its number; `Numeral.readNat?_eq_some_iff` says that this is
  how numerals are read, and `Numeral.readUInt32?_eq_some_iff` and `Numeral.readUInt64?_eq_some_iff`
  that words are the numbers that fit,
- `Literal` relates a literal to its value: a sign or none, and then a decimal or a name;
  `readFloat?_eq_some_iff` says that this is how literals are read,
- `Numeral.Denotes.isPlain` and `Literal.isPlain` say that no separator occurs in either.
-/

namespace DecisionForest

/-! ## Characters -/

/-- A character of one byte that has no meaning in the layout of model text. -/
def IsPlain (c : Char) : Prop :=
  c.toNat < 0x80 ∧ c ∉ ['\t', '|', ':', '\r', '\n']

instance : DecidablePred IsPlain :=
  fun c => inferInstanceAs (Decidable (c.toNat < 0x80 ∧ c ∉ ['\t', '|', ':', '\r', '\n']))

theorem isPlain_of_isDigit {c : Char} (h : c.isDigit = true) : IsPlain c := by
  have hrange : '0'.toNat ≤ c.toNat ∧ c.toNat ≤ '9'.toNat := Char.isDigit_iff_toNat.1 h
  refine ⟨Nat.lt_of_le_of_lt hrange.2 (by decide), ?_⟩
  intro hmem
  have hno : ∀ d ∈ ['\t', '|', ':', '\r', '\n'], d.isDigit = false :=
    List.all_iff_forall_prop.1 (by decide)
  rw [hno c hmem] at h
  cases h

/-- One or more digits. -/
def IsDigits (ds : List Char) : Prop :=
  ds ≠ [] ∧ ∀ d ∈ ds, d.isDigit = true

theorem isDigits_iff {ds : List Char} :
    IsDigits ds ↔ ds ≠ [] ∧ ds.all Char.isDigit = true := by
  rw [IsDigits, List.all_eq_true]

/-! ## Numerals -/

namespace Numeral

variable {cs : List Char} {n : Nat}

/-- Digits stand for a number, with a plus sign before them or without one. -/
inductive Denotes : List Char → Nat → Prop where
  | digits {ds : List Char} : IsDigits ds → Denotes ds (Nat.ofDigitChars 10 ds 0)
  | plus {ds : List Char} : IsDigits ds → Denotes ('+' :: ds) (Nat.ofDigitChars 10 ds 0)

/-- A numeral of a number that a word of so many bits can hold. -/
def Fits (bits : Nat) (cs : List Char) : Prop :=
  ∃ n, Denotes cs n ∧ n < 2 ^ bits

theorem readDigits?_eq_some_iff :
    readDigits? cs = some n ↔ IsDigits cs ∧ Nat.ofDigitChars 10 cs 0 = n := by
  rw [isDigits_iff, readDigits?]
  split
  case isTrue hdigits =>
    simp [hdigits]
  case isFalse hother =>
    simp only [reduceCtorEq, false_iff]
    exact fun h => hother h.1

theorem dropPlus_of_isDigits {ds : List Char} (h : IsDigits ds) : dropPlus ds = ds := by
  unfold dropPlus
  split
  · cases h.2 '+' List.mem_cons_self
  · rfl

theorem readNat?_eq_some_iff : readNat? cs = some n ↔ Denotes cs n := by
  constructor
  · intro h
    rw [readNat?, readDigits?_eq_some_iff] at h
    obtain ⟨hdigits, rfl⟩ := h
    unfold dropPlus at *
    split at hdigits
    · exact .plus hdigits
    · exact .digits hdigits
  · rintro (hdigits | hdigits)
    · rw [readNat?, dropPlus_of_isDigits hdigits, readDigits?_eq_some_iff]
      exact ⟨hdigits, rfl⟩
    · exact readDigits?_eq_some_iff.2 ⟨hdigits, rfl⟩

/-- A numeral has no minus sign. -/
theorem Denotes.head?_ne_minus (h : Denotes cs n) : cs.head? ≠ some '-' := by
  intro hhead
  cases h with
  | digits hdigits =>
      cases hdigits.2 '-' (List.mem_of_head? hhead)
  | plus hdigits =>
      cases hhead

theorem denotes_digits (n : Nat) : Denotes (digits n) n := by
  obtain ⟨hdigits, hvalue⟩ := readDigits?_eq_some_iff.1 (readDigits?_digits n)
  have hdenotes := Denotes.digits hdigits
  rwa [hvalue] at hdenotes

theorem isDigit_of_mem_digits {c : Char} (h : c ∈ digits n) : c.isDigit = true :=
  Nat.isDigit_of_mem_toDigits (by decide) (by decide) h

theorem exists_digits_eq_cons (n : Nat) : ∃ d ds, digits n = d :: ds ∧ d.isDigit = true := by
  cases hdigits : digits n with
  | nil =>
      exact absurd hdigits Nat.toDigits_ne_nil
  | cons d ds =>
      refine ⟨d, ds, rfl, isDigit_of_mem_digits (n := n) ?_⟩
      rw [hdigits]
      exact List.mem_cons_self

/-- Digits are written without a zero in front of others, which would be one too many for the
number. -/
theorem eq_nil_of_digits_eq_zero_cons {ds : List Char} (h : digits n = '0' :: ds) : ds = [] := by
  by_contra hne
  have hrest : ∀ d ∈ ds, d.isDigit = true := by
    intro d hd
    apply isDigit_of_mem_digits (n := n)
    rw [h]
    exact List.mem_cons_of_mem '0' hd
  have hvalue : Nat.ofDigitChars 10 ds 0 = n := by
    have hread : Nat.ofDigitChars 10 (digits n) 0 = n :=
      Nat.ofDigitChars_toDigits (by decide) (by decide)
    rwa [h, Nat.ofDigitChars_cons] at hread
  have hsmall : n < 10 ^ ds.length := hvalue ▸ ofDigitChars_lt hrest
  have hlength : (digits n).length ≤ ds.length :=
    (Nat.length_toDigits_le_iff (by decide) (List.length_pos_iff.2 hne)).2 hsmall
  rw [h, List.length_cons] at hlength
  omega

section Word

variable {Word : Type} {size : Nat} {ofNat : Nat → Word} {toNat : Word → Nat}

/-- A word is read from a numeral of it, as no two words have the same number. -/
theorem readWord_eq_some_iff (hlt : ∀ x, toNat x < size)
    (hword : ∀ x, ofNat (toNat x) = x) (hnumber : ∀ n, n < size → toNat (ofNat n) = n) {x : Word} :
    (match readNat? cs with
      | some n => if n < size then some (ofNat n) else none
      | none => none) = some x ↔ Denotes cs (toNat x) := by
  rw [← readNat?_eq_some_iff]
  cases readNat? cs with
  | none =>
      simp
  | some n =>
      by_cases hfits : n < size
      · simp only [hfits, if_true, Option.some.injEq]
        constructor
        · rintro rfl
          exact (hnumber n hfits).symm
        · rintro rfl
          exact hword x
      · have hx := hlt x
        simp only [hfits, if_false, reduceCtorEq, Option.some.injEq, false_iff]
        omega

theorem exists_denotes_iff (hlt : ∀ x, toNat x < size)
    (hnumber : ∀ n, n < size → toNat (ofNat n) = n) :
    (∃ n, Denotes cs n ∧ n < size) ↔ ∃ x, Denotes cs (toNat x) := by
  constructor
  · rintro ⟨n, hn, hfits⟩
    exact ⟨ofNat n, by rwa [hnumber n hfits]⟩
  · rintro ⟨x, hx⟩
    exact ⟨toNat x, hx, hlt x⟩

end Word

theorem readUInt32?_eq_some_iff {x : UInt32} : readUInt32? cs = some x ↔ Denotes cs x.toNat :=
  readWord_eq_some_iff UInt32.toNat_lt_size (fun _ => UInt32.ofNat_toNat)
    (fun _ => UInt32.toNat_ofNat_of_lt')

theorem readUInt64?_eq_some_iff {x : UInt64} : readUInt64? cs = some x ↔ Denotes cs x.toNat :=
  readWord_eq_some_iff UInt64.toNat_lt_size (fun _ => UInt64.ofNat_toNat)
    (fun _ => UInt64.toNat_ofNat_of_lt')

theorem fits_32_iff : Fits 32 cs ↔ ∃ x : UInt32, Denotes cs x.toNat :=
  exists_denotes_iff UInt32.toNat_lt_size fun _ => UInt32.toNat_ofNat_of_lt'

theorem fits_64_iff : Fits 64 cs ↔ ∃ x : UInt64, Denotes cs x.toNat :=
  exists_denotes_iff UInt64.toNat_lt_size fun _ => UInt64.toNat_ofNat_of_lt'

theorem readUInt32?_eq_none_iff : readUInt32? cs = none ↔ ¬ Fits 32 cs := by
  rw [fits_32_iff, Option.eq_none_iff_forall_ne_some]
  simp only [ne_eq, readUInt32?_eq_some_iff, not_exists]

theorem readUInt64?_eq_none_iff : readUInt64? cs = none ↔ ¬ Fits 64 cs := by
  rw [fits_64_iff, Option.eq_none_iff_forall_ne_some]
  simp only [ne_eq, readUInt64?_eq_some_iff, not_exists]

theorem Denotes.isPlain (h : Denotes cs n) : ∀ c ∈ cs, IsPlain c := by
  cases h with
  | digits hdigits =>
      exact fun c hc => isPlain_of_isDigit (hdigits.2 c hc)
  | plus hdigits =>
      intro c hc
      rcases List.mem_cons.1 hc with rfl | hc
      · decide
      · exact isPlain_of_isDigit (hdigits.2 c hc)

end Numeral

/-! ## Decimals -/

namespace DecimalLiteral

variable {cs : List Char} {e : Int} {d : DecimalLiteral}

/-- The end of a decimal, and the exponent that it gives. -/
inductive Exponent : List Char → Int → Prop where
  | absent : Exponent [] 0
  | positive {mark : Char} {cs : List Char} {n : Nat} : mark = 'e' ∨ mark = 'E' →
      Numeral.Denotes cs n → Exponent (mark :: cs) n
  | negative {mark : Char} {ds : List Char} : mark = 'e' ∨ mark = 'E' → IsDigits ds →
      Exponent (mark :: '-' :: ds) (-(Nat.ofDigitChars 10 ds 0 : Int))

/-- Digits with at most one point before, between or after them, and an exponent. -/
inductive Denotes : List Char → DecimalLiteral → Prop where
  | whole {ds es : List Char} {e : Int} : IsDigits ds → Exponent es e → Denotes (ds ++ es) ⟨ds, e⟩
  | pointed {ds fs es : List Char} {e : Int} : IsDigits (ds ++ fs) → Exponent es e →
      Denotes (ds ++ '.' :: (fs ++ es)) ⟨ds ++ fs, e - fs.length⟩

section Exponent

variable {mark : Char}

theorem readExponent?_minus (hmark : mark = 'e' ∨ mark = 'E') (ds : List Char) :
    readExponent? (mark :: '-' :: ds) =
      (Numeral.readDigits? ds).map fun n : Nat => -(n : Int) := by
  simp only [readExponent?, if_pos hmark, Numeral.readDigits?]
  split <;> rfl

/-- Without a minus sign there is a numeral after the mark. -/
theorem readExponent?_of_head (hmark : mark = 'e' ∨ mark = 'E') (hhead : cs.head? ≠ some '-') :
    readExponent? (mark :: cs) = (Numeral.readNat? cs).map fun n : Nat => (n : Int) := by
  simp only [readExponent?, if_pos hmark, Numeral.readNat?, Numeral.readDigits?]
  split
  case h_1 =>
    exact absurd rfl hhead
  case h_2 =>
    rw [Numeral.dropPlus]
    split <;> rfl
  case h_3 hplus =>
    have hsame : Numeral.dropPlus cs = cs := by
      unfold Numeral.dropPlus
      split
      · exact absurd rfl (hplus _)
      · rfl
    rw [hsame]
    split <;> rfl

theorem readExponent?_eq_some_iff : readExponent? cs = some e ↔ Exponent cs e := by
  constructor
  · intro h
    rcases cs with _ | ⟨mark, cs⟩
    · cases h
      exact .absent
    by_cases hmark : mark = 'e' ∨ mark = 'E'
    case neg =>
      simp [readExponent?, hmark] at h
    by_cases hhead : cs.head? = some '-'
    · obtain ⟨ds, rfl⟩ : ∃ ds, cs = '-' :: ds := List.head?_eq_some_iff.1 hhead
      rw [readExponent?_minus hmark, Option.map_eq_some_iff] at h
      obtain ⟨n, hn, rfl⟩ := h
      obtain ⟨hdigits, rfl⟩ := Numeral.readDigits?_eq_some_iff.1 hn
      exact .negative hmark hdigits
    · rw [readExponent?_of_head hmark hhead, Option.map_eq_some_iff] at h
      obtain ⟨n, hn, rfl⟩ := h
      exact .positive hmark (Numeral.readNat?_eq_some_iff.1 hn)
  · rintro (_ | ⟨hmark, hn⟩ | ⟨hmark, hdigits⟩)
    · rfl
    · rw [readExponent?_of_head hmark hn.head?_ne_minus, Numeral.readNat?_eq_some_iff.2 hn]
      rfl
    · rw [readExponent?_minus hmark, Numeral.readDigits?_eq_some_iff.2 ⟨hdigits, rfl⟩]
      rfl

/-- After the digits, an exponent starts with its mark. -/
theorem Exponent.eq_nil_or_cons (h : Exponent cs e) :
    cs = [] ∨ ∃ mark rest, cs = mark :: rest ∧ (mark = 'e' ∨ mark = 'E') := by
  cases h with
  | absent =>
      exact Or.inl rfl
  | positive hmark _ =>
      exact Or.inr ⟨_, _, rfl, hmark⟩
  | negative hmark _ =>
      exact Or.inr ⟨_, _, rfl, hmark⟩

theorem Exponent.takeWhile_isDigit (h : Exponent cs e) : cs.takeWhile Char.isDigit = [] := by
  rcases h.eq_nil_or_cons with rfl | ⟨mark, rest, rfl, rfl | rfl⟩ <;> rfl

theorem Exponent.splitFraction_eq (h : Exponent cs e) : splitFraction cs = ([], cs) := by
  rcases h.eq_nil_or_cons with rfl | ⟨mark, rest, rfl, rfl | rfl⟩ <;> rfl

end Exponent

/-- Every text starts with digits, if only none, and goes on without one. -/
theorem exists_digits_append (cs : List Char) :
    ∃ ds rest, cs = ds ++ rest ∧ (∀ d ∈ ds, d.isDigit = true) ∧
      rest.takeWhile Char.isDigit = [] := by
  induction cs with
  | nil =>
      exact ⟨[], [], rfl, by simp, rfl⟩
  | cons c cs ih =>
      by_cases hc : c.isDigit = true
      · obtain ⟨ds, rest, rfl, hds, hrest⟩ := ih
        refine ⟨c :: ds, rest, rfl, ?_, hrest⟩
        intro d hd
        rcases List.mem_cons.1 hd with rfl | hd
        · exact hc
        · exact hds d hd
      · exact ⟨[], c :: cs, rfl, by simp, List.takeWhile_cons_of_neg hc⟩

section Digits

variable {ds fs es rest : List Char}

theorem takeWhile_isDigit (hds : ∀ d ∈ ds, d.isDigit = true)
    (hrest : rest.takeWhile Char.isDigit = []) : (ds ++ rest).takeWhile Char.isDigit = ds := by
  rw [List.takeWhile_append_of_pos hds, hrest, List.append_nil]

theorem dropWhile_isDigit (hds : ∀ d ∈ ds, d.isDigit = true)
    (hrest : rest.takeWhile Char.isDigit = []) : (ds ++ rest).dropWhile Char.isDigit = rest := by
  rw [List.dropWhile_append_of_pos hds]
  have hall := List.takeWhile_append_dropWhile (p := Char.isDigit) (l := rest)
  rwa [hrest] at hall

theorem splitFraction_point (hfs : ∀ d ∈ fs, d.isDigit = true)
    (hes : es.takeWhile Char.isDigit = []) : splitFraction ('.' :: (fs ++ es)) = (fs, es) := by
  rw [splitFraction, takeWhile_isDigit hfs hes, dropWhile_isDigit hfs hes]

theorem splitFraction_of_head (hhead : rest.head? ≠ some '.') : splitFraction rest = ([], rest) := by
  unfold splitFraction
  split
  · exact absurd rfl hhead
  · rfl

/-- Past the digits at the front, a decimal is read for its fraction and its exponent. -/
theorem read?_append (hds : ∀ d ∈ ds, d.isDigit = true) (hrest : rest.takeWhile Char.isDigit = [])
    (hsplit : splitFraction rest = (fs, es)) :
    read? (ds ++ rest) = if ds = [] ∧ fs = [] then none
      else (readExponent? es).map fun e => ⟨ds ++ fs, e - fs.length⟩ := by
  rw [read?, takeWhile_isDigit hds hrest, dropWhile_isDigit hds hrest, hsplit]
  simp only
  cases readExponent? es <;> rfl

end Digits

theorem read?_eq_some_iff : read? cs = some d ↔ Denotes cs d := by
  constructor
  · intro h
    obtain ⟨ds, rest, rfl, hds, hrest⟩ := exists_digits_append cs
    -- Only a point after the first digits is followed by more of them.
    by_cases hpoint : rest.head? = some '.'
    · obtain ⟨tail, rfl⟩ := List.head?_eq_some_iff.1 hpoint
      obtain ⟨fs, es, rfl, hfs, hes⟩ := exists_digits_append tail
      rw [read?_append hds hrest (splitFraction_point hfs hes)] at h
      split at h
      case isTrue hnone =>
        cases h
      case isFalse hsome =>
        obtain ⟨e, he, rfl⟩ := Option.map_eq_some_iff.1 h
        refine .pointed ⟨by simpa using hsome, ?_⟩ (readExponent?_eq_some_iff.1 he)
        intro d hd
        exact (List.mem_append.1 hd).elim (hds d) (hfs d)
    · rw [read?_append hds hrest (splitFraction_of_head hpoint)] at h
      split at h
      case isTrue hnone =>
        cases h
      case isFalse hsome =>
        obtain ⟨e, he, rfl⟩ := Option.map_eq_some_iff.1 h
        rw [List.append_nil, List.length_nil, Int.natCast_zero, Int.sub_zero]
        exact .whole ⟨by simpa using hsome, hds⟩ (readExponent?_eq_some_iff.1 he)
  · rintro (@⟨ds, es, e, hds, he⟩ | @⟨ds, fs, es, e, hdigits, he⟩)
    · rw [read?_append hds.2 he.takeWhile_isDigit he.splitFraction_eq, if_neg (by simp [hds.1]),
        readExponent?_eq_some_iff.2 he]
      simp
    · have hds : ∀ d ∈ ds, d.isDigit = true := fun d hd => hdigits.2 d (List.mem_append_left _ hd)
      have hfs : ∀ d ∈ fs, d.isDigit = true := fun d hd => hdigits.2 d (List.mem_append_right _ hd)
      rw [read?_append hds rfl (splitFraction_point hfs he.takeWhile_isDigit),
        if_neg (by simpa using hdigits.1), readExponent?_eq_some_iff.2 he]
      rfl

theorem Denotes.isDigit (h : Denotes cs d) : ∀ c ∈ d.digits, c.isDigit = true := by
  cases h with
  | whole hds _ =>
      exact hds.2
  | pointed hdigits _ =>
      exact hdigits.2

theorem Denotes.exists_cons (h : Denotes cs d) :
    ∃ c rest, cs = c :: rest ∧ (c.isDigit = true ∨ c = '.') := by
  cases h with
  | @whole ds es _ hds _ =>
      obtain ⟨c, ds, rfl⟩ := List.exists_cons_of_ne_nil hds.1
      exact ⟨c, ds ++ es, rfl, Or.inl (hds.2 c List.mem_cons_self)⟩
  | @pointed ds fs es _ hdigits _ =>
      cases ds with
      | nil =>
          exact ⟨'.', fs ++ es, rfl, Or.inr rfl⟩
      | cons c ds =>
          exact ⟨c, ds ++ '.' :: (fs ++ es), rfl, Or.inl (hdigits.2 c List.mem_cons_self)⟩

theorem Exponent.isPlain (h : Exponent cs e) : ∀ c ∈ cs, IsPlain c := by
  have hmarks : ∀ {mark : Char}, mark = 'e' ∨ mark = 'E' → IsPlain mark := by
    rintro mark (rfl | rfl) <;> decide
  intro c hc
  cases h with
  | absent =>
      cases hc
  | positive hmark hn =>
      rcases List.mem_cons.1 hc with rfl | hc
      · exact hmarks hmark
      · exact hn.isPlain c hc
  | negative hmark hdigits =>
      rcases List.mem_cons.1 hc with rfl | hc
      · exact hmarks hmark
      rcases List.mem_cons.1 hc with rfl | hc
      · decide
      · exact isPlain_of_isDigit (hdigits.2 c hc)

theorem Denotes.isPlain (h : Denotes cs d) : ∀ c ∈ cs, IsPlain c := by
  intro c hc
  cases h with
  | whole hds he =>
      rcases List.mem_append.1 hc with hc | hc
      · exact isPlain_of_isDigit (hds.2 c hc)
      · exact he.isPlain c hc
  | pointed hdigits he =>
      rcases List.mem_append.1 hc with hc | hc
      · exact isPlain_of_isDigit (hdigits.2 c (List.mem_append_left _ hc))
      rcases List.mem_cons.1 hc with rfl | hc
      · decide
      rcases List.mem_append.1 hc with hc | hc
      · exact isPlain_of_isDigit (hdigits.2 c (List.mem_append_right _ hc))
      · exact he.isPlain c hc

end DecimalLiteral

/-! ## Literals -/

variable {negative : Bool} {cs : List Char} {x : Float}

/-- A text has this name, in whatever letters. -/
def Names (name : String) (cs : List Char) : Prop :=
  cs.map Char.toLower = name.toList

instance (name : String) (cs : List Char) : Decidable (Names name cs) :=
  inferInstanceAs (Decidable (cs.map Char.toLower = name.toList))

/-- A literal without its sign: a name, or a decimal, which stands for the nearest value. -/
inductive UnsignedLiteral (negative : Bool) : List Char → Float → Prop where
  | infinite {cs : List Char} : Names "inf" cs ∨ Names "infinity" cs →
      UnsignedLiteral negative cs (encode negative infiniteMagnitude)
  | notANumber {cs : List Char} : Names "nan" cs → UnsignedLiteral negative cs (0.0 / 0.0)
  | decimal {cs : List Char} {d : DecimalLiteral} : DecimalLiteral.Denotes cs d →
      UnsignedLiteral negative cs (encode negative (nearestMagnitude d.numerator d.denominator))

/-- A sign or none stands before a literal. -/
inductive Literal : List Char → Float → Prop where
  | unsigned {cs : List Char} {x : Float} : UnsignedLiteral false cs x → Literal cs x
  | plus {cs : List Char} {x : Float} : UnsignedLiteral false cs x → Literal ('+' :: cs) x
  | minus {cs : List Char} {x : Float} : UnsignedLiteral true cs x → Literal ('-' :: cs) x

theorem isPlain_of_toLower {c : Char} (h : IsPlain c.toLower) : IsPlain c := by
  unfold Char.toLower at h
  split at h
  case isTrue hupper =>
    have hrange : 'A'.toNat ≤ c.toNat ∧ c.toNat ≤ 'Z'.toNat := hupper
    refine ⟨Nat.lt_of_le_of_lt hrange.2 (by decide), ?_⟩
    intro hmem
    have hno : ∀ d ∈ ['\t', '|', ':', '\r', '\n'],
        ¬ ('A'.toNat ≤ d.toNat ∧ d.toNat ≤ 'Z'.toNat) :=
      List.all_iff_forall_prop.1 (by decide)
    exact hno c hmem hrange
  case isFalse =>
    exact h

/-- The names that a literal can be. -/
def literalNames : List String :=
  ["inf", "infinity", "nan"]

/-- They are written with plain letters. -/
theorem letter_of_mem_name {name : String} {c : Char} (hname : name ∈ literalNames)
    (hc : c ∈ name.toList) : 'A'.toNat ≤ c.toNat ∧ IsPlain c := by
  have hall : ∀ c ∈ literalNames.flatMap String.toList, 'A'.toNat ≤ c.toNat ∧ IsPlain c :=
    List.all_iff_forall_prop.1 (by decide)
  exact hall c (List.mem_flatMap.2 ⟨name, hname, hc⟩)

/-- The names start with letters, so no text that starts with a digit, a point or a sign has one. -/
theorem not_names_of_lt {name : String} {c : Char} {rest : List Char} (h : c.toNat < 'A'.toNat)
    (hname : name ∈ literalNames) : ¬ Names name (c :: rest) := by
  intro hnames
  -- Only capital letters change, and they come later.
  have hsame : c.toLower = c := by
    unfold Char.toLower
    exact dif_neg fun hupper => Nat.not_lt.2 hupper.1 h
  have hmem : c ∈ name.toList := by
    rw [← hnames, List.map_cons, hsame]
    exact List.mem_cons_self
  exact Nat.not_lt.2 (letter_of_mem_name hname hmem).1 h

theorem readSpecial?_eq (negative : Bool) (cs : List Char) :
    readSpecial? negative cs =
      if Names "inf" cs ∨ Names "infinity" cs then some (encode negative infiniteMagnitude)
      else if Names "nan" cs then some (0.0 / 0.0)
      else none :=
  rfl

theorem readSpecial?_of_lt {c : Char} {rest : List Char} (h : c.toNat < 'A'.toNat) :
    readSpecial? negative (c :: rest) = none := by
  rw [readSpecial?_eq,
    if_neg (not_or.2 ⟨not_names_of_lt h (by decide), not_names_of_lt h (by decide)⟩),
    if_neg (not_names_of_lt h (by decide))]

theorem DecimalLiteral.Denotes.exists_lt {d : DecimalLiteral} (h : DecimalLiteral.Denotes cs d) :
    ∃ c rest, cs = c :: rest ∧ c.toNat < 'A'.toNat ∧ c ≠ '+' ∧ c ≠ '-' := by
  obtain ⟨c, rest, rfl, hdigit | rfl⟩ := h.exists_cons
  · have hrange : '0'.toNat ≤ c.toNat ∧ c.toNat ≤ '9'.toNat := Char.isDigit_iff_toNat.1 hdigit
    refine ⟨c, rest, rfl, Nat.lt_of_le_of_lt hrange.2 (by decide), ?_, ?_⟩
    · rintro rfl
      cases hdigit
    · rintro rfl
      cases hdigit
  · exact ⟨'.', rest, rfl, by decide, by decide, by decide⟩

theorem readUnsigned?_eq_some_iff :
    readUnsigned? negative cs = some x ↔ UnsignedLiteral negative cs x := by
  constructor
  · intro h
    rw [readUnsigned?, readSpecial?_eq] at h
    by_cases hinfinite : Names "inf" cs ∨ Names "infinity" cs
    · rw [if_pos hinfinite] at h
      cases h
      exact .infinite hinfinite
    rw [if_neg hinfinite] at h
    by_cases hnan : Names "nan" cs
    · rw [if_pos hnan] at h
      cases h
      exact .notANumber hnan
    rw [if_neg hnan] at h
    obtain ⟨d, hread, rfl⟩ := Option.map_eq_some_iff.1 h
    have hd := DecimalLiteral.read?_eq_some_iff.1 hread
    rw [DecimalLiteral.magnitude_eq hd.isDigit]
    exact .decimal hd
  · intro h
    cases h with
    | infinite hinfinite =>
        rw [readUnsigned?, readSpecial?_eq, if_pos hinfinite]
    | notANumber hnan =>
        -- A text has one name at most.
        have hother : ¬ (Names "inf" cs ∨ Names "infinity" cs) := by
          unfold Names at *
          rw [hnan]
          decide
        rw [readUnsigned?, readSpecial?_eq, if_neg hother, if_pos hnan]
    | decimal hd =>
        rw [← DecimalLiteral.magnitude_eq hd.isDigit]
        obtain ⟨c, rest, rfl, hlt, -⟩ := hd.exists_lt
        rw [readUnsigned?, readSpecial?_of_lt hlt, DecimalLiteral.read?_eq_some_iff.2 hd]
        rfl

/-- There is no second sign. -/
theorem UnsignedLiteral.head?_ne (h : UnsignedLiteral negative cs x) {sign : Char}
    (hsign : sign = '+' ∨ sign = '-') : cs.head? ≠ some sign := by
  have hlt : sign.toNat < 'A'.toNat := by
    rcases hsign with rfl | rfl <;> decide
  intro hhead
  obtain ⟨rest, rfl⟩ := List.head?_eq_some_iff.1 hhead
  rcases h with (hinf | hinfinity) | hnan | hd
  · exact not_names_of_lt hlt (by decide) hinf
  · exact not_names_of_lt hlt (by decide) hinfinity
  · exact not_names_of_lt hlt (by decide) hnan
  · obtain ⟨c, rest', hcs, -, hplus, hminus⟩ := hd.exists_lt
    cases hcs
    exact hsign.elim hplus hminus

theorem readFloat?_eq_some_iff : readFloat? cs = some x ↔ Literal cs x := by
  constructor
  · intro h
    unfold readFloat? at h
    split at h
    · exact .minus (readUnsigned?_eq_some_iff.1 h)
    · exact .plus (readUnsigned?_eq_some_iff.1 h)
    · exact .unsigned (readUnsigned?_eq_some_iff.1 h)
  · rintro (hx | hx | hx)
    · -- Without a sign in front, the last of the three cases is taken.
      rw [← readUnsigned?_eq_some_iff.2 hx]
      unfold readFloat?
      split
      · exact absurd rfl (hx.head?_ne (Or.inr rfl))
      · exact absurd rfl (hx.head?_ne (Or.inl rfl))
      · rfl
    · exact readUnsigned?_eq_some_iff.2 hx
    · exact readUnsigned?_eq_some_iff.2 hx

theorem readFloat?_eq_none_iff : readFloat? cs = none ↔ ∀ x, ¬ Literal cs x := by
  rw [Option.eq_none_iff_forall_ne_some]
  simp only [ne_eq, readFloat?_eq_some_iff]

theorem Literal.unique {x' : Float} (h : Literal cs x) (h' : Literal cs x') : x = x' := by
  rw [← readFloat?_eq_some_iff] at h h'
  exact Option.some.inj (h.symm.trans h')

theorem Names.isPlain {name : String} (h : Names name cs) (hname : name ∈ literalNames) :
    ∀ c ∈ cs, IsPlain c := by
  intro c hc
  have hmem : c.toLower ∈ name.toList := by
    rw [← h]
    exact List.mem_map_of_mem hc
  exact isPlain_of_toLower (letter_of_mem_name hname hmem).2

theorem UnsignedLiteral.isPlain (h : UnsignedLiteral negative cs x) : ∀ c ∈ cs, IsPlain c := by
  rcases h with (hinf | hinfinity) | hnan | hd
  · exact hinf.isPlain (by decide)
  · exact hinfinity.isPlain (by decide)
  · exact hnan.isPlain (by decide)
  · exact hd.isPlain

theorem Literal.isPlain (h : Literal cs x) : ∀ c ∈ cs, IsPlain c := by
  rcases h with hx | hx | hx
  · exact hx.isPlain
  · exact List.forall_mem_cons.2 ⟨by decide, hx.isPlain⟩
  · exact List.forall_mem_cons.2 ⟨by decide, hx.isPlain⟩

end DecisionForest

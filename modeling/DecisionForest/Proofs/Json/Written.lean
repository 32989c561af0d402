import Mathlib.Data.List.Basic
import Mathlib.Data.List.DropRight
import DecisionForest.Json.Reader
import DecisionForest.Proofs.Number.Literal

/-!
# Reading JSON that was written

An object whose keys need no escapes and whose values are single words is read back from its indented
form, with its entries in their order.

- `Json.IsFlat` holds of such entries,
- `Json.readKey_quote` and `Json.readValue_compact` read a key and a value with what follows them,
- `Json.readEntries_pretty` reads the entries one after another,
- `Json.parse?_pretty` reads the document; `Json.ascii_of_mem_pretty` says that it is ASCII.
-/

namespace DecisionForest
namespace Json

variable {c : Char} {key rest : List Char} {v : Json} {level fuel : Nat}
  {entries : List (Option (List Char) × Json)}

/-! ## Blanks -/

theorem skipBlanks_cons (h : isBlank c = false) (cs : List Char) :
    skipBlanks (c :: cs) = c :: cs :=
  List.dropWhile_cons_of_neg (by simp [h])

theorem skipBlanks_newLine (level : Nat) (cs : List Char) :
    skipBlanks (newLine level ++ cs) = skipBlanks cs := by
  apply List.dropWhile_append_of_pos
  intro c hc
  rcases List.mem_cons.1 hc with rfl | hc
  · rfl
  · rw [List.eq_of_mem_replicate hc]
    rfl

theorem skipBlanks_skipBlanks (cs : List Char) : skipBlanks (skipBlanks cs) = skipBlanks cs :=
  List.dropWhile_idempotent isBlank cs

theorem not_isBlank_of_isDigit (h : c.isDigit = true) : isBlank c = false := by
  cases hblank : isBlank c with
  | false =>
      rfl
  | true =>
      simp only [isBlank, Bool.or_eq_true, beq_iff_eq] at hblank
      rcases hblank with ((rfl | rfl) | rfl) | rfl <;> cases h

/-! ## Keys -/

/-- A character of one byte that stands for itself between quotes. -/
def IsLiteral (c : Char) : Prop :=
  (0x20 ≤ c.toNat ∧ c.toNat < 0x80) ∧ c ≠ '"' ∧ c ≠ '\\'

instance : DecidablePred IsLiteral :=
  fun c => inferInstanceAs (Decidable ((0x20 ≤ c.toNat ∧ c.toNat < 0x80) ∧ c ≠ '"' ∧ c ≠ '\\'))

theorem escapeChar_of_isLiteral (h : IsLiteral c) : escapeChar c = [c] := by
  obtain ⟨⟨hcode, _⟩, hquote, hescape⟩ := h
  have hcontrol : ∀ d : Char, d.toNat < 0x20 → c ≠ d := by
    rintro d hd rfl
    exact Nat.not_lt.2 hcode hd
  rw [escapeChar, if_neg hquote, if_neg hescape, if_neg (hcontrol '\n' (by decide)),
    if_neg (hcontrol '\r' (by decide)), if_neg (hcontrol '\t' (by decide)),
    if_neg (hcontrol '\x08' (by decide)), if_neg (hcontrol '\x0c' (by decide)),
    if_neg (Nat.not_lt.2 hcode)]

theorem quote_eq (h : ∀ c ∈ key, IsLiteral c) : quote (some key) = '"' :: (key ++ ['"']) := by
  have hself : key.flatMap escapeChar = key := by
    rw [List.flatMap_congr fun c hc => escapeChar_of_isLiteral (h c hc), ← List.map_eq_flatMap,
      List.map_id']
  rw [quote, Option.getD_some, hself, List.cons_append]

theorem readText_append (h : ∀ c ∈ key, IsLiteral c) (rest : List Char) :
    readText (key ++ '"' :: rest) = some (some key, rest) := by
  induction key with
  | nil =>
      rw [List.nil_append, readText]
  | cons c key ih =>
      obtain ⟨⟨hcode, _⟩, hquote, hescape⟩ := h c List.mem_cons_self
      have hplain : ¬ (c.toNat < 0x20 ∨ c = '\\') := by
        rintro (hlt | heq)
        · exact Nat.not_lt.2 hcode hlt
        · exact hescape heq
      rw [List.cons_append, readText, if_neg hplain,
        ih fun d hd => h d (List.mem_cons_of_mem c hd)]
      · rfl
      -- Neither the closing quote nor an escape stands at the front.
      all_goals simp [hquote, hescape]

theorem readKey_quote (h : ∀ c ∈ key, IsLiteral c) (rest : List Char) :
    readKey (quote (some key) ++ ':' :: rest) = some (some key, rest) := by
  have htext : quote (some key) ++ ':' :: rest = '"' :: (key ++ '"' :: ':' :: rest) := by
    rw [quote_eq h, List.cons_append, List.append_assoc, List.singleton_append]
  rw [htext, readKey, skipBlanks_cons rfl]
  simp only [readText_append h, skipBlanks_cons (c := ':') rfl]

theorem readKey_skipBlanks (cs : List Char) : readKey (skipBlanks cs) = readKey cs := by
  rw [readKey, readKey, skipBlanks_skipBlanks]

/-! ## Values -/

/-- A value that is written as one word. -/
inductive IsWord : Json → Prop where
  | null : IsWord .null
  | bool (b : Bool) : IsWord (.bool b)
  | natural (n : Nat) : IsWord (.natural n)

/-- A character that no number goes on with. -/
def EndsNumber (c : Char) : Prop :=
  c.isDigit = false ∧ c ≠ '.' ∧ isExponentMark c = false

theorem readWhole_digits (hc : c.isDigit = false) (n : Nat) (rest : List Char) :
    readWhole (Numeral.digits n ++ c :: rest) = some (Numeral.digits n, c :: rest) := by
  obtain ⟨d, ds, hdigits, _⟩ := Numeral.exists_digits_eq_cons n
  by_cases hzero : d = '0'
  -- A zero at the front is all there is.
  · subst hzero
    cases Numeral.eq_nil_of_digits_eq_zero_cons hdigits
    rw [hdigits]
    rfl
  · have hall : ∀ d ∈ Numeral.digits n, d.isDigit = true := fun d => Numeral.isDigit_of_mem_digits
    have hend : (c :: rest).takeWhile Char.isDigit = [] :=
      List.takeWhile_cons_of_neg (by simp [hc])
    have hread : readDigits (Numeral.digits n ++ c :: rest) =
        some (Numeral.digits n, c :: rest) := by
      rw [readDigits, DecimalLiteral.takeWhile_isDigit hall hend,
        DecimalLiteral.dropWhile_isDigit hall hend, hdigits]
    rw [hdigits, List.cons_append] at hread ⊢
    rw [readWhole, hread]
    exact fun _ heq => hzero (List.cons.inj heq).1

theorem readUnsigned_digits (hc : EndsNumber c) (n : Nat) (rest : List Char) :
    readUnsigned (Numeral.digits n ++ c :: rest) = some (.natural n, c :: rest) := by
  obtain ⟨hdigit, hpoint, hmark⟩ := hc
  have hfraction : readFraction (c :: rest) = some ([], c :: rest) := by
    rw [readFraction]
    exact fun _ heq => hpoint (List.cons.inj heq).1
  have hexponent : readExponent (c :: rest) = some ([], c :: rest) := by
    simp [readExponent, hmark]
  have hvalue : Nat.ofDigitChars 10 (Numeral.digits n) 0 = n :=
    Nat.ofDigitChars_toDigits (by decide) (by decide)
  simp [readUnsigned, readWhole_digits hdigit, hfraction, hexponent, hvalue]

theorem readNumber_digits (hc : EndsNumber c) (n : Nat) (rest : List Char) :
    readNumber (Numeral.digits n ++ c :: rest) = some (.natural n, c :: rest) := by
  obtain ⟨d, ds, hdigits, hd⟩ := Numeral.exists_digits_eq_cons n
  have hread := readUnsigned_digits hc n rest
  rw [hdigits, List.cons_append] at hread ⊢
  rw [readNumber, hread]
  rintro _ ⟨⟩
  cases hd

/-- A value is read up to the character that ends it. -/
theorem readValue_compact (hv : IsWord v) (hc : EndsNumber c) (fuel : Nat) (rest : List Char) :
    readValue (fuel + 1) (' ' :: (compact v ++ c :: rest)) = some (v, c :: rest) := by
  cases hv with
  | null =>
      rfl
  | bool b =>
      cases b <;> rfl
  | natural n =>
      obtain ⟨d, ds, hdigits, hd⟩ := Numeral.exists_digits_eq_cons n
      have hblank : skipBlanks (' ' :: d :: (ds ++ c :: rest)) = d :: (ds ++ c :: rest) :=
        skipBlanks_cons (not_isBlank_of_isDigit hd) _
      have hread := readNumber_digits hc n rest
      rw [compact]
      rw [hdigits, List.cons_append] at hread ⊢
      rw [readValue, hblank]
      -- No other value starts with a digit.
      split <;> rename_i heq
      case h_7 =>
        exact hread
      all_goals
        obtain ⟨rfl, _⟩ := List.cons.inj heq
        cases hd

/-! ## Objects -/

/-- An entry whose key needs no escapes and whose value is one word. -/
inductive IsFlat : Option (List Char) × Json → Prop where
  | mk {key : List Char} {v : Json} : (∀ c ∈ key, IsLiteral c) → IsWord v → IsFlat (some key, v)

theorem prettyAt_eq_compact (h : IsWord v) (level : Nat) : prettyAt level v = compact v := by
  cases h <;> rfl

theorem prettyEntries_cons_cons (level : Nat) (entry next : Option (List Char) × Json)
    (more : List (Option (List Char) × Json)) :
    prettyEntries level (entry :: next :: more) =
      newLine level ++ quote entry.1 ++ ':' :: ' ' :: prettyAt level entry.2 ++
        ',' :: prettyEntries level (next :: more) := by
  rw [prettyEntries]
  simp

/-- The key of an entry is read up to the value behind it. -/
theorem readKey_entry (level : Nat) (hkey : ∀ c ∈ key, IsLiteral c) (hv : IsWord v)
    (tail : List Char) :
    readKey (newLine level ++ quote (some key) ++ ':' :: ' ' :: prettyAt level v ++ tail) =
      some (some key, ' ' :: (compact v ++ tail)) := by
  rw [← readKey_skipBlanks]
  simp only [List.append_assoc, List.cons_append]
  rw [skipBlanks_newLine, readKey_skipBlanks, readKey_quote hkey, prettyAt_eq_compact hv]

theorem readEntries_last (level : Nat) (hkey : ∀ c ∈ key, IsLiteral c) (hv : IsWord v)
    (fuel : Nat) (rest : List Char) :
    readEntries (fuel + 2) (newLine level ++ quote (some key) ++ ':' :: ' ' :: prettyAt level v ++
        (newLine 0 ++ '}' :: rest)) = some ([(some key, v)], rest) := by
  have hend : EndsNumber '\n' := ⟨rfl, by decide, rfl⟩
  have hbrace : skipBlanks ('\n' :: '}' :: rest) = '}' :: rest := rfl
  have hline : newLine 0 ++ '}' :: rest = '\n' :: '}' :: rest := rfl
  rw [readEntries, readKey_entry level hkey hv, hline]
  simp only [readValue_compact hv hend, hbrace]

theorem readEntries_next (level : Nat) (hkey : ∀ c ∈ key, IsLiteral c) (hv : IsWord v)
    {cs : List Char} (hmore : readEntries (fuel + 1) cs = some (entries, rest)) :
    readEntries (fuel + 2) (newLine level ++ quote (some key) ++ ':' :: ' ' :: prettyAt level v ++
        ',' :: cs) = some ((some key, v) :: entries, rest) := by
  have hend : EndsNumber ',' := ⟨rfl, by decide, rfl⟩
  rw [readEntries, readKey_entry level hkey hv]
  simp only [readValue_compact hv hend, skipBlanks_cons (c := ',') rfl, hmore, Option.map_some]

theorem readEntries_pretty (hne : entries ≠ []) (hflat : ∀ e ∈ entries, IsFlat e)
    (hfuel : entries.length ≤ fuel) (rest : List Char) :
    readEntries (fuel + 1) (prettyEntries level entries ++ newLine 0 ++ '}' :: rest) =
      some (entries, rest) := by
  induction entries generalizing fuel with
  | nil =>
      exact absurd rfl hne
  | cons entry more ih =>
      obtain ⟨fuel, rfl⟩ : ∃ k, fuel = k + 1 := ⟨fuel - 1, by simp at hfuel; omega⟩
      cases hflat entry List.mem_cons_self with
      | @mk key v hkey hv =>
          cases more with
          | nil =>
              simpa only [prettyEntries, List.append_assoc] using
                readEntries_last level hkey hv fuel rest
          | cons next more =>
              have hmore := ih (by simp) (fun e he => hflat e (List.mem_cons_of_mem _ he))
                (Nat.le_of_succ_le_succ hfuel)
              have hnext := readEntries_next level hkey hv hmore
              rw [prettyEntries_cons_cons]
              simpa only [List.append_assoc, List.cons_append] using hnext

/-- Every entry takes a character at least. -/
theorem length_le_length_prettyEntries (level : Nat)
    (entries : List (Option (List Char) × Json)) :
    entries.length ≤ (prettyEntries level entries).length := by
  induction entries with
  | nil =>
      exact Nat.zero_le _
  | cons entry more ih =>
      cases more with
      | nil =>
          simp [prettyEntries, newLine]
      | cons next more =>
          rw [prettyEntries_cons_cons]
          simp only [List.length_append, List.length_cons] at ih ⊢
          omega

theorem readEntries_skipBlanks (fuel : Nat) (cs : List Char) :
    readEntries fuel (skipBlanks cs) = readEntries fuel cs := by
  cases fuel with
  | zero =>
      rfl
  | succ fuel =>
      rw [readEntries, readEntries, readKey_skipBlanks]

/-- Past its indent the first entry starts with a quote. -/
theorem exists_skipBlanks_prettyEntries (level : Nat) (entry : Option (List Char) × Json)
    (more : List (Option (List Char) × Json)) (rest : List Char) :
    ∃ tail, skipBlanks (prettyEntries level (entry :: more) ++ rest) = '"' :: tail := by
  cases more with
  | nil =>
      simp only [prettyEntries, List.append_assoc, skipBlanks_newLine, quote, List.cons_append]
      exact ⟨_, skipBlanks_cons rfl _⟩
  | cons next more =>
      simp only [prettyEntries_cons_cons, List.append_assoc, skipBlanks_newLine, quote,
        List.cons_append]
      exact ⟨_, skipBlanks_cons rfl _⟩

theorem readValue_object {cs tail : List Char} (hfirst : skipBlanks cs = '"' :: tail)
    (h : readEntries fuel cs = some (entries, rest)) :
    readValue (fuel + 1) ('{' :: cs) = some (.object entries, rest) := by
  rw [← readEntries_skipBlanks, hfirst] at h
  rw [readValue, skipBlanks_cons rfl]
  simp [hfirst, h]

theorem parse?_pretty (hne : entries ≠ []) (hflat : ∀ e ∈ entries, IsFlat e) :
    parse? (pretty (.object entries)) = some (.object entries) := by
  obtain ⟨entry, more, rfl⟩ := List.exists_cons_of_ne_nil hne
  have htext : pretty (.object (entry :: more)) =
      '{' :: (prettyEntries 1 (entry :: more) ++ newLine 0 ++ ['}']) := rfl
  -- The fuel is twice the length of the document, which is enough for every entry.
  have hlength := length_le_length_prettyEntries 1 (entry :: more)
  have hfuel : (entry :: more).length ≤ 2 * (pretty (.object (entry :: more))).length := by
    simp only [htext, List.length_cons, List.length_append] at hlength ⊢
    omega
  obtain ⟨tail, htail⟩ := exists_skipBlanks_prettyEntries 1 entry more (newLine 0 ++ ['}'])
  rw [← List.append_assoc] at htail
  have hread := readValue_object htail (readEntries_pretty hne hflat hfuel [])
  rw [← htext] at hread
  rw [parse?, hread]
  rfl

/-! ## Bytes -/

theorem ascii_of_mem_compact (hv : IsWord v) : ∀ c ∈ compact v, c.toNat < 0x80 := by
  cases hv with
  | null =>
      exact List.all_iff_forall_prop.1 (by decide)
  | bool b =>
      cases b <;> exact List.all_iff_forall_prop.1 (by decide)
  | natural n =>
      intro c hc
      exact (isPlain_of_isDigit (Numeral.isDigit_of_mem_digits hc)).1

theorem ascii_of_mem_newLine (level : Nat) : ∀ c ∈ newLine level, c.toNat < 0x80 := by
  intro c hc
  rcases List.mem_cons.1 hc with rfl | hc
  · decide
  · rw [List.eq_of_mem_replicate hc]
    decide

theorem ascii_of_mem_prettyEntries (hflat : ∀ e ∈ entries, IsFlat e) (level : Nat) :
    ∀ c ∈ prettyEntries level entries, c.toNat < 0x80 := by
  induction entries with
  | nil =>
      simp [prettyEntries]
  | cons entry more ih =>
      have hmore := ih fun e he => hflat e (List.mem_cons_of_mem entry he)
      cases hflat entry List.mem_cons_self with
      | @mk key v hkey hv =>
          have hentry : ∀ c ∈ newLine level ++ quote (some key) ++ ':' :: ' ' :: prettyAt level v,
              c.toNat < 0x80 := by
            rw [prettyAt_eq_compact hv, quote_eq hkey]
            intro c hc
            simp only [List.mem_append, List.mem_cons, List.not_mem_nil, or_false] at hc
            rcases hc with (hc | rfl | hc | rfl) | rfl | rfl | hc
            · exact ascii_of_mem_newLine level c hc
            · decide
            · exact (hkey c hc).1.2
            · decide
            · decide
            · decide
            · exact ascii_of_mem_compact hv c hc
          cases more with
          | nil =>
              exact hentry
          | cons next more =>
              rw [prettyEntries_cons_cons]
              intro c hc
              rcases List.mem_append.1 hc with hc | hc
              · exact hentry c hc
              · rcases List.mem_cons.1 hc with rfl | hc
                · decide
                · exact hmore c hc

/-- What is written is one byte a character. -/
theorem ascii_of_mem_pretty (hne : entries ≠ []) (hflat : ∀ e ∈ entries, IsFlat e) :
    ∀ c ∈ pretty (.object entries), c.toNat < 0x80 := by
  obtain ⟨entry, more, rfl⟩ := List.exists_cons_of_ne_nil hne
  have htext : pretty (.object (entry :: more)) =
      '{' :: (prettyEntries 1 (entry :: more) ++ newLine 0 ++ ['}']) := rfl
  rw [htext]
  intro c hc
  simp only [List.mem_cons, List.mem_append, List.not_mem_nil, or_false] at hc
  rcases hc with rfl | (hc | hc) | rfl
  · decide
  · exact ascii_of_mem_prettyEntries hflat 1 c hc
  · exact ascii_of_mem_newLine 0 c hc
  · decide

end Json
end DecisionForest

import Mathlib.Data.List.Forall2
import Mathlib.Data.List.Nodup
import DecisionForest.Proofs.Number.Literal
import DecisionForest.Toml.Document

/-!
# Reading TOML that was written

A document of lines that each give a bare key a single word is read back, with its entries in their
order, where no key comes twice. A numeral up to a line end is no moment and no float, since nothing
that these need stands in it.

- `Toml.WordFor` relates words to their values,
- `Toml.DigitLine` is what keeps a numeral from being read as anything but an integer,
- `Toml.LineFor` relates lines to the entries that they give; `Toml.readLine_append` reads one line
  and `Toml.readLines_flatten` all of them,
- `Toml.parse?_flatten` reads the document; `Toml.ascii_of_mem_flatten` says that it is ASCII.
-/

namespace DecisionForest
namespace Toml

variable {c : Char} {n low high fuel : Nat} {cs ds rest text line : List Char} {key : Key} {v : Toml}
  {lines : List (List Char)} {entry : Key × Toml} {entries : Entries}

/-! ## Numerals at the end of a line -/

/-- Digits, if any, up to a line end. -/
def DigitLine (cs : List Char) : Prop :=
  ∃ ds rest, (∀ d ∈ ds, d.isDigit = true) ∧ cs = ds ++ '\n' :: rest

theorem digitLine_digits (n : Nat) (rest : List Char) :
    DigitLine (Numeral.digits n ++ '\n' :: rest) :=
  ⟨Numeral.digits n, rest, fun _ hd => Numeral.isDigit_of_mem_digits hd, rfl⟩

/-- Past two digits there are further digits, if any, up to the line end. -/
theorem DigitLine.of_readPair (h : DigitLine cs) (hread : readPair low high cs = some (n, rest)) :
    DigitLine rest := by
  obtain ⟨ds, tail, hds, rfl⟩ := h
  match ds with
  | [] =>
      cases tail <;> simp [readPair] at hread
  | [a] =>
      simp [readPair] at hread
  | a :: b :: ds =>
      simp only [List.cons_append, readPair, Option.ite_none_right_eq_some, Option.some.injEq,
        Prod.mk.injEq] at hread
      exact ⟨ds, tail, fun d hd => hds d (by simp [hd]), hread.2.2.symm⟩

theorem DigitLine.readChar_eq_none (h : DigitLine cs) (hdigit : c.isDigit = false)
    (hend : c ≠ '\n') : readChar c cs = none := by
  obtain ⟨ds, tail, hds, rfl⟩ := h
  cases ds with
  | nil =>
      exact if_neg hend.symm
  | cons d ds =>
      refine if_neg ?_
      rintro rfl
      cases hdigit.symm.trans (hds d List.mem_cons_self)

theorem DigitLine.readDate_eq_none (h : DigitLine cs) : readDate cs = none := by
  rw [Option.eq_none_iff_forall_ne_some]
  intro rest hread
  simp only [readDate, Option.bind_eq_bind, Option.bind_eq_some_iff] at hread
  -- Behind the year there would have to be a dash.
  obtain ⟨⟨_, afterCentury⟩, hcentury, ⟨_, afterYear⟩, hyear, _, hdash, _⟩ := hread
  have hline := (h.of_readPair hcentury).of_readPair hyear
  cases hdash.symm.trans (hline.readChar_eq_none rfl (by decide))

theorem DigitLine.readTime_eq_none (h : DigitLine cs) : readTime cs = none := by
  rw [Option.eq_none_iff_forall_ne_some]
  intro rest hread
  simp only [readTime, Option.bind_eq_bind, Option.bind_eq_some_iff] at hread
  -- Behind the hour there would have to be a colon.
  obtain ⟨⟨_, afterHour⟩, hhour, _, hcolon, _⟩ := hread
  cases hcolon.symm.trans ((h.of_readPair hhour).readChar_eq_none rfl (by decide))

theorem DigitLine.readMoment_eq_none (h : DigitLine cs) : readMoment cs = none := by
  rw [readMoment, h.readDate_eq_none]
  simp only [h.readTime_eq_none, Option.map_none]

theorem moreDigits_append (hds : ∀ d ∈ ds, d.isDigit = true) (rest : List Char) :
    moreDigits Char.isDigit (ds ++ '\n' :: rest) = some (ds, '\n' :: rest) := by
  induction ds with
  | nil =>
      rfl
  | cons d ds ih =>
      have hd := hds d List.mem_cons_self
      have hunderscore : d ≠ '_' := by
        rintro rfl
        cases hd
      rw [List.cons_append, moreDigits, if_pos hd, ih fun e he => hds e (List.mem_cons_of_mem d he)]
      · rfl
      all_goals simp [hunderscore]

theorem wholeDigits_digits (n : Nat) (rest : List Char) :
    wholeDigits (Numeral.digits n ++ '\n' :: rest) = some (Numeral.digits n, '\n' :: rest) := by
  obtain ⟨d, ds, hdigits, hd⟩ := Numeral.exists_digits_eq_cons n
  by_cases hzero : d = '0'
  · subst hzero
    cases Numeral.eq_nil_of_digits_eq_zero_cons hdigits
    rw [hdigits]
    rfl
  · have hall : ∀ e ∈ ds, e.isDigit = true := by
      intro e he
      apply Numeral.isDigit_of_mem_digits (n := n)
      rw [hdigits]
      exact List.mem_cons_of_mem d he
    rw [hdigits, List.cons_append, wholeDigits, someDigits, if_pos hd, moreDigits_append hall]
    · rfl
    · exact fun _ heq => hzero (List.cons.inj heq).1

theorem readSign_of_isDigit {d : Char} (h : d.isDigit = true) (cs : List Char) :
    readSign (d :: cs) = ([], d :: cs) := by
  rw [readSign]
  all_goals
    rintro _ ⟨⟩
    cases h

theorem readFloat_digits (n : Nat) (rest : List Char) :
    readFloat (Numeral.digits n ++ '\n' :: rest) = none := by
  obtain ⟨d, ds, hdigits, hd⟩ := Numeral.exists_digits_eq_cons n
  have hwhole := wholeDigits_digits n rest
  have hend : readFractionOrExponent ('\n' :: rest) = none := rfl
  rw [hdigits, List.cons_append] at hwhole ⊢
  rw [readFloat, readSign_of_isDigit hd]
  dsimp only
  -- No name of a float starts with a digit.
  split
  case h_3 =>
    simp [hwhole, hend]
  all_goals
    rename_i heq
    obtain ⟨rfl, _⟩ := List.cons.inj heq
    cases hd

theorem integer?_natCast (h : n < integerLimit) : integer? n = some (.integer n) := by
  have hlow : -(integerLimit : Int) ≤ n :=
    (Int.neg_nonpos_of_nonneg (Int.natCast_nonneg integerLimit)).trans (Int.natCast_nonneg n)
  rw [integer?, if_pos ⟨hlow, Int.ofNat_lt.2 h⟩]

theorem readInteger_digits (h : n < integerLimit) (rest : List Char) :
    readInteger (Numeral.digits n ++ '\n' :: rest) = some (.integer n, '\n' :: rest) := by
  obtain ⟨d, ds, hdigits, hd⟩ := Numeral.exists_digits_eq_cons n
  have hwhole := wholeDigits_digits n rest
  have hvalue : Nat.ofDigitChars 10 (Numeral.digits n) 0 = n :=
    Nat.ofDigitChars_toDigits (by decide) (by decide)
  have hbase : ∀ mark tail, mark.isDigit = false → mark ≠ '\n' →
      d :: (ds ++ '\n' :: rest) ≠ '0' :: mark :: tail := by
    rintro mark tail hmark hend heq
    obtain ⟨rfl, htail⟩ := List.cons.inj heq
    rw [Numeral.eq_nil_of_digits_eq_zero_cons hdigits] at htail
    exact hend (List.cons.inj htail).1.symm
  rw [hdigits, List.cons_append] at hwhole ⊢
  rw [readInteger, readSign_of_isDigit hd]
  · dsimp only
    rw [hwhole, Option.bind_eq_bind, Option.bind_some]
    dsimp only
    rw [← hdigits, hvalue, if_neg (by decide : ¬ ([] : List Char) = ['-']), integer?_natCast h]
    rfl
  all_goals exact fun tail => hbase _ tail rfl (by decide)

theorem readNumber_digits (h : n < integerLimit) (rest : List Char) :
    readNumber (Numeral.digits n ++ '\n' :: rest) = some (.integer n, '\n' :: rest) := by
  rw [readNumber, (digitLine_digits n rest).readMoment_eq_none, readFloat_digits,
    readInteger_digits h]
  rfl

/-! ## Words -/

/-- A single word that stands for a value. -/
inductive WordFor : List Char → Toml → Prop where
  | integer {n : Nat} : n < integerLimit → WordFor (Numeral.digits n) (.integer n)
  | true : WordFor "true".toList (.boolean true)
  | false : WordFor "false".toList (.boolean false)

theorem skipBlanks_cons (h : isBlank c = false) (cs : List Char) :
    skipBlanks (c :: cs) = c :: cs :=
  List.dropWhile_cons_of_neg (by simp [h])

/-- Blanks are not bare, so neither keys nor numerals start with one. -/
theorem not_isBlank_of_isBare (h : isBare c = true) : isBlank c = false := by
  cases hblank : isBlank c with
  | false =>
      rfl
  | true =>
      simp only [isBlank, Bool.or_eq_true, beq_iff_eq] at hblank
      rcases hblank with rfl | rfl <;> cases h

theorem isBare_of_isDigit (h : c.isDigit = true) : isBare c = true := by
  simp [isBare, Char.isAlphanum, h]

theorem skipBlanks_word (h : WordFor text v) (rest : List Char) :
    skipBlanks (' ' :: (text ++ rest)) = text ++ rest := by
  cases h with
  | @integer n _ =>
      obtain ⟨d, ds, hdigits, hd⟩ := Numeral.exists_digits_eq_cons n
      rw [hdigits]
      exact skipBlanks_cons (not_isBlank_of_isBare (isBare_of_isDigit hd)) (ds ++ rest)
  | true =>
      rfl
  | false =>
      rfl

theorem readValue_word (h : WordFor text v) (fuel levels : Nat) (rest : List Char) :
    readValue (fuel + 1) levels (text ++ '\n' :: rest) = some (v, '\n' :: rest) := by
  cases h with
  | @integer n hn =>
      obtain ⟨d, ds, hdigits, hd⟩ := Numeral.exists_digits_eq_cons n
      have hread := readNumber_digits hn rest
      rw [hdigits, List.cons_append] at hread ⊢
      rw [readValue, hread]
      -- No other value starts with a digit.
      all_goals
        intro _ heq
        obtain ⟨rfl, _⟩ := List.cons.inj heq
        cases hd
  | true =>
      rfl
  | false =>
      rfl

/-! ## Lines -/

/-- A key that is written without quotes. -/
def IsBareKey (key : Key) : Prop :=
  key ≠ [] ∧ ∀ c ∈ key, isBare c = true

/-- A line that gives a bare key a single word. -/
inductive LineFor : List Char → Key × Toml → Prop where
  | mk {key : Key} {text : List Char} {v : Toml} : IsBareKey key → WordFor text v →
      LineFor (key ++ " = ".toList ++ text ++ ['\n']) (key, v)

theorem readKey_bare (hkey : IsBareKey key) (hc : isBare c = false) (rest : List Char) :
    readKey (key ++ c :: rest) = some (key, c :: rest) := by
  obtain ⟨hne, hbare⟩ := hkey
  obtain ⟨k, ks, rfl⟩ := List.exists_cons_of_ne_nil hne
  have hk := hbare k List.mem_cons_self
  have hstop : (c :: rest).takeWhile isBare = [] := List.takeWhile_cons_of_neg (by simp [hc])
  have hdrop : (c :: rest).dropWhile isBare = c :: rest :=
    List.dropWhile_cons_of_neg (by simp [hc])
  have htake : (k :: ks ++ c :: rest).takeWhile isBare = k :: ks := by
    rw [List.takeWhile_append_of_pos hbare, hstop, List.append_nil]
  rw [List.cons_append] at htake ⊢
  rw [readKey, htake, ← List.cons_append, List.dropWhile_append_of_pos hbare, hdrop]
  · rintro _ ⟨⟩
    cases hk
  · rintro _ ⟨⟩
    cases hk

theorem skipBlanks_bare (hkey : IsBareKey key) (rest : List Char) :
    skipBlanks (key ++ rest) = key ++ rest := by
  obtain ⟨k, ks, rfl⟩ := List.exists_cons_of_ne_nil hkey.1
  exact skipBlanks_cons (not_isBlank_of_isBare (hkey.2 k List.mem_cons_self)) (ks ++ rest)

theorem readPath_bare (hkey : IsBareKey key) (rest : List Char) :
    readPath (key ++ ' ' :: '=' :: rest) = some ([], key, '=' :: rest) := by
  have hkeys : readKeys (nestingLimit - 1) (key ++ ' ' :: '=' :: rest) =
      some ([key], '=' :: rest) := by
    rw [show nestingLimit - 1 = 78 + 1 from rfl, readKeys, skipBlanks_bare hkey,
      readKey_bare hkey rfl]
    rfl
  rw [readPath, hkeys]
  rfl

/-- A key is no comment and no line end. -/
theorem endLine?_bare (hkey : IsBareKey key) (rest : List Char) : endLine? (key ++ rest) = none := by
  rw [endLine?, skipBlanks_bare hkey]
  obtain ⟨k, ks, rfl⟩ := List.exists_cons_of_ne_nil hkey.1
  have hk := hkey.2 k List.mem_cons_self
  have hcomment : skipComment (k :: (ks ++ rest)) = k :: (ks ++ rest) := by
    rw [skipComment]
    rintro _ ⟨⟩
    cases hk
  rw [List.cons_append, hcomment]
  dsimp only
  rw [lineEnd?]
  all_goals
    intro _ heq
    obtain ⟨rfl, _⟩ := List.cons.inj heq
    cases hk

theorem readLine_append (h : LineFor line entry) (rest : List Char) :
    readLine (line ++ rest) = some (some (.assignment [] entry.1 entry.2), rest) := by
  cases h with
  | @mk key text v hkey hword =>
      have hline : key ++ " = ".toList ++ text ++ ['\n'] ++ rest =
          key ++ ' ' :: '=' :: ' ' :: (text ++ '\n' :: rest) := by
        simp
      have hpath := readPath_bare hkey (' ' :: (text ++ '\n' :: rest))
      have hend := endLine?_bare hkey (' ' :: '=' :: ' ' :: (text ++ '\n' :: rest))
      have hvalue : readValue (valueFuel (' ' :: (text ++ '\n' :: rest))) (nestingLimit - 1)
          (skipBlanks (' ' :: (text ++ '\n' :: rest))) = some (v, '\n' :: rest) := by
        rw [skipBlanks_word hword, valueFuel, readValue_word hword]
      rw [hline, readLine, skipBlanks_bare hkey]
      obtain ⟨k, ks, rfl⟩ := List.exists_cons_of_ne_nil hkey.1
      split
      case h_3 =>
        simp only [hend, hpath, hvalue]
        rfl
      -- A line that starts with a bracket has no bare key there.
      all_goals
        rename_i heq
        obtain ⟨rfl, _⟩ := List.cons.inj heq
        cases hkey.2 _ List.mem_cons_self

theorem LineFor.ne_nil (h : LineFor line entry) : line ≠ [] := by
  cases h
  simp

/-- Every line takes a character at least. -/
theorem length_le_length_flatten (h : List.Forall₂ LineFor lines entries) :
    lines.length ≤ lines.flatten.length := by
  induction h with
  | nil =>
      exact Nat.le_refl 0
  | cons hline _ ih =>
      have hpos := List.length_pos_iff.2 hline.ne_nil
      rw [List.length_cons, List.flatten_cons, List.length_append]
      omega

theorem readLines_flatten (h : List.Forall₂ LineFor lines entries) (hfuel : lines.length ≤ fuel) :
    readLines fuel lines.flatten = some (entries.map fun e => .assignment [] e.1 e.2) := by
  induction h generalizing fuel with
  | nil =>
      cases fuel <;> rfl
  | @cons line entry lines entries hline _ ih =>
      obtain ⟨fuel, rfl⟩ : ∃ k, fuel = k + 1 := ⟨fuel - 1, by simp at hfuel; omega⟩
      have hne : line ++ lines.flatten ≠ [] := List.append_ne_nil_of_left_ne_nil hline.ne_nil _
      rw [List.flatten_cons, readLines, if_neg hne, readLine_append hline]
      simp only [ih (Nat.le_of_succ_le_succ hfuel)]
      rfl

/-! ## Documents -/

theorem find?_eq_none (h : key ∉ entries.map Prod.fst) : find? key entries = none := by
  induction entries with
  | nil =>
      rfl
  | cons entry entries ih =>
      rw [List.map_cons, List.mem_cons, not_or] at h
      rw [find?, if_neg (Ne.symm h.1), ih h.2]

theorem put_eq_append (h : key ∉ entries.map Prod.fst) (v : Toml) :
    put key v entries = entries ++ [(key, v)] := by
  induction entries with
  | nil =>
      rfl
  | cons entry entries ih =>
      rw [List.map_cons, List.mem_cons, not_or] at h
      rw [put, if_neg (Ne.symm h.1), ih h.2, List.cons_append]

/-- Entries with new keys are added one after another. -/
theorem foldlM_add? (es : Entries) (h : ((es ++ entries).map Prod.fst).Nodup) :
    (entries.map fun e => Expression.assignment [] e.1 e.2).foldlM Assembly.add?
        { above := [], place := .top, current := es } =
      some { above := [], place := .top, current := es ++ entries } := by
  induction entries generalizing es with
  | nil =>
      rw [List.append_nil]
      rfl
  | cons entry entries ih =>
      have hnew : entry.1 ∉ es.map Prod.fst := by
        rw [List.map_append, List.map_cons] at h
        exact fun hmem => (List.nodup_append.1 h).2.2 _ hmem _ List.mem_cons_self rfl
      have hassign : assign? [] entry.1 entry.2 es = some (es ++ [entry]) := by
        rw [assign?, update?, find?_eq_none hnew, put_eq_append hnew]
        rfl
      rw [List.append_cons] at h ⊢
      rw [List.map_cons, List.foldlM_cons, Assembly.add?, hassign]
      exact ih (es ++ [entry]) h

/-- A document of such lines has their entries, in their order. -/
theorem parse?_flatten (h : List.Forall₂ LineFor lines entries)
    (hkeys : (entries.map Prod.fst).Nodup) : parse? lines.flatten = some entries := by
  -- What stands in front of the first key is no mark.
  have hmark : skipMark lines.flatten = lines.flatten := by
    cases h with
    | nil =>
        rfl
    | cons hline _ =>
        cases hline with
        | @mk key text v hkey _ =>
            obtain ⟨k, ks, rfl⟩ := List.exists_cons_of_ne_nil hkey.1
            simp only [List.flatten_cons, List.cons_append]
            rw [skipMark]
            intro _ heq
            obtain ⟨rfl, _⟩ := List.cons.inj heq
            cases hkey.2 _ List.mem_cons_self
  have hadd := foldlM_add? [] hkeys
  rw [parse?, hmark]
  simp only [readLines_flatten h (length_le_length_flatten h), Option.bind_some]
  rw [ofExpressions?, Assembly.start, hadd]
  rfl

/-! ## Bytes -/

theorem ascii_of_isAlphanum (h : c.isAlphanum = true) : c.toNat < 0x80 := by
  delta Char.isAlphanum Char.isAlpha Char.isUpper Char.isLower at h
  simp only [Bool.or_eq_true, Bool.and_eq_true, decide_eq_true_eq, UInt32.le_iff_toNat_le] at h
  rcases h with (⟨_, hlast⟩ | ⟨_, hlast⟩) | hdigit
  · exact Nat.lt_of_le_of_lt hlast (by decide)
  · exact Nat.lt_of_le_of_lt hlast (by decide)
  · exact (isPlain_of_isDigit hdigit).1

theorem ascii_of_isBare (h : isBare c = true) : c.toNat < 0x80 := by
  simp only [isBare, Bool.or_eq_true, beq_iff_eq] at h
  rcases h with (h | rfl) | rfl
  · exact ascii_of_isAlphanum h
  · decide
  · decide

theorem ascii_of_mem_word (h : WordFor text v) : ∀ c ∈ text, c.toNat < 0x80 := by
  cases h with
  | integer _ =>
      intro c hc
      exact (isPlain_of_isDigit (Numeral.isDigit_of_mem_digits hc)).1
  | true =>
      exact List.all_iff_forall_prop.1 (by decide)
  | false =>
      exact List.all_iff_forall_prop.1 (by decide)

/-- What is written is one byte a character. -/
theorem ascii_of_mem_flatten (h : List.Forall₂ LineFor lines entries) :
    ∀ c ∈ lines.flatten, c.toNat < 0x80 := by
  have hsign : ∀ c ∈ " = ".toList, c.toNat < 0x80 := List.all_iff_forall_prop.1 (by decide)
  induction h with
  | nil =>
      simp
  | cons hline _ ih =>
      intro c hc
      rcases List.mem_append.1 hc with hc | hc
      · cases hline with
        | mk hkey hword =>
            simp only [List.mem_append, List.mem_cons, List.not_mem_nil, or_false] at hc
            rcases hc with ((hc | hc) | hc) | rfl
            · exact ascii_of_isBare (hkey.2 c hc)
            · exact hsign c hc
            · exact ascii_of_mem_word hword c hc
            · decide
      · exact ih c hc

end Toml
end DecisionForest

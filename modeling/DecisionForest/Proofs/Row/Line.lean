import Mathlib.Data.List.TakeWhile
import DecisionForest.Proofs.Features
import DecisionForest.Proofs.Number.Zero
import DecisionForest.Proofs.Results
import DecisionForest.Proofs.Text.Separated
import DecisionForest.Proofs.Text.Words
import DecisionForest.Row.Line

/-!
# What a row line means

A line is read word by word, and the words after the label are read apart from each other. So the
features of a row are a set, that of its columns with a value other than zero, and neither the order
of the columns nor their number matters.

- `RowLine.Column` is the meaning of one word after the label, as a relation with one constructor
  for each kind of word; `RowLine.readColumn_eq_iff` says that this is how columns are read,
- `RowLine.tokens` are the words before a comment, which decide what a line gives,
- `RowLine.read_eq_ok_some_iff` and `RowLine.read_eq_error_iff` give the row and the fault of a line,
- `RowLine.read_shift` gives the row for an offset by that for none,
- `RowLine.read_exact` puts these together.
-/

namespace DecisionForest
namespace RowLine

/-! ## One column -/

section Column

variable {offset index f : FeatureId} {word indexText valueText : List Char}

/-- What a word after the label means: a feature or none, or the fault of it. -/
inductive Column (offset : FeatureId) : List Char → Except RowFault (Option FeatureId) → Prop where
  | pair {word : List Char} : columnSeparator ∉ word →
      Column offset word (.error (.pair (String.ofList word)))
  | group (rest : List Char) : Column offset (groupName ++ columnSeparator :: rest) (.ok none)
  | index {indexText valueText : List Char} : columnSeparator ∉ indexText →
      indexText ≠ groupName → Numeral.readUInt32? indexText = none →
      Column offset (indexText ++ columnSeparator :: valueText)
        (.error (.index (String.ofList indexText)))
  | value {indexText valueText : List Char} {index : FeatureId} : columnSeparator ∉ indexText →
      Numeral.readUInt32? indexText = some index → readFloat? valueText = none →
      Column offset (indexText ++ columnSeparator :: valueText)
        (.error (.value (String.ofList valueText)))
  | zero {indexText valueText : List Char} {index : FeatureId} {value : Float} :
      columnSeparator ∉ indexText → Numeral.readUInt32? indexText = some index →
      readFloat? valueText = some value → IsZero value →
      Column offset (indexText ++ columnSeparator :: valueText) (.ok none)
  | overflow {indexText valueText : List Char} {index : FeatureId} {value : Float} :
      columnSeparator ∉ indexText → Numeral.readUInt32? indexText = some index →
      readFloat? valueText = some value → ¬ IsZero value →
      UInt32.size ≤ index.toNat + offset.toNat →
      Column offset (indexText ++ columnSeparator :: valueText) (.error (.overflow index offset))
  | feature {indexText valueText : List Char} {index f : FeatureId} {value : Float} :
      columnSeparator ∉ indexText → Numeral.readUInt32? indexText = some index →
      readFloat? valueText = some value → ¬ IsZero value →
      f.toNat = index.toNat + offset.toNat →
      Column offset (indexText ++ columnSeparator :: valueText) (.ok (some f))

theorem splitColumn?_eq_none (h : columnSeparator ∉ word) : splitColumn? word = none := by
  rw [splitColumn?, List.dropWhile_eq_nil_iff.2 (Text.decide_ne_of_not_mem h)]

/-- A word is split at its first separator. -/
theorem splitColumn?_append (h : columnSeparator ∉ indexText) :
    splitColumn? (indexText ++ columnSeparator :: valueText) = some (indexText, valueText) := by
  have hall := Text.decide_ne_of_not_mem h
  rw [splitColumn?, List.dropWhile_append_of_pos hall, List.takeWhile_append_of_pos hall]
  simp

theorem exists_split (h : columnSeparator ∈ word) :
    ∃ indexText valueText,
      columnSeparator ∉ indexText ∧ word = indexText ++ columnSeparator :: valueText := by
  obtain ⟨indexText, valueText, hword, hfirst⟩ := List.eq_append_cons_of_mem h
  exact ⟨indexText, valueText, hfirst, hword⟩

/-- The sum is exact, or there is none. -/
theorem toNat_eq_add_iff :
    f.toNat = index.toNat + offset.toNat ↔
      index.toNat + offset.toNat < UInt32.size ∧ f = index + offset := by
  rw [← UInt32.toNat_inj, UInt32.toNat_add]
  constructor
  · intro hsum
    have hfits : index.toNat + offset.toNat < UInt32.size := hsum ▸ f.toNat_lt_size
    exact ⟨hfits, by rw [hsum, Nat.mod_eq_of_lt hfits]⟩
  · rintro ⟨hfits, hsum⟩
    rw [hsum, Nat.mod_eq_of_lt hfits]

theorem shift_eq_ok_iff :
    shift offset index = .ok f ↔ f.toNat = index.toNat + offset.toNat := by
  rw [toNat_eq_add_iff, shift]
  split
  case isTrue hfits =>
    simp [hfits, eq_comm]
  case isFalse hlarge =>
    simp [hlarge]

theorem shift_eq_error_of_le (h : UInt32.size ≤ index.toNat + offset.toNat) :
    shift offset index = .error (.overflow index offset) :=
  if_neg (Nat.not_lt.2 h)

/-- Past its index, a word is read for its value. -/
theorem readColumn_of_index (hfirst : columnSeparator ∉ indexText)
    (hindex : Numeral.readUInt32? indexText = some index) :
    readColumn offset (indexText ++ columnSeparator :: valueText) = (do
      let value ← required (.value (String.ofList valueText)) (readFloat? valueText)
      if value == 0.0 then return none
      let feature ← shift offset index
      return some feature) := by
  have hname : indexText ≠ groupName := by
    rintro rfl
    have hgroup : Numeral.readUInt32? groupName = none := by decide
    rw [hgroup] at hindex
    cases hindex
  rw [readColumn, splitColumn?_append hfirst]
  simp only [required, hindex, bind, Except.bind, if_neg hname]

/-- The reading of a word is what it means. -/
theorem readColumn_of_column {r : Except RowFault (Option FeatureId)} (h : Column offset word r) :
    readColumn offset word = r := by
  cases h with
  | pair hnone =>
      rw [readColumn, splitColumn?_eq_none hnone]
      rfl
  | group rest =>
      rw [readColumn, splitColumn?_append (by decide)]
      rfl
  | index hfirst hname hindex =>
      rw [readColumn, splitColumn?_append hfirst]
      simp only [required, hindex, bind, Except.bind, if_neg hname]
  | value hfirst hindex hvalue =>
      rw [readColumn_of_index hfirst hindex, hvalue]
      rfl
  | zero hfirst hindex hvalue hzero =>
      rw [readColumn_of_index hfirst hindex, hvalue]
      simp [required, bind, Except.bind, pure, Except.pure, beq_zero_iff.2 hzero]
  | overflow hfirst hindex hvalue hset hlarge =>
      rw [readColumn_of_index hfirst hindex, hvalue]
      simp [required, bind, Except.bind, beq_zero_eq_false hset, shift_eq_error_of_le hlarge]
  | feature hfirst hindex hvalue hset hsum =>
      rw [readColumn_of_index hfirst hindex, hvalue]
      simp [required, bind, Except.bind, pure, Except.pure, beq_zero_eq_false hset,
        shift_eq_ok_iff.2 hsum]

/-- Every word means something. -/
theorem exists_column (offset : FeatureId) (word : List Char) : ∃ r, Column offset word r := by
  -- The parts of a word are looked at from the left, the sum comes last.
  by_cases hpair : columnSeparator ∈ word
  case neg =>
    exact ⟨_, .pair hpair⟩
  case pos =>
    obtain ⟨indexText, valueText, hfirst, rfl⟩ := exists_split hpair
    by_cases hgroup : indexText = groupName
    · rw [hgroup]
      exact ⟨_, .group valueText⟩
    cases hindex : Numeral.readUInt32? indexText with
    | none =>
        exact ⟨_, .index hfirst hgroup hindex⟩
    | some index =>
        cases hvalue : readFloat? valueText with
        | none =>
            exact ⟨_, .value hfirst hindex hvalue⟩
        | some value =>
            by_cases hzero : IsZero value
            · exact ⟨_, .zero hfirst hindex hvalue hzero⟩
            cases hshift : shift offset index with
            | ok f =>
                exact ⟨_, .feature hfirst hindex hvalue hzero (shift_eq_ok_iff.1 hshift)⟩
            | error fault =>
                refine ⟨_, .overflow hfirst hindex hvalue hzero (Nat.not_lt.1 fun hfits => ?_)⟩
                rw [shift, if_pos hfits] at hshift
                cases hshift

theorem readColumn_eq_iff {r : Except RowFault (Option FeatureId)} :
    readColumn offset word = r ↔ Column offset word r := by
  constructor
  · rintro rfl
    obtain ⟨r, hr⟩ := exists_column offset word
    rw [readColumn_of_column hr]
    exact hr
  · exact readColumn_of_column

theorem Column.unique {r r' : Except RowFault (Option FeatureId)} (h : Column offset word r)
    (h' : Column offset word r') : r = r' := by
  rw [← readColumn_of_column h, readColumn_of_column h']

/-! ## Another offset -/

/-- Which words add no feature does not depend on the offset. -/
theorem column_none_shift : Column offset word (.ok none) ↔ Column 0 word (.ok none) := by
  constructor <;>
  · intro h
    cases h with
    | group rest =>
        exact .group rest
    | zero hfirst hindex hvalue hzero =>
        exact .zero hfirst hindex hvalue hzero

/-- For no offset the feature is the index itself. -/
theorem column_some_shift :
    Column offset word (.ok (some f)) ↔
      ∃ g, Column 0 word (.ok (some g)) ∧ f.toNat = g.toNat + offset.toNat := by
  constructor
  · intro h
    cases h with
    | feature hfirst hindex hvalue hset hsum =>
        exact ⟨_, .feature hfirst hindex hvalue hset (by simp), hsum⟩
  · rintro ⟨g, h, hg⟩
    cases h with
    | feature hfirst hindex hvalue hset hsum =>
        exact .feature hfirst hindex hvalue hset (by simpa [hsum] using hg)

theorem exists_column_shift :
    (∃ f?, Column offset word (.ok f?)) ↔
      (∃ g?, Column 0 word (.ok g?)) ∧
        ∀ g, Column 0 word (.ok (some g)) → g.toNat + offset.toNat < UInt32.size := by
  constructor
  · rintro ⟨f?, h⟩
    cases f? with
    | none =>
        have hnone := column_none_shift.1 h
        refine ⟨⟨none, hnone⟩, fun g hg => ?_⟩
        cases hnone.unique hg
    | some f =>
        obtain ⟨g, hg, hsum⟩ := column_some_shift.1 h
        refine ⟨⟨some g, hg⟩, fun g' hg' => ?_⟩
        cases hg.unique hg'
        exact (toNat_eq_add_iff.1 hsum).1
  · rintro ⟨⟨g?, hg⟩, hfits⟩
    cases g? with
    | none =>
        exact ⟨none, column_none_shift.2 hg⟩
    | some g =>
        have hsum := toNat_eq_add_iff.2 ⟨hfits g hg, rfl⟩
        exact ⟨some (g + offset), column_some_shift.2 ⟨g, hg, hsum⟩⟩

/-- Adding an offset keeps the order as long as the sums fit. -/
theorem pairwise_map_add {fs : List FeatureId} (h : fs.Pairwise (· < ·))
    (hfits : ∀ f ∈ fs, f.toNat + offset.toNat < UInt32.size) :
    (fs.map (· + offset)).Pairwise (· < ·) := by
  rw [List.pairwise_map]
  refine h.imp_of_mem fun {a b} ha hb hab => ?_
  have hlt := UInt32.lt_iff_toNat_lt.1 hab
  rw [UInt32.lt_iff_toNat_lt, toNat_eq_add_iff.2 ⟨hfits a ha, rfl⟩,
    toNat_eq_add_iff.2 ⟨hfits b hb, rfl⟩]
  omega

end Column

/-! ## The words of a line -/

section Line

variable {offset : FeatureId} {line line' before after labelText : List Char}
  {columns : List (List Char)} {row : Row} {fault : RowFault}

/-- The words that decide what a line gives: the label, then the columns. -/
def tokens (line : List Char) : List (List Char) :=
  Text.words (line.takeWhile (· ≠ commentMark))

theorem tokens_comment (h : commentMark ∉ before) :
    tokens (before ++ commentMark :: after) = tokens before := by
  have hall := Text.decide_ne_of_not_mem h
  rw [tokens, tokens, List.takeWhile_append_of_pos hall, List.takeWhile_eq_self_iff.2 hall]
  simp

/-- A blank at the end of a line, such as its line feed, makes no difference. -/
theorem tokens_append_blank (line : List Char) {b : Char} (hb : Text.isBlank b = true) :
    tokens (line ++ [b]) = tokens line := by
  by_cases hmark : commentMark ∈ line
  · obtain ⟨before, after, rfl, hbefore⟩ := List.eq_append_cons_of_mem hmark
    rw [List.append_assoc, List.cons_append, tokens_comment hbefore, tokens_comment hbefore]
  · have hne : b ≠ commentMark := by
      rintro rfl
      exact absurd hb (by decide)
    have hall := Text.decide_ne_of_not_mem hmark
    rw [tokens, tokens, List.takeWhile_append_of_pos hall, List.takeWhile_eq_self_iff.2 hall]
    simp [hne, Text.words_append_blank line hb]

theorem read_congr (h : tokens line = tokens line') : read offset line = read offset line' := by
  unfold tokens at h
  rw [read, read, h]

theorem read_eq_ok_none_iff_tokens : read offset line = .ok none ↔ tokens line = [] := by
  rw [read, tokens]
  cases Text.words (line.takeWhile (· ≠ commentMark)) with
  | nil =>
      simp
  | cons labelText columns =>
      simp only [bind_eq_ok_iff, reduceCtorEq, iff_false]
      rintro ⟨label, _, features, _, hrow⟩
      cases hrow

theorem read_eq_ok_none_iff :
    read offset line = .ok none ↔
      (line.takeWhile (· ≠ commentMark)).all Text.isBlank = true := by
  rw [read_eq_ok_none_iff_tokens, tokens, Text.words_eq_nil_iff]

theorem read_of_tokens (h : tokens line = labelText :: columns) :
    read offset line = (do
      let label ← required (.label (String.ofList labelText)) (readFloat? labelText)
      let features ← columns.mapM (readColumn offset)
      return some { label, features := Features.ascending (features.filterMap id) }) := by
  unfold tokens at h
  rw [read, h]

/-! ## Rows -/

/-- A feature of the columns is one that a column adds. -/
theorem mem_filterMap_iff {f : FeatureId} {features : List (Option FeatureId)}
    (h : columns.mapM (readColumn offset) = .ok features) :
    f ∈ features.filterMap id ↔ ∃ word ∈ columns, Column offset word (.ok (some f)) := by
  have hfeatures := mapM_eq_ok_iff.1 h
  have hmem : f ∈ features.filterMap id ↔ some f ∈ features := by
    simp
  rw [hmem]
  simp only [← readColumn_eq_iff]
  clear h hmem
  induction hfeatures with
  | nil =>
      simp
  | cons hhead _ ih =>
      simp [ih, hhead, eq_comm]

theorem mapM_readColumn_iff :
    (∃ features, columns.mapM (readColumn offset) = .ok features) ↔
      ∀ word ∈ columns, ∃ f?, Column offset word (.ok f?) := by
  simp only [exists_mapM_eq_ok_iff, readColumn_eq_iff]

/-- The row of a line has the features that its columns add, each once and in order. -/
theorem read_eq_ok_some_iff :
    read offset line = .ok (some row) ↔
      ∃ labelText columns, tokens line = labelText :: columns ∧
        readFloat? labelText = some row.label ∧
        (∀ word ∈ columns, ∃ f?, Column offset word (.ok f?)) ∧
        row.features.Pairwise (· < ·) ∧
        ∀ f, f ∈ row.features ↔ ∃ word ∈ columns, Column offset word (.ok (some f)) := by
  cases htokens : tokens line with
  | nil =>
      rw [read_eq_ok_none_iff_tokens.2 htokens]
      simp
  | cons labelText columns =>
      rw [read_of_tokens htokens]
      simp only [bind_eq_ok_iff, required_eq_ok_iff, List.cons.injEq, ← mapM_readColumn_iff]
      constructor
      · rintro ⟨label, hlabel, features, hfeatures, ⟨⟩⟩
        refine ⟨labelText, columns, ⟨rfl, rfl⟩, hlabel, ⟨features, hfeatures⟩,
          Features.pairwise_ascending _, fun f => ?_⟩
        rw [Features.mem_ascending_iff, mem_filterMap_iff hfeatures]
      · rintro ⟨_, _, ⟨rfl, rfl⟩, hlabel, ⟨features, hfeatures⟩, hpairwise, hmem⟩
        have hascending : row.features = Features.ascending (features.filterMap id) :=
          Features.eq_ascending_iff.2
            ⟨hpairwise, fun f => (hmem f).trans (mem_filterMap_iff hfeatures).symm⟩
        exact ⟨row.label, hlabel, features, hfeatures, by rw [← hascending]; rfl⟩

/-- The features of a row are strictly ascending. -/
theorem pairwise_features (h : read offset line = .ok (some row)) :
    row.features.Pairwise (· < ·) := by
  obtain ⟨_, _, _, _, _, hpairwise, _⟩ := read_eq_ok_some_iff.1 h
  exact hpairwise

theorem exists_row_iff :
    (∃ row, read offset line = .ok (some row)) ↔
      ∃ labelText columns, tokens line = labelText :: columns ∧
        (∃ label, readFloat? labelText = some label) ∧
        ∀ word ∈ columns, ∃ f?, Column offset word (.ok f?) := by
  constructor
  · rintro ⟨row, h⟩
    obtain ⟨labelText, columns, htokens, hlabel, hvalid, _⟩ := read_eq_ok_some_iff.1 h
    exact ⟨labelText, columns, htokens, ⟨row.label, hlabel⟩, hvalid⟩
  · rintro ⟨labelText, columns, htokens, ⟨label, hlabel⟩, hvalid⟩
    obtain ⟨features, hfeatures⟩ := mapM_readColumn_iff.2 hvalid
    refine ⟨⟨label, Features.ascending (features.filterMap id)⟩, read_eq_ok_some_iff.2
      ⟨labelText, columns, htokens, hlabel, hvalid, Features.pairwise_ascending _, fun f => ?_⟩⟩
    rw [Features.mem_ascending_iff, mem_filterMap_iff hfeatures]

/-- Neither the order of the columns nor their number matters. -/
theorem read_same_columns {columns' : List (List Char)} (h : tokens line = labelText :: columns)
    (h' : tokens line' = labelText :: columns') (hsame : ∀ word, word ∈ columns ↔ word ∈ columns') :
    read offset line = .ok (some row) ↔ read offset line' = .ok (some row) := by
  simp [read_eq_ok_some_iff, h, h', hsame]

theorem mem_map_add_iff {f : FeatureId} {fs : List FeatureId}
    (hmem : ∀ g, g ∈ fs ↔ ∃ word ∈ columns, Column 0 word (.ok (some g)))
    (hfits : ∀ g ∈ fs, g.toNat + offset.toNat < UInt32.size) :
    f ∈ fs.map (· + offset) ↔ ∃ word ∈ columns, Column offset word (.ok (some f)) := by
  simp only [List.mem_map, @column_some_shift offset]
  constructor
  · rintro ⟨g, hg, rfl⟩
    obtain ⟨word, hword, hcolumn⟩ := (hmem g).1 hg
    exact ⟨word, hword, g, hcolumn, toNat_eq_add_iff.2 ⟨hfits g hg, rfl⟩⟩
  · rintro ⟨word, hword, g, hcolumn, hsum⟩
    exact ⟨g, (hmem g).2 ⟨word, hword, hcolumn⟩, (toNat_eq_add_iff.1 hsum).2.symm⟩

/-- The row for an offset is that for none with the offset added to every feature, if that fits. -/
theorem read_shift :
    read offset line = .ok (some row) ↔
      ∃ row₀, read 0 line = .ok (some row₀) ∧
        (∀ f ∈ row₀.features, f.toNat + offset.toNat < UInt32.size) ∧
        row = { row₀ with features := row₀.features.map (· + offset) } := by
  constructor
  · intro h
    obtain ⟨labelText, columns, htokens, hlabel, hvalid, hpairwise, hmem⟩ :=
      read_eq_ok_some_iff.1 h
    have hvalid₀ := fun word hword => (exists_column_shift.1 (hvalid word hword)).1
    obtain ⟨row₀, h₀⟩ := exists_row_iff.2 ⟨labelText, columns, htokens, ⟨_, hlabel⟩, hvalid₀⟩
    obtain ⟨_, _, htokens₀, hlabel₀, _, hpairwise₀, hmem₀⟩ := read_eq_ok_some_iff.1 h₀
    cases htokens.symm.trans htokens₀
    -- Both rows are the features of the same columns.
    have hfits : ∀ g ∈ row₀.features, g.toNat + offset.toNat < UInt32.size := by
      intro g hg
      obtain ⟨word, hword, hcolumn⟩ := (hmem₀ g).1 hg
      exact (exists_column_shift.1 (hvalid word hword)).2 g hcolumn
    have hfeatures : row.features = row₀.features.map (· + offset) :=
      Features.eq_of_pairwise hpairwise (pairwise_map_add hpairwise₀ hfits) fun f =>
        (hmem f).trans (mem_map_add_iff hmem₀ hfits).symm
    have hlabels : row.label = row₀.label := Option.some.inj (hlabel.symm.trans hlabel₀)
    exact ⟨row₀, h₀, hfits, by rw [← hfeatures, ← hlabels]⟩
  · rintro ⟨row₀, h₀, hfits, rfl⟩
    obtain ⟨labelText, columns, htokens, hlabel, hvalid, hpairwise, hmem⟩ :=
      read_eq_ok_some_iff.1 h₀
    refine read_eq_ok_some_iff.2 ⟨labelText, columns, htokens, hlabel, ?_,
      pairwise_map_add hpairwise hfits, fun f => mem_map_add_iff hmem hfits⟩
    intro word hword
    exact exists_column_shift.2
      ⟨hvalid word hword, fun g hg => hfits g ((hmem g).2 ⟨word, hword, hg⟩)⟩

theorem read_eq_error_iff :
    read offset line = .error fault ↔
      ∃ labelText columns, tokens line = labelText :: columns ∧
        (readFloat? labelText = none ∧ fault = .label (String.ofList labelText) ∨
          (∃ label, readFloat? labelText = some label) ∧
            FirstFault (fun word fault => Column offset word (.error fault)) columns fault) := by
  cases htokens : tokens line with
  | nil =>
      rw [read_eq_ok_none_iff_tokens.2 htokens]
      simp
  | cons labelText columns =>
      rw [read_of_tokens htokens]
      simp only [List.cons.injEq, ← readColumn_eq_iff, ← mapM_eq_error_iff]
      cases hlabel : readFloat? labelText with
      | none =>
          simp [required, bind, Except.bind, hlabel, eq_comm]
      | some label =>
          cases hfeatures : columns.mapM (readColumn offset) <;>
            simp [required, bind, Except.bind, pure, Except.pure, hlabel, hfeatures]

/-- What a line gives for an offset. Only the words before the first comment mark matter, where words
are what blanks stand between. There is no row without words. There is a row if the first word is a
number and every other word means a feature or none, and the row has just these features, in strict
order. Otherwise the first word that means neither is the fault, in an error that calls the line by
its number. So words after the first may change places and be repeated, and an offset is added to
every feature. -/
theorem read_exact (offset : FeatureId) (line : List Char) :
    (∀ before after, commentMark ∉ before → line = before ++ commentMark :: after →
      read offset line = read offset before) ∧
    (∀ line', tokens line' = tokens line → read offset line' = read offset line) ∧
    (∀ words, tokens line = words ↔ Text.Spaced (line.takeWhile (· ≠ commentMark)) words) ∧
    (read offset line = .ok none ↔ tokens line = []) ∧
    ((∃ row, read offset line = .ok (some row)) ↔
      ∃ labelText columns, tokens line = labelText :: columns ∧
        (∃ label, readFloat? labelText = some label) ∧
        ∀ word ∈ columns, ∃ f?, Column offset word (.ok f?)) ∧
    (∀ row, read offset line = .ok (some row) ↔
      ∃ labelText columns, tokens line = labelText :: columns ∧
        readFloat? labelText = some row.label ∧
        (∀ word ∈ columns, ∃ f?, Column offset word (.ok f?)) ∧
        row.features.Pairwise (· < ·) ∧
        ∀ f, f ∈ row.features ↔ ∃ word ∈ columns, Column offset word (.ok (some f))) ∧
    (∀ fault, read offset line = .error fault ↔
      ∃ labelText columns, tokens line = labelText :: columns ∧
        (readFloat? labelText = none ∧ fault = .label (String.ofList labelText) ∨
          (∃ label, readFloat? labelText = some label) ∧
            FirstFault (fun word fault => Column offset word (.error fault)) columns fault)) ∧
    (∀ number fault,
      (Error.rows (.line number fault)).category = "data_loading" ∧
        (Error.rows (.line number fault)).message =
          "Data loading error: " ++ ("line " ++ toString number ++ ": " ++ fault.reason)) ∧
    (∀ line' labelText columns columns', tokens line = labelText :: columns →
      tokens line' = labelText :: columns' → (∀ word, word ∈ columns ↔ word ∈ columns') →
        ∀ row, read offset line = .ok (some row) ↔ read offset line' = .ok (some row)) ∧
    ∀ row, read offset line = .ok (some row) ↔
      ∃ row₀, read 0 line = .ok (some row₀) ∧
        (∀ f ∈ row₀.features, f.toNat + offset.toNat < UInt32.size) ∧
        row = { row₀ with features := row₀.features.map (· + offset) } := by
  refine ⟨?comment, fun _ h => read_congr h, fun _ => Text.words_eq_iff,
    read_eq_ok_none_iff_tokens, exists_row_iff, fun _ => read_eq_ok_some_iff,
    fun _ => read_eq_error_iff, fun _ _ => ⟨rfl, rfl⟩,
    fun _ _ _ _ h h' hsame _ => read_same_columns h h' hsame, fun _ => read_shift⟩
  case comment =>
    rintro before after hbefore rfl
    exact read_congr (tokens_comment hbefore)

end Line
end RowLine
end DecisionForest

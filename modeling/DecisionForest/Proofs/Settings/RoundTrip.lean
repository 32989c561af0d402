import DecisionForest.Proofs.Json.Written
import DecisionForest.Proofs.Settings.Files
import DecisionForest.Proofs.Storage
import DecisionForest.Proofs.Text.Ascii
import DecisionForest.Proofs.Toml.Written

/-!
# Settings files read back

A settings file that was written gives every field the value it had, in either format, so reading it
gives the same settings, unless they are refused because of their threshold. The formats differ in
which settings they can write: one has all numbers, the other those below its limit.

- `Settings.entries?_toJson` and `Settings.entries?_writeToml` read documents back field by field,
  `Format.parse_of_write` as a whole,
- `Settings.exists_writeToml_iff` says which settings have a document with limited numbers,
- `Settings.saving` is the writing of a file as a program over files; `Settings.run_saving` says that
  it is `Settings.save`,
- `Settings.save_exact` is what it does, whether it fails or not.
-/

namespace DecisionForest

variable {s : Settings} {files files' : Storage} {name : String} {text : List Char}
  {format : Format} {v : Scalar} {key : String}

/-! ## Documents -/

theorem Scalar.isWord_toJson (v : Scalar) : v.toJson.IsWord := by
  cases v with
  | number n =>
      exact .natural n
  | flag b =>
      exact .bool b
  | other =>
      exact .null

theorem Scalar.ofJson_toJson (v : Scalar) : Scalar.ofJson v.toJson = v := by
  cases v <;> rfl

namespace Settings

theorem isFlat_of_mem (s : Settings) :
    ∀ e ∈ s.scalars.map fun (key, v) => (some key.toList, v.toJson), Json.IsFlat e := by
  have hkeys : ∀ f : Field, ∀ c ∈ f.key.toList, Json.IsLiteral c := by
    intro f
    cases f <;> exact List.all_iff_forall_prop.1 (by decide)
  intro e he
  obtain ⟨⟨key, v⟩, hentry, rfl⟩ := List.mem_map.1 he
  obtain ⟨f, _, heq⟩ := List.mem_map.1 hentry
  cases heq
  exact .mk (hkeys f) (s.get f).isWord_toJson

/-- Keys and values go through JSON and come back. -/
theorem mapM_keyedScalar? (values : List (String × Scalar)) :
    (values.map fun (key, v) => (some key.toList, v.toJson)).mapM keyedScalar? = some values := by
  induction values with
  | nil =>
      rfl
  | cons entry values ih =>
      rw [List.map_cons, List.mapM_cons, ih]
      simp [keyedScalar?, Scalar.ofJson_toJson]

theorem entries?_toJson (s : Settings) : Format.json.entries? s.toJson.pretty = some s.scalars := by
  have hread : Json.parse? s.toJson.pretty = some s.toJson :=
    Json.parse?_pretty (by simp [scalars, Field.all]) s.isFlat_of_mem
  rw [Format.entries?, hread, Option.bind_some]
  exact mapM_keyedScalar? s.scalars

theorem ascii_of_mem_toJson (s : Settings) : ∀ c ∈ s.toJson.pretty, c.toNat < 0x80 :=
  Json.ascii_of_mem_pretty (by simp [scalars, Field.all]) s.isFlat_of_mem

/-- What has a text in the other format is read back from it. -/
theorem exists_wordFor_of_tomlText? (h : tomlText? v = some text) :
    ∃ w, Toml.WordFor text w ∧ Scalar.ofToml w = v := by
  cases v with
  | number n =>
      simp only [tomlText?, Option.ite_none_right_eq_some, Option.some.injEq] at h
      obtain ⟨hn, rfl⟩ := h
      refine ⟨_, .integer hn, ?_⟩
      rw [Scalar.ofToml, if_neg (Int.not_lt.2 (Int.natCast_nonneg n)), Int.toNat_natCast]
  | flag b =>
      cases b with
      | true =>
          cases h
          exact ⟨_, .true, rfl⟩
      | false =>
          cases h
          exact ⟨_, .false, rfl⟩
  | other =>
      cases h

theorem tomlLine_eq_ok_iff {line : List Char} :
    tomlLine key v = .ok line ↔
      ∃ text, tomlText? v = some text ∧ key.toList ++ " = ".toList ++ text ++ ['\n'] = line := by
  rw [tomlLine, bind_eq_ok_iff]
  constructor
  · rintro ⟨text, htext, ⟨⟩⟩
    exact ⟨text, required_eq_ok_iff.1 htext, rfl⟩
  · rintro ⟨text, htext, rfl⟩
    exact ⟨text, required_eq_ok_iff.2 htext, rfl⟩

/-- Written lines come from entries that stand for the values. -/
theorem exists_lineFor {values : List (String × Scalar)} {lines : List (List Char)}
    (h : List.Forall₂ (fun e line => tomlLine e.1 e.2 = .ok line) values lines)
    (hkeys : ∀ e ∈ values, Toml.IsBareKey e.1.toList) :
    ∃ entries : Toml.Entries, List.Forall₂ Toml.LineFor lines entries ∧
      entries.map Prod.fst = values.map (fun e => e.1.toList) ∧
      (entries.map fun (key, v) => (String.ofList key, Scalar.ofToml v)) = values := by
  induction h with
  | nil =>
      exact ⟨[], .nil, rfl, rfl⟩
  | @cons e line values lines hline _ ih =>
      obtain ⟨key, v⟩ := e
      obtain ⟨text, htext, rfl⟩ := tomlLine_eq_ok_iff.1 hline
      obtain ⟨w, hword, hvalue⟩ := exists_wordFor_of_tomlText? htext
      obtain ⟨entries, hlines, hfirst, hentries⟩ := ih fun e he => hkeys e (List.mem_cons_of_mem _ he)
      have hkey := hkeys (key, v) List.mem_cons_self
      refine ⟨(key.toList, w) :: entries, .cons (.mk hkey hword) hlines, ?_, ?_⟩
      · rw [List.map_cons, List.map_cons, hfirst]
      · rw [List.map_cons, hentries]
        simp only [hvalue, String.ofList_toList]

theorem exists_lines_of_writeToml (h : s.writeToml = .ok text) :
    ∃ (lines : List (List Char)) (entries : Toml.Entries), lines.flatten = text ∧
      List.Forall₂ Toml.LineFor lines entries ∧ (entries.map Prod.fst).Nodup ∧
      (entries.map fun (key, v) => (String.ofList key, Scalar.ofToml v)) = s.scalars := by
  have hkeys : ∀ f : Field, Toml.IsBareKey f.key.toList := by
    intro f
    cases f <;> exact ⟨by decide, List.all_iff_forall_prop.1 (by decide)⟩
  have hdistinct : (Field.all.map fun f => f.key.toList).Nodup := by decide
  rw [writeToml, bind_eq_ok_iff] at h
  obtain ⟨lines, hlines, ⟨⟩⟩ := h
  have hbare : ∀ e ∈ s.scalars, Toml.IsBareKey e.1.toList := by
    intro e he
    obtain ⟨f, _, rfl⟩ := List.mem_map.1 he
    exact hkeys f
  obtain ⟨entries, hfor, hfirst, hentries⟩ := exists_lineFor (mapM_eq_ok_iff.1 hlines) hbare
  refine ⟨lines, entries, rfl, hfor, ?_, hentries⟩
  rw [hfirst, scalars, List.map_map]
  exact hdistinct

theorem entries?_writeToml (h : s.writeToml = .ok text) :
    Format.toml.entries? text = some s.scalars := by
  obtain ⟨lines, entries, rfl, hlines, hdistinct, hentries⟩ := exists_lines_of_writeToml h
  rw [Format.entries?, Toml.parse?_flatten hlines hdistinct, Option.map_some, hentries]

theorem ascii_of_mem_writeToml (h : s.writeToml = .ok text) : ∀ c ∈ text, c.toNat < 0x80 := by
  obtain ⟨lines, entries, rfl, hlines, _⟩ := exists_lines_of_writeToml h
  exact Toml.ascii_of_mem_flatten hlines

theorem exists_tomlText?_number_iff {n : Nat} :
    (∃ text, tomlText? (.number n) = some text) ↔ n < Toml.integerLimit := by
  simp only [tomlText?, Option.ite_none_right_eq_some, exists_and_left, Option.some.injEq,
    exists_eq', and_true]

theorem exists_tomlText?_flag (b : Bool) : ∃ text, tomlText? (.flag b) = some text := by
  cases b <;> exact ⟨_, rfl⟩

theorem exists_writeToml_iff_forall :
    (∃ text, s.writeToml = .ok text) ↔ ∀ f, ∃ text, tomlText? (s.get f) = some text := by
  have hlines : (∃ text, s.writeToml = .ok text) ↔
      ∃ lines, (s.scalars.mapM fun (key, v) => tomlLine key v) = .ok lines := by
    constructor
    · rintro ⟨text, htext⟩
      obtain ⟨lines, hlines, _⟩ := bind_eq_ok_iff.1 htext
      exact ⟨lines, hlines⟩
    · rintro ⟨lines, hlines⟩
      exact ⟨lines.flatten, bind_eq_ok_iff.2 ⟨lines, hlines, rfl⟩⟩
  rw [hlines, exists_mapM_eq_ok_iff, scalars, List.forall_mem_map]
  constructor
  · intro h f
    obtain ⟨line, hline⟩ := h f (Field.mem_all f)
    obtain ⟨text, htext, _⟩ := tomlLine_eq_ok_iff.1 hline
    exact ⟨text, htext⟩
  · intro h f _
    obtain ⟨text, htext⟩ := h f
    exact ⟨_, tomlLine_eq_ok_iff.2 ⟨text, htext, rfl⟩⟩

/-- The two numbers that may be too large for the format are not. -/
def FitsToml (s : Settings) : Prop :=
  s.numThreads.toNat ≤ 2 ^ 63 - 1 ∧ s.parallelThreshold.toNat ≤ 2 ^ 63 - 1

theorem exists_writeToml_iff : (∃ text, s.writeToml = .ok text) ↔ s.FitsToml := by
  have hlimit : ∀ n, n < Toml.integerLimit ↔ n ≤ 2 ^ 63 - 1 := fun n =>
    Nat.lt_iff_le_pred (by decide)
  rw [exists_writeToml_iff_forall, FitsToml, ← hlimit, ← hlimit]
  constructor
  · intro h
    exact ⟨exists_tomlText?_number_iff.1 (h .numThreads),
      exists_tomlText?_number_iff.1 (h .parallelThreshold)⟩
  · rintro ⟨hthreads, hthreshold⟩ f
    cases f with
    | featureOffset =>
        have hoffset : s.featureOffset.toNat < Toml.integerLimit :=
          Nat.lt_trans s.featureOffset.toNat_lt (by decide)
        exact exists_tomlText?_number_iff.2 hoffset
    | numThreads =>
        exact exists_tomlText?_number_iff.2 hthreads
    | parallelThreshold =>
        exact exists_tomlText?_number_iff.2 hthreshold
    | rawScore | strictFeatures | rejectCycles | checkHeader =>
        exact exists_tomlText?_flag _

/-- Settings without a document have a number that is too large. -/
theorem exists_tomlRange_of_writeToml {fault : SettingsFault} (h : s.writeToml = .error fault) :
    ∃ key, fault = .tomlRange key := by
  rw [writeToml] at h
  cases hlines : s.scalars.mapM fun (key, v) => tomlLine key v with
  | ok lines =>
      rw [hlines] at h
      cases h
  | error fault' =>
      rw [hlines] at h
      cases h
      obtain ⟨⟨key, v⟩, _, hline⟩ := (mapM_eq_error_iff.1 hlines).exists_mem
      refine ⟨key, ?_⟩
      cases htext : tomlText? v with
      | none =>
          simp only [tomlLine, htext, required] at hline
          cases hline
          rfl
      | some text =>
          simp only [tomlLine, htext, required] at hline
          cases hline

end Settings

namespace Format

theorem ofName?_json (h : FileName.extension? name = some "json".toList) :
    ofName? name = some .json := by
  rw [ofName?, h]
  rfl

theorem ofName?_toml (h : FileName.extension? name = some "toml".toList) :
    ofName? name = some .toml := by
  rw [ofName?, h]
  rfl

theorem ofName?_other (hjson : FileName.extension? name ≠ some "json".toList)
    (htoml : FileName.extension? name ≠ some "toml".toList) : ofName? name = none := by
  rw [ofName?]
  split
  case h_1 =>
    rfl
  case h_2 ext hext =>
    rw [hext] at hjson htoml
    rw [if_neg fun heq => hjson (congrArg some heq), if_neg fun heq => htoml (congrArg some heq)]

theorem parse_of_write (h : format.write s = .ok text) : format.parse text = .ok s := by
  rw [parse_eq_ok_iff]
  cases format with
  | json =>
      cases h
      rw [Settings.entries?_toJson, Option.bind_some, Settings.ofScalars?_scalars]
  | toml =>
      rw [Settings.entries?_writeToml h, Option.bind_some, Settings.ofScalars?_scalars]

theorem ascii_of_mem_write (h : format.write s = .ok text) : ∀ c ∈ text, c.toNat < 0x80 := by
  cases format with
  | json =>
      cases h
      exact s.ascii_of_mem_toJson
  | toml =>
      exact Settings.ascii_of_mem_writeToml h

end Format

/-! ## Files -/

namespace Settings

theorem save_eq_ok_iff :
    s.save files name = .ok files' ↔
      ∃ format text, Format.ofName? name = some format ∧ format.write s = .ok text ∧
        files.write name (Utf8.encode (String.ofList text)) = .ok files' := by
  simp only [save, bind_eq_ok_iff, required_eq_ok_iff, mapError_eq_ok_iff]
  constructor
  · rintro ⟨format, hformat, text, htext, hwrite⟩
    exact ⟨format, text, hformat, htext, hwrite⟩
  · rintro ⟨format, text, hformat, htext, hwrite⟩
    exact ⟨format, hformat, text, htext, hwrite⟩

theorem exists_save_iff :
    (∃ files', s.save files name = .ok files') ↔
      ∃ format, Format.ofName? name = some format ∧ (∃ text, format.write s = .ok text) ∧
        files.Writable name := by
  simp only [save_eq_ok_iff]
  constructor
  · rintro ⟨files', format, text, hformat, htext, hwrite⟩
    exact ⟨format, hformat, ⟨text, htext⟩, Storage.exists_write_iff.1 ⟨files', hwrite⟩⟩
  · rintro ⟨format, hformat, ⟨text, htext⟩, hwritable⟩
    obtain ⟨files', hwrite⟩ := Storage.exists_write_iff.2 hwritable
    exact ⟨files', format, text, hformat, htext, hwrite⟩

/-- A file that was saved has the text that was written. -/
theorem text_of_write (hascii : ∀ c ∈ text, c.toNat < 0x80)
    (h : files.write name (Utf8.encode (String.ofList text)) = .ok files') :
    files'.read.text name = .ok (String.ofList text) := by
  have hread := Storage.read_of_write h
  rw [Utf8.encode_eq_ascii hascii] at hread
  simp only [Reader.text, hread, Utf8.decode?_encode_ascii hascii, bind, Except.bind, pure,
    Except.pure]

theorem ofText_of_save (h : s.save files name = .ok files') :
    ∃ text, files'.read.text name = .ok text ∧ ofText name text = .ok s := by
  obtain ⟨format, text, hformat, htext, hwrite⟩ := save_eq_ok_iff.1 h
  refine ⟨String.ofList text, text_of_write (format.ascii_of_mem_write htext) hwrite, ?_⟩
  rw [ofText_eq_ok_iff]
  exact ⟨format, hformat, by rw [String.toList_ofList]; exact Format.parse_of_write htext⟩

/-- A saved file is read back, and only the threshold can refuse it. -/
theorem ofFile_of_save (h : s.save files name = .ok files') :
    ofFile files'.read name = s.validate.map fun _ => s := by
  obtain ⟨text, htext, hparse⟩ := ofText_of_save h
  rw [ofFile, htext]
  simp only [Except.mapError, hparse, bind, Except.bind]
  cases s.validate <;> rfl

/-! ## What a failure leaves behind -/

/-- Saving as a program over files, step by step: whatever its steps have changed when one of them
fails, stays changed. -/
def saving (s : Settings) (name : String) : ExceptT Error (StateM Storage) Unit := do
  let format ← required (Error.settings .extension) (Format.ofName? name)
  let text ← (format.write s).mapError Error.settings
  let files ← getThe Storage
  let files' ← (files.write name (Utf8.encode (String.ofList text))).mapError fun e =>
    Error.settings (.unwritable e)
  set files'

/-- How a program ends that makes new files or fails and changes nothing. -/
def ending (files : Storage) : Except Error Storage → Except Error Unit × Storage
  | .ok files' => (.ok (), files')
  | .error e => (.error e, files)

/-- A step that only computes leaves the files to the steps after it. -/
theorem run_liftM_bind {α : Type} {x : Except Error α} {next : α → ExceptT Error (StateM Storage) Unit}
    {result : α → Except Error Storage}
    (h : ∀ a, (next a).run.run files = ending files (result a)) :
    (liftM x >>= next : ExceptT Error (StateM Storage) Unit).run.run files =
      ending files (x >>= result) := by
  cases x with
  | error e =>
      rfl
  | ok a =>
      exact h a

theorem run_saving (s : Settings) (files : Storage) (name : String) :
    (s.saving name).run.run files = ending files (s.save files name) := by
  refine run_liftM_bind fun format => run_liftM_bind fun text => ?_
  -- The files are looked at once and are those from before.
  change (liftM ((files.write name (Utf8.encode (String.ofList text))).mapError fun e =>
    Error.settings (.unwritable e)) >>= set : ExceptT Error (StateM Storage) Unit).run.run files = _
  cases files.write name (Utf8.encode (String.ofList text)) <;> rfl

/-- Any settings are saved under any name. With the extension of the format that has all numbers this
succeeds where a file can be written, with that of the other format only if no number is above its
limit. What was saved is read back exactly, or refused because its threshold is zero. Where the
extension is another one or a number is too large, saving fails and all files stay as they are. -/
theorem save_exact (s : Settings) (files : Storage) (name : String) :
    (FileName.extension? name = some "json".toList → files.Writable name →
        ∃ files', s.save files name = .ok files') ∧
      (FileName.extension? name = some "toml".toList → files.Writable name →
        ((∃ files', s.save files name = .ok files') ↔ s.FitsToml)) ∧
      (∀ files', s.save files name = .ok files' →
        (1 ≤ s.parallelThreshold → ofFile files'.read name = .ok s) ∧
          (s.parallelThreshold = 0 → ofFile files'.read name =
            .error (.parameter "parallel_threshold" "0" "must be at least 1"))) ∧
      (FileName.extension? name ≠ some "json".toList →
        FileName.extension? name ≠ some "toml".toList →
          s.save files name = .error (.settings .extension) ∧
            (s.saving name).run.run files = (.error (.settings .extension), files)) ∧
      (FileName.extension? name = some "toml".toList → ¬ s.FitsToml →
        ∃ key, s.save files name = .error (.settings (.tomlRange key)) ∧
          (s.saving name).run.run files = (.error (.settings (.tomlRange key)), files)) := by
  refine ⟨?json, ?toml, ?read, ?extension, ?range⟩
  case json =>
    intro hext hwritable
    exact exists_save_iff.2 ⟨.json, Format.ofName?_json hext, ⟨_, rfl⟩, hwritable⟩
  case toml =>
    intro hext hwritable
    rw [← exists_writeToml_iff, exists_save_iff]
    constructor
    · rintro ⟨format, hformat, hwrite, _⟩
      cases hformat.symm.trans (Format.ofName?_toml hext)
      exact hwrite
    · intro hwrite
      exact ⟨.toml, Format.ofName?_toml hext, hwrite, hwritable⟩
  case read =>
    intro files' hsave
    rw [ofFile_of_save hsave]
    constructor
    · intro hthreshold
      rw [validate_eq_ok_iff_one_le.2 hthreshold]
      rfl
    · intro hzero
      rw [validate, if_pos hzero]
      rfl
  case extension =>
    intro hjson htoml
    have hsave : s.save files name = .error (.settings .extension) := by
      rw [save, Format.ofName?_other hjson htoml]
      rfl
    exact ⟨hsave, by rw [run_saving, hsave]; rfl⟩
  case range =>
    intro hext hlarge
    obtain ⟨fault, hfault⟩ := exists_eq_error_iff.2 fun text htext =>
      hlarge (exists_writeToml_iff.1 ⟨text, htext⟩)
    obtain ⟨key, rfl⟩ := exists_tomlRange_of_writeToml hfault
    have hsave : s.save files name = .error (.settings (.tomlRange key)) := by
      rw [save, Format.ofName?_toml hext]
      simp only [required, Format.write, hfault, bind, Except.bind, Except.mapError]
    exact ⟨key, hsave, by rw [run_saving, hsave]; rfl⟩

/-- More threads than the format with a limit has a number for. -/
def crowded : Settings :=
  { featureOffset := 4294967295, numThreads := 9223372036854775808
    parallelThreshold := 18446744073709551615 }

theorem save_exact_crowded :
    Storage.empty.Writable "crowded.json" ∧
      (∃ files', crowded.save .empty "crowded.json" = .ok files' ∧
        ofFile files'.read "crowded.json" = .ok crowded) ∧
      ∃ key, (crowded.saving "crowded.toml").run.run .empty =
        (.error (.settings (.tomlRange key)), .empty) := by
  have hwritable : Storage.empty.Writable "crowded.json" :=
    ⟨by decide +kernel, ["crowded.json".toList], by decide +kernel, by decide +kernel⟩
  have hlarge : ¬ crowded.FitsToml := by
    rintro ⟨hthreads, _⟩
    exact absurd hthreads (by decide)
  obtain ⟨hjson, _, hread, _, _⟩ := save_exact crowded .empty "crowded.json"
  obtain ⟨_, _, _, _, hrange⟩ := save_exact crowded .empty "crowded.toml"
  obtain ⟨files', hsave⟩ := hjson (by decide +kernel) hwritable
  obtain ⟨key, _, hrun⟩ := hrange (by decide +kernel) hlarge
  exact ⟨hwritable, ⟨files', hsave, (hread files' hsave).1 (by decide)⟩, key, hrun⟩

end Settings
end DecisionForest

import DecisionForest.Proofs.Settings.Fields
import DecisionForest.Proofs.Settings.Valid

/-!
# What a settings file says

A document of either format comes to keyed values, and these make settings. A file is of no use where
it cannot be read, its document has no such values or none that fit, or the settings are invalid.

- `Format.entries?` lists the keyed values of a document; `Format.parse_eq_ok_iff` makes settings of
  them,
- `Settings.Gives` tells what a file has for each field,
- `Settings.Unusable` is a file of no use; `Settings.exists_ofFile_eq_error_iff` says that no other
  file fails.
-/

namespace DecisionForest

variable {s : Settings} {read : Reader} {name : String} {document : List Char}

/-! ## Documents -/

def Settings.jsonEntries? : Json → Option (List (String × Scalar))
  | .object entries => entries.mapM keyedScalar?
  | .array items =>
    if items.length ≤ Field.all.length then
      some (Field.all.zipWith (fun f v => (f.key, Scalar.ofJson v)) items)
    else none
  | _ => none

theorem Settings.ofJson?_eq (v : Json) : ofJson? v = (jsonEntries? v).bind ofScalars? := by
  cases v with
  | array items =>
      rw [ofJson?, jsonEntries?]
      split <;> rfl
  | _ =>
      rfl

namespace Format

/-- The keyed values of a document. -/
def entries? (format : Format) (document : List Char) : Option (List (String × Scalar)) :=
  match format with
  | .json => (Json.parse? document).bind Settings.jsonEntries?
  | .toml =>
    (Toml.parse? document).map fun entries =>
      entries.map fun (key, v) => (String.ofList key, Scalar.ofToml v)

theorem parse_eq_ok_iff (format : Format) :
    format.parse document = .ok s ↔
      (format.entries? document).bind Settings.ofScalars? = some s := by
  cases format with
  | json =>
      rw [parse, mapError_eq_ok_iff, Settings.parseJson, entries?]
      cases Json.parse? document with
      | none =>
          simp
      | some v =>
          rw [Option.bind_some, ← Settings.ofJson?_eq]
          exact required_eq_ok_iff
  | toml =>
      rw [parse, mapError_eq_ok_iff, Settings.parseToml, entries?]
      cases Toml.parse? document with
      | none =>
          simp
      | some entries =>
          exact required_eq_ok_iff

end Format

/-! ## Files -/

namespace Settings

theorem ofText_eq_ok_iff {text : String} :
    ofText name text = .ok s ↔
      ∃ format, Format.ofName? name = some format ∧ format.parse text.toList = .ok s := by
  simp only [ofText, bind_eq_ok_iff, required_eq_ok_iff]

theorem ofFile_eq_ok_iff :
    ofFile read name = .ok s ↔
      ∃ text, read.text name = .ok text ∧ ofText name text = .ok s ∧ s.validate = .ok () := by
  simp only [ofFile, bind_eq_ok_iff, mapError_eq_ok_iff]
  constructor
  · rintro ⟨text, htext, s', hs', ⟨⟩, hvalid, ⟨⟩⟩
    exact ⟨text, htext, hs', hvalid⟩
  · rintro ⟨text, htext, hs, hvalid⟩
    exact ⟨text, htext, s, hs, (), hvalid, rfl⟩

/-- What a file has for each field. -/
def Gives (read : Reader) (name : String) (values : Field → Option Scalar) : Prop :=
  ∃ text format entries, read.text name = .ok text ∧ Format.ofName? name = some format ∧
    format.entries? text.toList = some entries ∧ ∀ f, values f = entries.lookup f.key

theorem exists_gives_of_ofFile (h : ofFile read name = .ok s) :
    ∃ values, Gives read name values ∧
      ∀ f, s.get f = (values f).getD (({} : Settings).get f) := by
  obtain ⟨text, htext, hs, _⟩ := ofFile_eq_ok_iff.1 h
  obtain ⟨format, hformat, hparse⟩ := ofText_eq_ok_iff.1 hs
  obtain ⟨entries, hentries, hscalars⟩ := Option.bind_eq_some_iff.1 (format.parse_eq_ok_iff.1 hparse)
  exact ⟨fun f => entries.lookup f.key,
    ⟨text, format, entries, htext, hformat, hentries, fun _ => rfl⟩, get_of_ofScalars? hscalars⟩

/-- Why a file cannot be used: it cannot be read as text, its text does not stand for settings, or it
stands for invalid ones. -/
inductive Unusable (read : Reader) (name : String) : Prop where
  | unreadable {e : StorageError} : read.text name = .error e → Unusable read name
  | unparsable {text : String} : read.text name = .ok text → (∀ s, ofText name text ≠ .ok s) →
      Unusable read name
  | invalid {text : String} {s : Settings} : read.text name = .ok text → ofText name text = .ok s →
      s.parallelThreshold = 0 → Unusable read name

theorem exists_ofFile_eq_error_iff :
    (∃ e, ofFile read name = .error e) ↔ Unusable read name := by
  rw [exists_eq_error_iff]
  constructor
  · intro h
    cases htext : read.text name with
    | error e =>
        exact .unreadable htext
    | ok text =>
        by_cases hparses : ∃ s, ofText name text = .ok s
        · obtain ⟨s, hs⟩ := hparses
          refine .invalid htext hs ?_
          by_contra hthreshold
          exact h s (ofFile_eq_ok_iff.2 ⟨text, htext, hs, validate_eq_ok_iff.2 hthreshold⟩)
        · exact .unparsable htext fun s hs => hparses ⟨s, hs⟩
  · intro h s hs
    obtain ⟨text, htext, hparse, hvalid⟩ := ofFile_eq_ok_iff.1 hs
    cases h with
    | unreadable htext' =>
        cases htext.symm.trans htext'
    | unparsable htext' hfails =>
        cases htext.symm.trans htext'
        exact hfails s hparse
    | invalid htext' hparse' hthreshold =>
        cases htext.symm.trans htext'
        cases hparse.symm.trans hparse'
        exact validate_eq_ok_iff.1 hvalid hthreshold

end Settings
end DecisionForest

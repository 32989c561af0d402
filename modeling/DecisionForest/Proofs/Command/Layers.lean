import DecisionForest.Proofs.Command.Arguments
import DecisionForest.Proofs.Command.Run
import DecisionForest.Proofs.Settings.Files
import DecisionForest.Proofs.Settings.Variables

/-!
# Layers of settings

A field of the settings has its value from the first of four places that has one: the options, the
variables, the settings file, the defaults. An option without a value of its own stands for the truth
of its field, so it never turns a field off.

- `Arguments.Given.value?` and `Invocation.value?` are what options have for a field; the second comes
  from the first (`Invocation.exists_given_of_parse`),
- `Invocation.exists_layers` puts the four places together where every variable is valid,
- `Invocation.settings_exact` says when the settings are built, and which ones.
-/

namespace DecisionForest

/-! ## Options for fields -/

/-- What the options of some arguments have for a field. -/
def Arguments.Given.value? (g : Given) : Field → Option Scalar
  | .featureOffset => g.featureOffset.map fun n => .number n.toNat
  | .rawScore => if .rawScore ∈ g.flags then some (.flag true) else none
  | .strictFeatures => if .strict ∈ g.flags then some (.flag true) else none
  | .rejectCycles => if .rejectCycles ∈ g.flags then some (.flag true) else none
  | .numThreads => g.threads.map fun n => .number n.toNat
  | .checkHeader | .parallelThreshold => none

namespace Invocation

variable {i : Invocation} {read : Reader} {env : Environment} {machine : Machine}
  {arguments : List String} {s s₀ : Settings}

/-- What the options have for a field. -/
def value? (i : Invocation) : Field → Option Scalar
  | .featureOffset => i.featureOffset.map fun n => .number n.toNat
  | .rawScore => if i.rawScore then some (.flag true) else none
  | .strictFeatures => if i.strict then some (.flag true) else none
  | .rejectCycles => if i.rejectCycles then some (.flag true) else none
  | .numThreads => i.threads.map fun n => .number n.toNat
  | .checkHeader | .parallelThreshold => none

/-- Accepted arguments are taken over as they are; the variable stands in for a file that they do not
name. -/
theorem exists_given_of_parse (h : Arguments.parse env arguments = .ok i) :
    ∃ g, Arguments.readAll {} arguments = .ok g ∧
      i.configFile = g.config.or (env Arguments.configVariable) ∧
      ∀ f, i.value? f = g.value? f := by
  obtain ⟨g, hread, _, modelFile, rowsFile, _, rfl⟩ := Arguments.parse_eq_ok_iff_readAll.1 h
  refine ⟨g, hread, rfl, fun f => ?_⟩
  cases f <;> simp [value?, Arguments.Given.value?, Arguments.Given.invocation]

theorem get_applyOptions (i : Invocation) (s : Settings) (f : Field) :
    (i.applyOptions s).get f = (i.value? f).getD (s.get f) := by
  cases f with
  | featureOffset =>
      cases hoffset : i.featureOffset <;> simp [applyOptions, Settings.get, value?, hoffset]
  | rawScore =>
      cases hraw : i.rawScore <;> simp [applyOptions, Settings.get, value?, hraw]
  | strictFeatures =>
      cases hstrict : i.strict <;> simp [applyOptions, Settings.get, value?, hstrict]
  | rejectCycles =>
      cases hcycles : i.rejectCycles <;> simp [applyOptions, Settings.get, value?, hcycles]
  | numThreads =>
      cases hthreads : i.threads <;> simp [applyOptions, Settings.get, value?, hthreads]
  | checkHeader | parallelThreshold =>
      rfl

/-! ## The file -/

/-- What the chosen file has for each field; without a file nothing has a value. -/
def FileGives (i : Invocation) (read : Reader) (values : Field → Option Scalar) : Prop :=
  match i.settingsFile? read with
  | none => ∀ f, values f = none
  | some name => Settings.Gives read name values

theorem exists_fileGives (h : i.fileSettings read = .ok s₀) :
    ∃ values, i.FileGives read values ∧
      ∀ f, s₀.get f = (values f).getD (({} : Settings).get f) := by
  unfold fileSettings at h
  unfold FileGives
  cases hname : i.settingsFile? read with
  | none =>
      rw [hname] at h
      cases h
      exact ⟨fun _ => none, fun _ => rfl, fun _ => rfl⟩
  | some name =>
      rw [hname] at h
      exact Settings.exists_gives_of_ofFile h

theorem exists_fileSettings_eq_error_iff :
    (∃ e, i.fileSettings read = .error e) ↔
      ∃ name, i.settingsFile? read = some name ∧ Settings.Unusable read name := by
  constructor
  · rintro ⟨e, he⟩
    obtain ⟨name, hname, hfile⟩ := exists_name_of_fileSettings he
    exact ⟨name, hname, Settings.exists_ofFile_eq_error_iff.1 ⟨e, hfile⟩⟩
  · rintro ⟨name, hname, hunusable⟩
    rw [fileSettings, hname]
    exact Settings.exists_ofFile_eq_error_iff.2 hunusable

/-! ## All layers -/

theorem exists_layers (hfile : i.fileSettings read = .ok s₀)
    (hvalid : ∀ f fault, ¬ env.Invalid f fault) :
    ∃ s, (i.settings read env machine).result = .ok s ∧ ∃ values, i.FileGives read values ∧
      ∀ f, s.get f =
        (((i.value? f).or (env.value? f)).or (values f)).getD (({} : Settings).get f) := by
  obtain ⟨values, hgives, hget₀⟩ := exists_fileGives hfile
  obtain ⟨s₁, hget₁, _, hoverride⟩ :=
    Settings.exists_override_of_valid (fun f _ => hvalid f) s₀
  rw [validate_of_fileSettings hfile] at hoverride
  refine ⟨i.applyOptions s₁, ?_, values, hgives, fun f => ?_⟩
  · rw [result_settings_of_fileSettings hfile, hoverride]
  · rw [get_applyOptions, hget₁, hget₀]
    cases i.value? f <;> cases env.value? f <;> rfl

/-- One invalid variable is enough, whatever the options have for its field. -/
theorem exists_error_of_invalid (hfile : i.fileSettings read = .ok s₀) {f : Field}
    {fault : SettingsFault} (h : env.Invalid f fault) :
    ∃ failure, (i.settings read env machine).result = .error failure := by
  obtain ⟨fault', before, g, after, hfields, hbefore, hfirst⟩ :=
    exists_firstFault_iff.2 ⟨f, h.mem_replaceable, fault, h⟩
  have herror := (Settings.override_of_invalid hfields hbefore hfirst s₀).1
  exact ⟨_, by rw [result_settings_of_fileSettings hfile, herror]⟩

/-- The settings of an invocation. Where it comes from arguments, its options are the items that these
spell, and the file is the one of the option, else that of the variable, else the default one where
it is a file. The settings are refused exactly where that file is of no use or a variable is invalid,
also one that an option replaces. Otherwise each field has the value of its option, else that of its
variable, else that of the file, else the default. The checks after the variables and after the
options never fail by themselves. -/
theorem settings_exact (i : Invocation) (read : Reader) (env : Environment) (machine : Machine) :
    (∀ arguments, Arguments.parse env arguments = .ok i →
        ∃ g, Arguments.readAll {} arguments = .ok g ∧ (∀ f, i.value? f = g.value? f) ∧
          i.settingsFile? read =
            (g.config.or (env "DTREE_CONFIG")).or
              (if read.isFile "dtree.toml" then some "dtree.toml" else none) ∧
          ∃ items, Arguments.Reads arguments items ∧ Arguments.Acceptable items ∧
            g.Holds items) ∧
      ((∃ failure, (i.settings read env machine).result = .error failure) ↔
        (∃ name, i.settingsFile? read = some name ∧ Settings.Unusable read name) ∨
          ∃ f fault, env.Invalid f fault) ∧
      (∀ s, (i.settings read env machine).result = .ok s →
        ∃ values, i.FileGives read values ∧
          ∀ f, s.get f =
            (((i.value? f).or (env.value? f)).or (values f)).getD (({} : Settings).get f)) ∧
      ∀ s₀, i.fileSettings read = .ok s₀ →
        (s₀.override env).settings.validate = .ok () ∧
          (i.applyOptions (s₀.override env).settings).validate = .ok () := by
  refine ⟨?arguments, ?refused, ?built, ?checks⟩
  case arguments =>
    intro arguments hparse
    obtain ⟨g, hread, hconfig, hvalues⟩ := exists_given_of_parse hparse
    refine ⟨g, hread, hvalues, ?_, Arguments.exists_items_of_readAll hread⟩
    change _ = (g.config.or (env Arguments.configVariable)).or _
    rw [← hconfig, settingsFile?]
    cases i.configFile <;> rfl
  case refused =>
    rw [← exists_fileSettings_eq_error_iff]
    cases hfile : i.fileSettings read with
    | error e =>
        obtain ⟨name, hname, hread⟩ := exists_name_of_fileSettings hfile
        exact iff_of_true ⟨_, result_settings_of_error hname hread⟩ (Or.inl ⟨e, rfl⟩)
    | ok s₀ =>
        simp only [reduceCtorEq, exists_false, false_or]
        constructor
        · rintro ⟨failure, hfailure⟩
          by_contra hnone
          obtain ⟨s, hs, _⟩ :=
            exists_layers hfile fun f fault h => hnone ⟨f, fault, h⟩
          cases hfailure.symm.trans hs
        · rintro ⟨f, fault, hinvalid⟩
          exact exists_error_of_invalid hfile hinvalid
  case built =>
    intro s hs
    cases hfile : i.fileSettings read with
    | error e =>
        obtain ⟨name, hname, hread⟩ := exists_name_of_fileSettings hfile
        cases hs.symm.trans (result_settings_of_error hname hread)
    | ok s₀ =>
        have hvalid : ∀ f fault, ¬ env.Invalid f fault := by
          intro f fault hinvalid
          obtain ⟨failure, hfailure⟩ := exists_error_of_invalid hfile hinvalid
          cases hs.symm.trans hfailure
        obtain ⟨s', hs', hlayers⟩ := exists_layers hfile hvalid
        cases hs.symm.trans hs'
        exact hlayers
  case checks =>
    intro s₀ hfile
    have hvalid : (s₀.override env).settings.validate = .ok () :=
      Settings.validate_override (validate_of_fileSettings hfile)
    exact ⟨hvalid, by rw [validate_applyOptions, hvalid]⟩

/-- A default file that publishes scores, wants seven threads and scores small batches on many. -/
def layeredFiles : Reader := fun name =>
  if name = "dtree.toml" then
    .ok (Utf8.encode "raw_score = true\nnum_threads = 7\nparallel_threshold = 5\n")
  else .error .notFound

/-- Fewer threads, and another offset. -/
def layeredVariables : Environment :=
  Environment.ofList [("DTREE_NUM_THREADS", "3"), ("DTREE_FEATURE_OFFSET", "2")]

/-- A third offset, and a check of the order of features. -/
def layeredArguments : List String :=
  ["--strict", "--feature-offset=9", "model.txt", "rows.svm"]

def layered : Invocation :=
  { modelFile := "model.txt", rowsFile := "rows.svm", strict := true, featureOffset := some 9 }

theorem settings_exact_layered :
    Arguments.parse layeredVariables layeredArguments = .ok layered ∧
      (∃ items, Arguments.Reads layeredArguments items ∧ .flag .strict ∈ items) ∧
      (layered.settings layeredFiles layeredVariables {}).result =
        .ok { featureOffset := 9, rawScore := true, strictFeatures := true, numThreads := 3,
              parallelThreshold := 5 } ∧
      ∃ values, layered.FileGives layeredFiles values ∧
        (((layered.value? .numThreads).or (layeredVariables.value? .numThreads)).or
          (values .numThreads)).getD (({} : Settings).get .numThreads) = .number 3 := by
  have hparse : Arguments.parse layeredVariables layeredArguments = .ok layered := by
    decide +kernel
  have hresult : (layered.settings layeredFiles layeredVariables {}).result =
      .ok { featureOffset := 9, rawScore := true, strictFeatures := true, numThreads := 3,
            parallelThreshold := 5 } := by
    decide +kernel
  obtain ⟨harguments, _, hbuilt, _⟩ := settings_exact layered layeredFiles layeredVariables {}
  obtain ⟨g, _, hoptions, _, items, hreads, _, hholds⟩ := harguments layeredArguments hparse
  obtain ⟨values, hgives, hget⟩ := hbuilt _ hresult
  have hstrict : Flag.strict ∈ g.flags := by
    by_contra hnone
    simpa [layered, value?, Arguments.Given.value?, hnone] using hoptions .strictFeatures
  exact ⟨hparse, ⟨items, hreads, (hholds.flags .strict).1 hstrict⟩, hresult, values, hgives,
    (hget .numThreads).symm⟩

end Invocation
end DecisionForest

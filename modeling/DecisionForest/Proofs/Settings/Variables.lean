import DecisionForest.Proofs.Settings.Fields
import DecisionForest.Proofs.Settings.Valid

/-!
# What variables do to settings

Five fields have a variable of their own. The variables are gone through in the order of the fields; a
variable that is set replaces its field by the value that its text stands for, and the first one whose
text stands for no value ends the run there, with the fields before it replaced.

- `Field.variableName?` is the variable of a field and `Field.ofText?` the value of a text,
- `Environment.value?` is what an environment has for a field, `Environment.Invalid` a variable that
  is set to a text without a value, with the fault of it,
- `Override.Replaces` is what one variable does,
- `Settings.override_exact` is what they all do, whether they fail or not.
-/

namespace DecisionForest

variable {env : Environment} {s : Settings} {o : Override} {f : Field} {fields : List Field}
  {overrides : List Override}

/-! ## Variables of fields -/

namespace Field

def variableName? : Field → Option String
  | .featureOffset => some "DTREE_FEATURE_OFFSET"
  | .rawScore => some "DTREE_RAW_SCORE"
  | .strictFeatures => some "DTREE_STRICT_FEATURES"
  | .rejectCycles => some "DTREE_REJECT_CYCLES"
  | .checkHeader => none
  | .numThreads => some "DTREE_NUM_THREADS"
  | .parallelThreshold => none

/-- The value that a text stands for in a field. -/
def ofText? : Field → String → Option Scalar
  | .featureOffset, text => (Numeral.readUInt32? text.toList).map fun n => .number n.toNat
  | .numThreads, text => (Numeral.readUInt64? text.toList).map fun n => .number n.toNat
  | .parallelThreshold, text => (Numeral.readUInt64? text.toList).map fun n => .number n.toNat
  | _, text => (readFlag? text).map .flag

/-- What is wrong with a variable whose text has no value. -/
def fault (f : Field) (name text : String) : SettingsFault :=
  match f with
  | .rawScore | .strictFeatures | .rejectCycles | .checkHeader => .flag name text
  | .featureOffset | .numThreads | .parallelThreshold => .variable name

/-- The fields with a variable, in the order in which the variables are looked at. -/
def replaceable : List Field :=
  [.featureOffset, .rawScore, .strictFeatures, .rejectCycles, .numThreads]

end Field

namespace Environment

/-- The value that a field gets from its variable, if that is set and has one. -/
def value? (env : Environment) (f : Field) : Option Scalar :=
  (f.variableName?.bind env).bind f.ofText?

theorem value?_eq_none (h : f ∉ Field.replaceable) : env.value? f = none := by
  cases f with
  | checkHeader =>
      rfl
  | parallelThreshold =>
      rfl
  | _ =>
      exact absurd (by decide) h

/-- The variable of a field is set, but not to a text with a value. -/
def Invalid (env : Environment) (f : Field) (fault : SettingsFault) : Prop :=
  ∃ name text, f.variableName? = some name ∧ env name = some text ∧ f.ofText? text = none ∧
    fault = f.fault name text

theorem Invalid.mem_replaceable {fault : SettingsFault} (h : env.Invalid f fault) :
    f ∈ Field.replaceable := by
  obtain ⟨name, _, hname, _⟩ := h
  cases f with
  | checkHeader | parallelThreshold =>
      cases hname
  | _ =>
      decide

end Environment

/-! ## One variable -/

/-- A variable replaces one field and leaves the others as they are. -/
structure Override.Replaces (o : Override) (f : Field) : Prop where
  name : f.variableName? = some o.name
  get : ∀ s text v, f.ofText? text = some v →
    ∃ s', o.apply s text = .ok s' ∧ ∀ g, s'.get g = if g = f then v else s.get g
  error : ∀ s text, f.ofText? text = none → o.apply s text = .error (f.fault o.name text)

namespace Override

section Replaces

variable {name : String}

/-- A flag becomes the truth that the text stands for. -/
theorem replaces_ofFlag {set : Settings → Bool → Settings} (hname : f.variableName? = some name)
    (htext : ∀ text, f.ofText? text = (readFlag? text).map .flag)
    (hfault : ∀ text, f.fault name text = .flag name text)
    (hset : ∀ s b g, (set s b).get g = if g = f then .flag b else s.get g) :
    (ofFlag name set).Replaces f where
  name := hname
  get := by
    intro s text v hv
    rw [htext] at hv
    obtain ⟨b, hb, rfl⟩ := Option.map_eq_some_iff.1 hv
    refine ⟨set s b, ?_, hset s b⟩
    simp only [ofFlag, hb]
    rfl
  error := by
    intro s text hv
    rw [htext, Option.map_eq_none_iff] at hv
    simp only [ofFlag, hv, hfault]
    rfl

theorem replaces_rawScore : rawScore.Replaces .rawScore := by
  refine replaces_ofFlag rfl (fun _ => rfl) (fun _ => rfl) fun s b g => ?_
  cases g <;> rfl

theorem replaces_strictFeatures : strictFeatures.Replaces .strictFeatures := by
  refine replaces_ofFlag rfl (fun _ => rfl) (fun _ => rfl) fun s b g => ?_
  cases g <;> rfl

theorem replaces_rejectCycles : rejectCycles.Replaces .rejectCycles := by
  refine replaces_ofFlag rfl (fun _ => rfl) (fun _ => rfl) fun s b g => ?_
  cases g <;> rfl

theorem replaces_featureOffset : featureOffset.Replaces .featureOffset where
  name := rfl
  get := by
    intro s text v hv
    obtain ⟨n, hn, rfl⟩ := Option.map_eq_some_iff.1 hv
    refine ⟨{ s with featureOffset := n }, ?_, ?_⟩
    · simp only [featureOffset, hn]
      rfl
    · intro g
      cases g <;> rfl
  error := by
    intro s text hv
    rw [Field.ofText?, Option.map_eq_none_iff] at hv
    simp only [featureOffset, hv]
    rfl

theorem replaces_numThreads : numThreads.Replaces .numThreads where
  name := rfl
  get := by
    intro s text v hv
    obtain ⟨n, hn, rfl⟩ := Option.map_eq_some_iff.1 hv
    refine ⟨{ s with numThreads := n }, ?_, ?_⟩
    · simp only [numThreads, hn]
      rfl
    · intro g
      cases g <;> rfl
  error := by
    intro s text hv
    rw [Field.ofText?, Option.map_eq_none_iff] at hv
    simp only [numThreads, hv]
    rfl

theorem forall₂_replaces : List.Forall₂ Replaces all Field.replaceable :=
  .cons replaces_featureOffset <| .cons replaces_rawScore <| .cons replaces_strictFeatures <|
    .cons replaces_rejectCycles <| .cons replaces_numThreads .nil

theorem exists_replaces (ho : o ∈ all) : ∃ f, o.Replaces f := by
  simp only [all, List.mem_cons, List.not_mem_nil, or_false] at ho
  rcases ho with rfl | rfl | rfl | rfl | rfl
  · exact ⟨_, replaces_featureOffset⟩
  · exact ⟨_, replaces_rawScore⟩
  · exact ⟨_, replaces_strictFeatures⟩
  · exact ⟨_, replaces_rejectCycles⟩
  · exact ⟨_, replaces_numThreads⟩

end Replaces

end Override

/-! ## All variables -/

namespace Settings

/-- A variable that is not set to a text without a value replaces its field by the value it has. -/
theorem applyOverrides_cons (ho : o.Replaces f) (hvalid : ∀ fault, ¬ env.Invalid f fault)
    (s : Settings) (rest : List Override) :
    ∃ s₁, applyOverrides env s (o :: rest) = applyOverrides env s₁ rest ∧
      ∀ g, s₁.get g = if g = f then (env.value? f).getD (s.get f) else s.get g := by
  have hvalue : env.value? f = (env o.name).bind f.ofText? := by
    rw [Environment.value?, ho.name, Option.bind_some]
  rw [applyOverrides, hvalue]
  cases hset : env o.name with
  | none =>
      refine ⟨s, rfl, ?_⟩
      intro g
      by_cases hg : g = f <;> simp [hg]
  | some text =>
      cases htext : f.ofText? text with
      | none =>
          exact absurd ⟨o.name, text, ho.name, hset, htext, rfl⟩ (hvalid (f.fault o.name text))
      | some v =>
          obtain ⟨s₁, happly, hget⟩ := ho.get s text v htext
          refine ⟨s₁, by simp only [happly], ?_⟩
          simpa [htext] using hget

theorem applyOverrides_cons_invalid (ho : o.Replaces f) {fault : SettingsFault}
    (hinvalid : env.Invalid f fault) (s : Settings) (rest : List Override) :
    applyOverrides env s (o :: rest) = { settings := s, error? := some (.settings fault) } := by
  obtain ⟨name, text, hname, hset, htext, rfl⟩ := hinvalid
  cases hname.symm.trans ho.name
  rw [applyOverrides, hset]
  simp only [ho.error s text htext]

/-- Where no variable is invalid, those of the given fields replace them, and the rest goes on. -/
theorem exists_applyOverrides_append (h : List.Forall₂ Override.Replaces overrides fields)
    (hvalid : ∀ f ∈ fields, ∀ fault, ¬ env.Invalid f fault) (s : Settings)
    (rest : List Override) :
    ∃ s₁, applyOverrides env s (overrides ++ rest) = applyOverrides env s₁ rest ∧
      ∀ g, s₁.get g = if g ∈ fields then (env.value? g).getD (s.get g) else s.get g := by
  induction h generalizing s with
  | nil =>
      exact ⟨s, rfl, by simp⟩
  | @cons o f overrides fields ho _ ih =>
      obtain ⟨s₁, hstep, hget⟩ :=
        applyOverrides_cons ho (hvalid f List.mem_cons_self) s (overrides ++ rest)
      obtain ⟨s₂, hrest, hget'⟩ := ih (fun g hg => hvalid g (List.mem_cons_of_mem f hg)) s₁
      refine ⟨s₂, hstep.trans hrest, ?_⟩
      intro g
      rw [hget' g, hget g]
      -- The field may come again; it is then replaced by the same value.
      by_cases hg : g = f
      · subst hg
        by_cases hmem : g ∈ fields <;> cases env.value? g <;> simp [hmem]
      · simp [hg]

theorem applyOverrides_congr {env' : Environment} (s : Settings)
    (h : ∀ o ∈ overrides, env' o.name = env o.name) :
    applyOverrides env' s overrides = applyOverrides env s overrides := by
  induction overrides generalizing s with
  | nil =>
      rfl
  | cons o rest ih =>
      have hrest : ∀ o ∈ rest, env' o.name = env o.name := fun o ho =>
        h o (List.mem_cons_of_mem _ ho)
      rw [applyOverrides, applyOverrides, h o List.mem_cons_self, ih s hrest]
      cases env o.name with
      | none =>
          rfl
      | some text =>
          dsimp only
          cases o.apply s text with
          | ok s₁ =>
              exact ih s₁ hrest
          | error fault =>
              rfl

/-! ## State and outcome -/

theorem exists_override_of_valid
    (hvalid : ∀ f ∈ Field.replaceable, ∀ fault, ¬ env.Invalid f fault) (s : Settings) :
    ∃ s₁ : Settings, (∀ g, s₁.get g = (env.value? g).getD (s.get g)) ∧
      s₁.validate = s.validate ∧
      s.override env =
        { settings := s₁, error? := match s.validate with | .ok _ => none | .error e => some e } := by
  obtain ⟨s₁, hall, hget⟩ :=
    exists_applyOverrides_append Override.forall₂_replaces hvalid s []
  rw [List.append_nil] at hall
  have hfields : ∀ g, s₁.get g = (env.value? g).getD (s.get g) := by
    intro g
    rw [hget g]
    by_cases hg : g ∈ Field.replaceable
    · rw [if_pos hg]
    · rw [if_neg hg, Environment.value?_eq_none hg, Option.getD_none]
  -- The threshold is checked as it was, since it has no variable.
  have hvalidate : s₁.validate = s.validate := by
    apply validate_congr
    exact UInt64.toNat_inj.1 (Scalar.number.inj (hfields .parallelThreshold))
  refine ⟨s₁, hfields, hvalidate, ?_⟩
  rw [override, hall]
  simp only [applyOverrides, hvalidate]
  cases s.validate <;> rfl

theorem override_override_of_valid
    (hvalid : ∀ f ∈ Field.replaceable, ∀ fault, ¬ env.Invalid f fault) (s : Settings) :
    (s.override env).settings.override env = s.override env := by
  obtain ⟨s₁, hget, hvalidate, hs⟩ := exists_override_of_valid hvalid s
  obtain ⟨s₂, hget', _, hs'⟩ := exists_override_of_valid hvalid s₁
  have hsame : s₂ = s₁ := by
    apply ext_get
    intro g
    rw [hget' g, hget g]
    cases env.value? g <;> rfl
  rw [hs, hs', hsame, hvalidate]

theorem override_of_invalid {before after : List Field} {fault : SettingsFault}
    (hfields : Field.replaceable = before ++ f :: after)
    (hbefore : ∀ g ∈ before, ∀ fault, ¬ env.Invalid g fault) (hinvalid : env.Invalid f fault)
    (s : Settings) :
    (s.override env).error? = some (.settings fault) ∧
      ∀ g, (s.override env).settings.get g =
        if g ∈ before then (env.value? g).getD (s.get g) else s.get g := by
  have hall := Override.forall₂_replaces
  rw [hfields] at hall
  -- The variables are cut where the fields are.
  have hfront := List.forall₂_take_append _ before (f :: after) hall
  have hback := List.forall₂_drop_append _ before (f :: after) hall
  have hsplit := List.take_append_drop before.length Override.all
  obtain ⟨o, rest, ho, _, hdrop⟩ := List.forall₂_cons_right_iff.1 hback
  obtain ⟨s₁, hrun, hget⟩ := exists_applyOverrides_append hfront hbefore s (o :: rest)
  rw [← hdrop, hsplit, hdrop, applyOverrides_cons_invalid ho hinvalid] at hrun
  have hoverride : s.override env = { settings := s₁, error? := some (.settings fault) } := by
    rw [override, hrun]
  rw [hoverride]
  exact ⟨rfl, hget⟩

/-- Variables are applied to any settings. If none is invalid, exactly the fields whose variables are
set are replaced, only the threshold decides whether that succeeds, and a second time nothing changes.
Otherwise the first invalid variable, in the order of the fields, is the one that is reported, and
exactly the fields whose variables come before it are replaced. Other variables have no influence. -/
theorem override_exact (env : Environment) (s : Settings) :
    ((∀ f ∈ Field.replaceable, ∀ fault, ¬ env.Invalid f fault) →
        (∀ g, (s.override env).settings.get g = (env.value? g).getD (s.get g)) ∧
          ((s.override env).error? = none ↔ 1 ≤ s.parallelThreshold) ∧
          (s.override env).settings.override env = s.override env) ∧
      (∀ before f after fault, Field.replaceable = before ++ f :: after →
        (∀ g ∈ before, ∀ fault, ¬ env.Invalid g fault) → env.Invalid f fault →
          (s.override env).error? = some (.settings fault) ∧
          (∃ name text, f.variableName? = some name ∧ env name = some text ∧
            ((Error.settings fault).message = "Configuration error: " ++ ("Invalid " ++ name) ∨
              (Error.settings fault).message =
                "Configuration error: " ++ ("Invalid " ++ name ++ ": '" ++ text ++ "'"))) ∧
          ∀ g, (s.override env).settings.get g =
            if g ∈ before then (env.value? g).getD (s.get g) else s.get g) ∧
      ∀ env' : Environment, (∀ f name, Field.variableName? f = some name → env' name = env name) →
        s.override env' = s.override env := by
  refine ⟨?valid, ?invalid, ?others⟩
  case valid =>
    intro hvalid
    obtain ⟨s₁, hget, _, hs⟩ := exists_override_of_valid hvalid s
    refine ⟨?_, ?_, override_override_of_valid hvalid s⟩
    · rw [hs]
      exact hget
    · rw [hs, ← validate_eq_ok_iff_one_le]
      cases s.validate <;> simp
  case invalid =>
    intro before f after fault hfields hbefore hinvalid
    obtain ⟨herror, hget⟩ := override_of_invalid hfields hbefore hinvalid s
    refine ⟨herror, ?_, hget⟩
    obtain ⟨name, text, hname, hset, _, rfl⟩ := hinvalid
    refine ⟨name, text, hname, hset, ?_⟩
    cases f with
    | featureOffset | numThreads | parallelThreshold =>
        exact Or.inl rfl
    | _ =>
        exact Or.inr rfl
  case others =>
    intro env' hsame
    have hnames : ∀ o ∈ Override.all, env' o.name = env o.name := by
      intro o ho
      obtain ⟨f, hf⟩ := Override.exists_replaces ho
      exact hsame f o.name hf.name
    rw [override, override, applyOverrides_congr s hnames]

/-- One flag is raised, and the next says neither yes nor no. -/
def undecided : Environment :=
  Environment.ofList
    [("DTREE_NUM_THREADS", "3"), ("DTREE_FEATURE_OFFSET", "7"), ("DTREE_RAW_SCORE", " Yes\t"),
      ("DTREE_STRICT_FEATURES", "maybe")]

theorem override_exact_undecided :
    undecided.Invalid .strictFeatures (.flag "DTREE_STRICT_FEATURES" "maybe") ∧
      (override undecided {}).error? = some (.settings (.flag "DTREE_STRICT_FEATURES" "maybe")) ∧
      ∀ g, (override undecided {}).settings.get g =
        match g with
        | .featureOffset => .number 7
        | .rawScore => .flag true
        | g => ({} : Settings).get g := by
  have hinvalid : undecided.Invalid .strictFeatures (.flag "DTREE_STRICT_FEATURES" "maybe") :=
    ⟨"DTREE_STRICT_FEATURES", "maybe", rfl, by decide +kernel, by decide +kernel, rfl⟩
  have hbefore : ∀ g ∈ [Field.featureOffset, Field.rawScore], ∀ fault,
      ¬ undecided.Invalid g fault := by
    rintro g hg fault ⟨name, text, hname, hset, htext, _⟩
    simp only [List.mem_cons, List.not_mem_nil, or_false] at hg
    rcases hg with rfl | rfl
    · cases hname
      have hseven : undecided "DTREE_FEATURE_OFFSET" = some "7" := by decide +kernel
      cases hseven.symm.trans hset
      exact absurd htext (by decide +kernel)
    · cases hname
      have hyes : undecided "DTREE_RAW_SCORE" = some " Yes\t" := by decide +kernel
      have hraised : readFlag? " Yes\t" = some true :=
        readFlag?_eq_some_iff.2
          ⟨[' '], "Yes".toList, ['\t'], rfl, List.all_eq_true.1 (by decide),
            List.all_eq_true.1 (by decide), by decide⟩
      cases hyes.symm.trans hset
      simp [Field.ofText?, hraised] at htext
  obtain ⟨_, hfirst, _⟩ := override_exact undecided {}
  obtain ⟨herror, _, hget⟩ := hfirst [.featureOffset, .rawScore] .strictFeatures
    [.rejectCycles, .numThreads] _ rfl hbefore hinvalid
  refine ⟨hinvalid, herror, fun g => ?_⟩
  rw [hget g]
  cases g <;> decide +kernel

end Settings
end DecisionForest

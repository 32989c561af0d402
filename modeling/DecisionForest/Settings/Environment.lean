import DecisionForest.Settings.Basic
import DecisionForest.Text.Blank

/-!
# Settings from variables

Five environment variables replace one field each. They are looked at in a fixed order; an invalid
value ends the run there, and what was replaced before stays replaced.

- `Environment` gives the values of variables, `readFlag?` is the truth that one stands for
  (`readFlag?_eq_some_iff`),
- `Override` is a variable and how its value changes settings, `Override.all` lists them in order,
- `Settings.override` applies an environment: the settings left behind, and the error if there is
  one.
-/

namespace DecisionForest

/-- The value of each variable that is set. -/
abbrev Environment := String → Option String

/-- The environment with the given variables. -/
def Environment.ofList (vars : List (String × String)) : Environment :=
  fun name => (vars.find? fun v => v.1 = name).map Prod.snd

/-- The truth that a word stands for, whatever its letter case and the blanks around it. -/
def readFlag? (value : String) : Option Bool :=
  let word := (Text.trimBlanks value.toList).map Char.toLower
  if word ∈ ["1".toList, "true".toList, "yes".toList, "on".toList] then some true
  else if word ∈ ["0".toList, "false".toList, "no".toList, "off".toList] then some false
  else none

/-- The words for a truth, in lower case. -/
def flagWords : Bool → List String
  | true => ["1", "true", "yes", "on"]
  | false => ["0", "false", "no", "off"]

theorem ne_nil_of_mem_flagWords {b : Bool} {w : String} (h : w ∈ flagWords b) : w.toList ≠ [] := by
  have hall : (flagWords b).all (fun w => !w.toList.isEmpty) = true := by
    cases b <;> decide
  have hw := List.all_eq_true.1 hall w h
  intro hnil
  rw [hnil] at hw
  cases hw

theorem isBlank_of_mem_flagWords {b : Bool} {w : String} (h : w ∈ flagWords b) :
    ∀ c ∈ w.toList, Text.isBlank c = false := by
  have hall : (flagWords b).all (fun w => w.toList.all fun c => !Text.isBlank c) = true := by
    cases b <;> decide
  intro c hc
  have hfree := List.all_eq_true.1 (List.all_eq_true.1 hall w h) c hc
  rwa [Bool.not_eq_true'] at hfree

theorem readFlag?_eq_some_iff_trimBlanks {value : String} {b : Bool} :
    readFlag? value = some b ↔
      String.ofList ((Text.trimBlanks value.toList).map Char.toLower) ∈ flagWords b := by
  unfold readFlag?
  generalize (Text.trimBlanks value.toList).map Char.toLower = word
  dsimp only
  constructor
  · intro h
    split at h
    case isTrue hword =>
      cases h
      simp only [List.mem_cons, List.not_mem_nil, or_false] at hword
      rcases hword with rfl | rfl | rfl | rfl <;> decide
    case isFalse =>
      split at h
      case isTrue hword =>
        cases h
        simp only [List.mem_cons, List.not_mem_nil, or_false] at hword
        rcases hword with rfl | rfl | rfl | rfl <;> decide
      case isFalse =>
        cases h
  · intro h
    rw [← String.toList_ofList (l := word)]
    cases b <;> simp only [flagWords, List.mem_cons, List.not_mem_nil, or_false] at h <;>
      rcases h with h | h | h | h <;> rw [h] <;> rfl

/-- A truth is one of its words in any letter case, with any blanks around it. -/
theorem readFlag?_eq_some_iff {value : String} {b : Bool} :
    readFlag? value = some b ↔
      ∃ front word back, value.toList = front ++ word ++ back ∧
        (∀ c ∈ front, Text.isBlank c = true) ∧ (∀ c ∈ back, Text.isBlank c = true) ∧
        String.ofList (word.map Char.toLower) ∈ flagWords b := by
  rw [readFlag?_eq_some_iff_trimBlanks]
  constructor
  · intro h
    obtain ⟨front, back, hvalue, hfront, hback⟩ := Text.exists_trimBlanks value.toList
    exact ⟨front, _, back, hvalue, hfront, hback, h⟩
  · rintro ⟨front, word, back, hvalue, hfront, hback, hword⟩
    have hne := ne_nil_of_mem_flagWords hword
    have hfree := isBlank_of_mem_flagWords hword
    rw [String.toList_ofList] at hne hfree
    have htrim : Text.trimBlanks value.toList = word := by
      rw [hvalue]
      refine Text.trimBlanks_append hfront ?_ hback fun h => hne (by rw [h]; rfl)
      intro c hc
      cases hblank : Text.isBlank c with
      | false =>
          rfl
      | true =>
          -- A blank would be one of the characters of the lower-case word.
          have hlower := hfree c.toLower (List.mem_map_of_mem hc)
          rw [Text.toLower_of_isBlank hblank, hblank] at hlower
          cases hlower
    rw [htrim]
    exact hword

structure Override where
  name : String
  apply : Settings → String → Except SettingsFault Settings

namespace Override

/-- An override whose value is a flag. -/
def ofFlag (name : String) (set : Settings → Bool → Settings) : Override :=
  { name
    apply := fun s value => do
      let b ← required (.flag name value) (readFlag? value)
      pure (set s b) }

def featureOffset : Override :=
  { name := "DTREE_FEATURE_OFFSET"
    apply := fun s value => do
      let n ← required (.variable "DTREE_FEATURE_OFFSET") (Numeral.readUInt32? value.toList)
      pure { s with featureOffset := n } }

def rawScore : Override :=
  ofFlag "DTREE_RAW_SCORE" fun s b => { s with rawScore := b }

def strictFeatures : Override :=
  ofFlag "DTREE_STRICT_FEATURES" fun s b => { s with strictFeatures := b }

def rejectCycles : Override :=
  ofFlag "DTREE_REJECT_CYCLES" fun s b => { s with rejectCycles := b }

def numThreads : Override :=
  { name := "DTREE_NUM_THREADS"
    apply := fun s value => do
      let n ← required (.variable "DTREE_NUM_THREADS") (Numeral.readUInt64? value.toList)
      pure { s with numThreads := n } }

def all : List Override :=
  [featureOffset, rawScore, strictFeatures, rejectCycles, numThreads]

end Override

/-- Settings after overrides, and the error that ended them, if one did. -/
structure Overridden where
  settings : Settings
  error? : Option Error

namespace Settings

def applyOverrides (env : Environment) (s : Settings) : List Override → Overridden
  | [] => { settings := s, error? := none }
  | o :: rest =>
    match env o.name with
    | none => applyOverrides env s rest
    | some value =>
      match o.apply s value with
      | .ok s => applyOverrides env s rest
      | .error fault => { settings := s, error? := some (.settings fault) }

/-- The result is validated when no variable is invalid. -/
def override (env : Environment) (s : Settings) : Overridden :=
  let o := s.applyOverrides env Override.all
  match o.error?, o.settings.validate with
  | none, .error e => { o with error? := some e }
  | _, _ => o

end Settings
end DecisionForest

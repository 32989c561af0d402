import Mathlib.Data.List.Nodup
import DecisionForest.Command.Arguments
import DecisionForest.Proofs.Results

/-!
# Items of a command line

Whatever arguments look like, they come down to items: flags, options with a value, and files. Items
are taken one after another, and are accepted if each is valid, no option is given twice, and there
are not too many files.

- `Arguments.Given.Takes` is one item more, `Arguments.Collects` are all of them in order,
- `Arguments.Given.Holds` says that what has been read is what the items give,
- `Arguments.exists_collects_iff` says that nothing is asked of items but `Arguments.Acceptable`.
-/

namespace DecisionForest
namespace Arguments

variable {argument : String} {g g' g'' : Given}

/-! ## Items -/

/-- A flag, an option with its value, or a file. -/
inductive Item where
  | flag (f : Flag)
  | value (choice : Choice) (text : String)
  | file (name : String)
  deriving DecidableEq, Repr

namespace Item

/-- The option that an item gives. -/
def option? : Item → Option OptionName
  | .flag f => some (.flag f)
  | .value choice _ => some (.choice choice)
  | .file _ => none

def file? : Item → Option String
  | .file name => some name
  | _ => none

/-- An item that can be accepted, if others do not forbid it. -/
def Valid : Item → Prop
  | .flag f => f ≠ .help ∧ f ≠ .version
  | .value .config text => text ≠ ""
  | .value .featureOffset text => ∃ n, readOffset? text.toList = some n
  | .value .threads text => ∃ n, Numeral.readUInt64? text.toList = some n
  | .file name => name ≠ ""

end Item

variable {item : Item} {items before : List Item}

theorem flag_mem_options_iff {f : Flag} :
    .flag f ∈ items.filterMap Item.option? ↔ .flag f ∈ items := by
  simp only [List.mem_filterMap]
  constructor
  · rintro ⟨_ | _ | _, hmem, h⟩ <;> cases h
    exact hmem
  · intro hmem
    exact ⟨_, hmem, rfl⟩

theorem choice_mem_options_iff {choice : Choice} :
    .choice choice ∈ items.filterMap Item.option? ↔ ∃ text, .value choice text ∈ items := by
  simp only [List.mem_filterMap]
  constructor
  · rintro ⟨_ | _ | _, hmem, h⟩ <;> cases h
    exact ⟨_, hmem⟩
  · rintro ⟨text, hmem⟩
    exact ⟨_, hmem, rfl⟩

/-! ## One item more -/

/-- An item is taken if its option has not been given before, and it is valid. -/
inductive Given.Takes (g : Given) : Item → Given → Prop where
  | flag {f : Flag} : f ≠ .help → f ≠ .version → f ∉ g.flags →
      Takes g (.flag f) { g with flags := f :: g.flags }
  | config {text : String} : g.config = none → text ≠ "" →
      Takes g (.value .config text) { g with config := some text }
  | featureOffset {text : String} {n : FeatureId} : g.featureOffset = none →
      readOffset? text.toList = some n →
      Takes g (.value .featureOffset text) { g with featureOffset := some n }
  | threads {text : String} {n : UInt64} : g.threads = none →
      Numeral.readUInt64? text.toList = some n →
      Takes g (.value .threads text) { g with threads := some n }
  | file {name : String} : g.files.length < 2 → name ≠ "" →
      Takes g (.file name) { g with files := g.files ++ [name] }

theorem addFlag_eq_ok_iff {f : Flag} : g.addFlag argument f = .ok g' ↔ g.Takes (.flag f) g' := by
  constructor
  · intro h
    unfold Given.addFlag at h
    split at h
    case h_1 | h_2 =>
      cases h
    case h_3 hhelp hversion =>
      split at h
      case isTrue =>
        cases h
      case isFalse hnew =>
        cases h
        exact .flag hhelp hversion hnew
  · rintro ⟨⟩
    case flag hhelp hversion hnew =>
      cases f <;> simp_all [Given.addFlag]

theorem readName?_eq_some_iff {text name : String} :
    readName? text = some name ↔ text ≠ "" ∧ name = text := by
  unfold readName?
  split <;> simp_all [eq_comm]

theorem addValue_eq_ok_iff {text : String} {choice : Choice} :
    g.addValue argument text choice = .ok g' ↔ g.Takes (.value choice text) g' := by
  constructor
  · intro h
    cases choice <;> simp only [Given.addValue] at h <;> split at h
    case config.isFalse hnew =>
      obtain ⟨name, hname, rfl⟩ := map_eq_ok_iff.1 h
      obtain ⟨hne, rfl⟩ := readName?_eq_some_iff.1 (required_eq_ok_iff.1 hname)
      exact .config (Option.not_isSome_iff_eq_none.1 hnew) hne
    case featureOffset.isFalse hnew =>
      obtain ⟨n, hn, rfl⟩ := map_eq_ok_iff.1 h
      exact .featureOffset (Option.not_isSome_iff_eq_none.1 hnew) (required_eq_ok_iff.1 hn)
    case threads.isFalse hnew =>
      obtain ⟨n, hn, rfl⟩ := map_eq_ok_iff.1 h
      exact .threads (Option.not_isSome_iff_eq_none.1 hnew) (required_eq_ok_iff.1 hn)
    all_goals cases h
  · rintro ⟨⟩
    case config hnew hne =>
      simp [Given.addValue, hnew, readName?, hne, required, Except.map]
    case featureOffset hnew hn =>
      simp [Given.addValue, hnew, hn, required, Except.map]
    case threads hnew hn =>
      simp [Given.addValue, hnew, hn, required, Except.map]

theorem addFile_eq_ok_iff {name : String} : g.addFile name = .ok g' ↔ g.Takes (.file name) g' := by
  unfold Given.addFile
  constructor
  · intro h
    split at h
    case isTrue =>
      cases h
    case isFalse hfew =>
      obtain ⟨name', hname, rfl⟩ := map_eq_ok_iff.1 h
      obtain ⟨hne, rfl⟩ := readName?_eq_some_iff.1 (required_eq_ok_iff.1 hname)
      exact .file (Nat.lt_of_not_le hfew) hne
  · rintro ⟨⟩
    case file hfew hne =>
      simp [Nat.not_le.2 hfew, readName?, hne, required, Except.map]

/-- Items taken one after another. -/
inductive Collects : Given → List Item → Given → Prop where
  | nil {g : Given} : Collects g [] g
  | cons {g g' g'' : Given} {item : Item} {items : List Item} : g.Takes item g' →
      Collects g' items g'' → Collects g (item :: items) g''

theorem collects_nil_iff : Collects g [] g' ↔ g' = g := by
  constructor
  · rintro ⟨⟩
    rfl
  · rintro rfl
    exact .nil

theorem collects_cons_iff :
    Collects g (item :: items) g'' ↔ ∃ g', g.Takes item g' ∧ Collects g' items g'' := by
  constructor
  · rintro ⟨⟩
    case cons g' htakes hrest =>
      exact ⟨g', htakes, hrest⟩
  · rintro ⟨g', htakes, hrest⟩
    exact .cons htakes hrest

theorem collects_append_iff :
    Collects g (before ++ items) g'' ↔ ∃ g', Collects g before g' ∧ Collects g' items g'' := by
  induction before generalizing g with
  | nil =>
      simp [collects_nil_iff]
  | cons item before ih =>
      simp only [List.cons_append, collects_cons_iff, ih]
      constructor
      · rintro ⟨g₁, htakes, g₂, hbefore, hitems⟩
        exact ⟨g₂, ⟨g₁, htakes, hbefore⟩, hitems⟩
      · rintro ⟨g₂, ⟨g₁, htakes, hbefore⟩, hitems⟩
        exact ⟨g₁, htakes, g₂, hbefore, hitems⟩

theorem collects_singleton_iff : Collects g [item] g' ↔ g.Takes item g' := by
  simp [collects_cons_iff, collects_nil_iff]

/-! ## All items -/

/-- What has been read is what the items give. -/
structure Given.Holds (g : Given) (items : List Item) : Prop where
  flags : ∀ f, f ∈ g.flags ↔ .flag f ∈ items
  config : ∀ text, g.config = some text ↔ .value .config text ∈ items
  featureOffset : ∀ n, g.featureOffset = some n ↔
    ∃ text, .value .featureOffset text ∈ items ∧ readOffset? text.toList = some n
  threads : ∀ n, g.threads = some n ↔
    ∃ text, .value .threads text ∈ items ∧ Numeral.readUInt64? text.toList = some n
  files : g.files = items.filterMap Item.file?

/-- Valid items, no option twice, and not too many files. -/
structure Acceptable (items : List Item) : Prop where
  valid : ∀ item ∈ items, item.Valid
  once : (items.filterMap Item.option?).Nodup
  files : (items.filterMap Item.file?).length ≤ 2

theorem holds_nil : Given.Holds {} [] where
  flags := by simp
  config := by simp
  featureOffset := by simp
  threads := by simp
  files := rfl

theorem Given.Takes.holds (h : g.Takes item g') (hholds : g.Holds before) :
    g'.Holds (before ++ [item]) := by
  obtain ⟨hflags, hconfig, hoffset, hthreads, hfiles⟩ := hholds
  -- An option with a value was unset, so the values before the item give none for it.
  cases h with
  | flag =>
      constructor <;>
        simp [List.filterMap_cons, Item.file?, hflags, hconfig, hoffset, hthreads, hfiles, or_comm]
  | config hnew =>
      rw [hnew] at hconfig
      constructor <;>
        simp [List.filterMap_cons, Item.file?, hflags, ← hconfig, hoffset, hthreads, hfiles, eq_comm]
  | featureOffset hnew hn =>
      rw [hnew] at hoffset
      constructor <;>
        simp [List.filterMap_cons, Item.file?, hflags, hconfig, hthreads, hfiles, or_and_right,
          exists_or, ← hoffset, hn]
  | threads hnew hn =>
      rw [hnew] at hthreads
      constructor <;>
        simp [List.filterMap_cons, Item.file?, hflags, hconfig, hoffset, hfiles, or_and_right,
          exists_or, ← hthreads, hn]
  | file =>
      constructor <;> simp [Item.file?, hflags, hconfig, hoffset, hthreads, hfiles]

/-- Another item is accepted if it is valid, its option is new, and there is room for a file. -/
theorem acceptable_append_singleton_iff :
    Acceptable (before ++ [item]) ↔ Acceptable before ∧ item.Valid ∧
      (∀ o, item.option? = some o → o ∉ before.filterMap Item.option?) ∧
      ∀ name, item.file? = some name → (before.filterMap Item.file?).length < 2 := by
  have honce : ((before ++ [item]).filterMap Item.option?).Nodup ↔
      (before.filterMap Item.option?).Nodup ∧
        ∀ o, item.option? = some o → o ∉ before.filterMap Item.option? := by
    rw [List.filterMap_append]
    cases hoption : item.option? with
    | none =>
        simp [hoption]
    | some o =>
        have hsingle : [item].filterMap Item.option? = [o] := by simp [hoption]
        rw [hsingle, List.nodup_append_comm, List.singleton_append, List.nodup_cons, and_comm]
        simp
  have hfiles : ((before ++ [item]).filterMap Item.file?).length ≤ 2 ↔
      (before.filterMap Item.file?).length ≤ 2 ∧
        ∀ name, item.file? = some name → (before.filterMap Item.file?).length < 2 := by
    rw [List.filterMap_append, List.length_append]
    cases hname : item.file? with
    | none =>
        simp [hname]
    | some name =>
        simp [hname]
        omega
  constructor
  · rintro ⟨hvalid, honce', hfiles'⟩
    obtain ⟨hbefore, hnew⟩ := honce.1 honce'
    obtain ⟨hfew, hroom⟩ := hfiles.1 hfiles'
    exact ⟨⟨fun item hitem => hvalid item (by simp [hitem]), hbefore, hfew⟩,
      hvalid item (by simp), hnew, hroom⟩
  · rintro ⟨⟨hvalid, hbefore, hfew⟩, hitem, hnew, hroom⟩
    refine ⟨?_, honce.2 ⟨hbefore, hnew⟩, hfiles.2 ⟨hfew, hroom⟩⟩
    intro item' hmem
    rcases List.mem_append.1 hmem with hmem | hmem
    · exact hvalid item' hmem
    · exact List.mem_singleton.1 hmem ▸ hitem

/-- A choice for which nothing has been read has not been given. -/
theorem eq_none_iff_of_values {α : Type} {o : Option α} {read : String → Option α} {choice : Choice}
    (h : ∀ a, o = some a ↔ ∃ text, .value choice text ∈ items ∧ read text = some a)
    (hvalid : ∀ text, .value choice text ∈ items → ∃ a, read text = some a) :
    o = none ↔ .choice choice ∉ items.filterMap Item.option? := by
  rw [choice_mem_options_iff, Option.eq_none_iff_forall_ne_some]
  constructor
  · rintro hnone ⟨text, hmem⟩
    obtain ⟨a, ha⟩ := hvalid text hmem
    exact hnone a ((h a).2 ⟨text, hmem, ha⟩)
  · intro hnew a ha
    obtain ⟨text, hmem, _⟩ := (h a).1 ha
    exact hnew ⟨text, hmem⟩

theorem exists_takes_iff (hholds : g.Holds before) (hbefore : Acceptable before) :
    (∃ g', g.Takes item g') ↔ Acceptable (before ++ [item]) := by
  have hconfig : g.config = none ↔ .choice .config ∉ before.filterMap Item.option? :=
    eq_none_iff_of_values (fun text => by simp [hholds.config]) fun text _ => ⟨text, rfl⟩
  have hoffset : g.featureOffset = none ↔ .choice .featureOffset ∉ before.filterMap Item.option? :=
    eq_none_iff_of_values hholds.featureOffset fun text hmem => hbefore.valid _ hmem
  have hthreads : g.threads = none ↔ .choice .threads ∉ before.filterMap Item.option? :=
    eq_none_iff_of_values hholds.threads fun text hmem => hbefore.valid _ hmem
  rw [acceptable_append_singleton_iff]
  constructor
  · rintro ⟨g', htakes⟩
    refine ⟨hbefore, ?_⟩
    cases htakes with
    | flag hhelp hversion hnew =>
        refine ⟨⟨hhelp, hversion⟩, ?_, by simp [Item.file?]⟩
        rintro _ ⟨⟩
        rwa [flag_mem_options_iff, ← hholds.flags]
    | config hnew hne =>
        refine ⟨hne, ?_, by simp [Item.file?]⟩
        rintro _ ⟨⟩
        exact hconfig.1 hnew
    | featureOffset hnew hn =>
        refine ⟨⟨_, hn⟩, ?_, by simp [Item.file?]⟩
        rintro _ ⟨⟩
        exact hoffset.1 hnew
    | threads hnew hn =>
        refine ⟨⟨_, hn⟩, ?_, by simp [Item.file?]⟩
        rintro _ ⟨⟩
        exact hthreads.1 hnew
    | file hfew hne =>
        refine ⟨hne, by simp [Item.option?], fun _ _ => ?_⟩
        rwa [← hholds.files]
  · rintro ⟨_, hvalid, hnew, hroom⟩
    rcases item with f | ⟨choice, text⟩ | name
    · have hf := hnew _ rfl
      rw [flag_mem_options_iff, ← hholds.flags] at hf
      exact ⟨_, .flag hvalid.1 hvalid.2 hf⟩
    · cases choice with
      | config =>
          exact ⟨_, .config (hconfig.2 (hnew _ rfl)) hvalid⟩
      | featureOffset =>
          obtain ⟨n, hn⟩ := hvalid
          exact ⟨_, .featureOffset (hoffset.2 (hnew _ rfl)) hn⟩
      | threads =>
          obtain ⟨n, hn⟩ := hvalid
          exact ⟨_, .threads (hthreads.2 (hnew _ rfl)) hn⟩
    · have hfew := hroom _ rfl
      rw [← hholds.files] at hfew
      exact ⟨_, .file hfew hvalid⟩

theorem Acceptable.of_append (h : Acceptable (before ++ items)) : Acceptable before where
  valid := fun item hitem => h.valid item (by simp [hitem])
  once := by
    have honce := h.once
    rw [List.filterMap_append] at honce
    exact honce.of_append_left
  files := by
    have hfiles := h.files
    rw [List.filterMap_append, List.length_append] at hfiles
    omega

theorem Collects.holds (h : Collects g items g') (hholds : g.Holds before) :
    g'.Holds (before ++ items) := by
  induction h generalizing before with
  | nil =>
      rwa [List.append_nil]
  | cons htakes _ ih =>
      rw [List.append_cons]
      exact ih (htakes.holds hholds)

/-- The items that are acceptable together are those that are taken one after another. -/
theorem exists_collects_iff (hholds : g.Holds before) (hbefore : Acceptable before) :
    (∃ g', Collects g items g') ↔ Acceptable (before ++ items) := by
  -- The items before grow with each step, and what has been read holds them.
  induction items generalizing g before with
  | nil =>
      simp [collects_nil_iff, hbefore]
  | cons item items ih =>
      rw [List.append_cons]
      constructor
      · rintro ⟨g', hcollects⟩
        obtain ⟨g₁, htakes, hrest⟩ := collects_cons_iff.1 hcollects
        have hitem := (exists_takes_iff hholds hbefore).1 ⟨g₁, htakes⟩
        exact (ih (htakes.holds hholds) hitem).1 ⟨g', hrest⟩
      · intro hall
        obtain ⟨g₁, htakes⟩ := (exists_takes_iff hholds hbefore).2 hall.of_append
        obtain ⟨g', hrest⟩ := (ih (htakes.holds hholds) hall.of_append).2 hall
        exact ⟨g', .cons htakes hrest⟩

end Arguments
end DecisionForest

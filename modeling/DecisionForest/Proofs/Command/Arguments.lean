import Mathlib.Data.List.TakeWhile
import DecisionForest.Proofs.Command.Items
import DecisionForest.Proofs.Text.Separated

/-!
# What arguments ask for

Arguments spell items. A long option stands after two dashes, short ones stand together after one,
and all other arguments are files; after two dashes alone there are only files.

- `OptionName.long` and `OptionName.letter?` are the names of an option,
- `Arguments.Reads` lists the items that arguments spell, `Arguments.readAll_eq_ok_iff` says that they
  are the ones read,
- `Arguments.Asks` is what items ask for, and `Arguments.parse_eq_ok_iff` the whole command line.
-/

namespace DecisionForest

/-! ## Names of options -/

namespace OptionName

/-- The name after two dashes. -/
def long : OptionName → String
  | .flag .rawScore => "raw-score"
  | .flag .strict => "strict"
  | .flag .rejectCycles => "reject-cycles"
  | .flag .verbose => "verbose"
  | .flag .help => "help"
  | .flag .version => "version"
  | .choice .config => "config"
  | .choice .featureOffset => "feature-offset"
  | .choice .threads => "threads"

/-- The letter after one dash, for an option that has one. -/
def letter? : OptionName → Option Char
  | .flag .verbose => some 'v'
  | .flag .help => some 'h'
  | .flag .version => some 'V'
  | .choice .config => some 'c'
  | .choice .threads => some 'j'
  | _ => none

theorem ofLong?_eq_some_iff {name : List Char} {o : OptionName} :
    ofLong? name = some o ↔ name = o.long.toList := by
  have hname : name = o.long.toList ↔ String.ofList name = o.long := by
    rw [← String.toList_inj, String.toList_ofList]
  rw [hname]
  constructor
  · intro h
    unfold ofLong? at h
    split at h <;> cases h
    all_goals assumption
  · intro h
    rw [ofLong?, h]
    rcases o with f | choice
    · cases f <;> rfl
    · cases choice <;> rfl

theorem ofShort?_eq_some_iff {c : Char} {o : OptionName} :
    ofShort? c = some o ↔ o.letter? = some c := by
  constructor
  · intro h
    unfold ofShort? at h
    split at h <;> cases h
    all_goals rfl
  · intro h
    unfold letter? at h
    split at h <;> cases h
    all_goals rfl

theorem equals_not_mem_long (o : OptionName) : '=' ∉ o.long.toList := by
  rcases o with f | choice
  · cases f <;> decide
  · cases choice <;> decide

end OptionName

namespace Arguments

variable {env : Environment} {argument : String} {arguments : List String} {g g' : Given}
  {items : List Item} {left : Pending}

/-! ## Spelling -/

/-- The letters after one dash: flags, and an option at the end, whose value follows it at once, after
an equals sign, or in the next argument. -/
inductive Letters : List Char → List Item → Pending → Prop where
  | nil : Letters [] [] .nothing
  | flag {c : Char} {cs : List Char} {f : Flag} {items : List Item} {left : Pending} :
      (OptionName.flag f).letter? = some c → Letters cs items left →
      Letters (c :: cs) (.flag f :: items) left
  | choice {c : Char} {choice : Choice} : (OptionName.choice choice).letter? = some c →
      Letters [c] [] (.value choice)
  | equals {c : Char} {choice : Choice} {text : List Char} :
      (OptionName.choice choice).letter? = some c →
      Letters (c :: '=' :: text) [.value choice (String.ofList text)] .nothing
  | value {c d : Char} {choice : Choice} {text : List Char} :
      (OptionName.choice choice).letter? = some c → d ≠ '=' →
      Letters (c :: d :: text) [.value choice (String.ofList (d :: text))] .nothing

/-- What stands after two dashes: a name, and after an equals sign a value. -/
inductive Named : List Char → List Item → Pending → Prop where
  | flag (f : Flag) : Named (OptionName.flag f).long.toList [.flag f] .nothing
  | choice (choice : Choice) : Named (OptionName.choice choice).long.toList [] (.value choice)
  | value (choice : Choice) (text : List Char) :
      Named ((OptionName.choice choice).long.toList ++ '=' :: text)
        [.value choice (String.ofList text)] .nothing

/-- One argument. -/
inductive Spells : String → List Item → Pending → Prop where
  | named {argument : String} {cs : List Char} {items : List Item} {left : Pending} :
      argument.toList = '-' :: '-' :: cs → Named cs items left → Spells argument items left
  | letters {argument : String} {c : Char} {cs : List Char} {items : List Item} {left : Pending} :
      argument.toList = '-' :: c :: cs → c ≠ '-' → Letters (c :: cs) items left →
      Spells argument items left
  | file {argument : String} : looksLikeOption argument = false →
      Spells argument [.file argument] .nothing

/-- All arguments; after two dashes alone they are files. -/
inductive Reads : List String → List Item → Prop where
  | nil : Reads [] []
  | files {names : List String} : Reads ("--" :: names) (names.map .file)
  | argument {argument : String} {rest : List String} {items items' : List Item} :
      Spells argument items .nothing → Reads rest items' →
      Reads (argument :: rest) (items ++ items')
  | value {argument text : String} {rest : List String} {items items' : List Item}
      {choice : Choice} : Spells argument items (.value choice) → looksLikeOption text = false →
      Reads rest items' → Reads (argument :: text :: rest) (items ++ .value choice text :: items')

/-! ## Reading -/

theorem foldlM_addFile_eq_ok_iff {names : List String} :
    names.foldlM Given.addFile g = .ok g' ↔ Collects g (names.map .file) g' := by
  induction names generalizing g with
  | nil =>
      simp [collects_nil_iff, pure, Except.pure, eq_comm]
  | cons name names ih =>
      rw [List.foldlM_cons, List.map_cons, bind_eq_ok_iff, collects_cons_iff]
      simp only [addFile_eq_ok_iff, ih]

theorem splitValue_of_not_mem {name : List Char} (h : '=' ∉ name) :
    splitValue name = (name, none) := by
  rw [splitValue, List.dropWhile_eq_nil_iff.2 (Text.decide_ne_of_not_mem h)]

theorem splitValue_append {name : List Char} (h : '=' ∉ name) (text : List Char) :
    splitValue (name ++ '=' :: text) = (name, some text) := by
  have hall := Text.decide_ne_of_not_mem h
  rw [splitValue, List.dropWhile_append_of_pos hall, List.takeWhile_append_of_pos hall]
  simp

theorem map_nothing_eq_ok_iff {x : Except Stop Given} :
    x.map (fun g => (g, Pending.nothing)) = .ok (g', left) ↔ x = .ok g' ∧ left = .nothing := by
  rw [map_eq_ok_iff]
  constructor
  · rintro ⟨g, hx, h⟩
    cases h
    exact ⟨hx, rfl⟩
  · rintro ⟨hx, rfl⟩
    exact ⟨g', hx, rfl⟩

theorem map_addFlag_eq_ok_iff {f : Flag} :
    (g.addFlag argument f).map (fun g => (g, Pending.nothing)) = .ok (g', left) ↔
      Collects g [.flag f] g' ∧ left = .nothing := by
  rw [map_nothing_eq_ok_iff, addFlag_eq_ok_iff, collects_singleton_iff]

theorem map_addValue_eq_ok_iff {text : String} {choice : Choice} :
    (g.addValue argument text choice).map (fun g => (g, Pending.nothing)) = .ok (g', left) ↔
      Collects g [.value choice text] g' ∧ left = .nothing := by
  rw [map_nothing_eq_ok_iff, addValue_eq_ok_iff, collects_singleton_iff]

theorem named_of_readLong {cs : List Char} (h : readLong g argument cs = .ok (g', left)) :
    ∃ items, Named cs items left ∧ Collects g items g' := by
  -- A name has no equals sign, so the first one ends it.
  by_cases hsign : '=' ∈ cs
  · obtain ⟨name, text, rfl, hname⟩ := List.eq_append_cons_of_mem hsign
    simp only [readLong, splitValue_append hname] at h
    split at h
    case h_1 | h_2 =>
      cases h
    case h_3 hnone | h_5 hnone =>
      cases hnone
    case h_4 hchoice htext =>
      cases htext
      obtain rfl := OptionName.ofLong?_eq_some_iff.1 hchoice
      obtain ⟨hitems, rfl⟩ := map_addValue_eq_ok_iff.1 h
      exact ⟨_, .value _ text, hitems⟩
  · simp only [readLong, splitValue_of_not_mem hsign] at h
    split at h
    case h_1 =>
      cases h
    case h_2 hsome | h_4 hsome =>
      cases hsome
    case h_3 hflag _ =>
      obtain rfl := OptionName.ofLong?_eq_some_iff.1 hflag
      obtain ⟨hitems, rfl⟩ := map_addFlag_eq_ok_iff.1 h
      exact ⟨_, .flag _, hitems⟩
    case h_5 hchoice _ =>
      obtain rfl := OptionName.ofLong?_eq_some_iff.1 hchoice
      cases h
      exact ⟨_, .choice _, .nil⟩

theorem readLong_of_named {cs : List Char} (h : Named cs items left)
    (hitems : Collects g items g') : readLong g argument cs = .ok (g', left) := by
  cases h with
  | flag f =>
      have hflag := OptionName.ofLong?_eq_some_iff.2 (Eq.refl (OptionName.flag f).long.toList)
      simp only [readLong, splitValue_of_not_mem (OptionName.equals_not_mem_long _), hflag]
      exact map_addFlag_eq_ok_iff.2 ⟨hitems, rfl⟩
  | choice c =>
      have hchoice := OptionName.ofLong?_eq_some_iff.2 (Eq.refl (OptionName.choice c).long.toList)
      simp only [readLong, splitValue_of_not_mem (OptionName.equals_not_mem_long _), hchoice,
        collects_nil_iff.1 hitems]
  | value c text =>
      have hchoice := OptionName.ofLong?_eq_some_iff.2 (Eq.refl (OptionName.choice c).long.toList)
      simp only [readLong, splitValue_append (OptionName.equals_not_mem_long _), hchoice]
      exact map_addValue_eq_ok_iff.2 ⟨hitems, rfl⟩

theorem letters_of_readShort {cs : List Char} (h : readShort g argument cs = .ok (g', left)) :
    ∃ items, Letters cs items left ∧ Collects g items g' := by
  fun_induction readShort g argument cs with
  | case1 g =>
      cases h
      exact ⟨_, .nil, .nil⟩
  | case2 =>
      cases h
  | case3 g c cs f hflag g₁ hadd ih =>
      obtain ⟨items, hletters, hitems⟩ := ih h
      exact ⟨_, .flag (OptionName.ofShort?_eq_some_iff.1 hflag) hletters,
        .cons (addFlag_eq_ok_iff.1 hadd) hitems⟩
  | case4 =>
      cases h
  | case5 g c choice hchoice =>
      cases h
      exact ⟨_, .choice (OptionName.ofShort?_eq_some_iff.1 hchoice), .nil⟩
  | case6 g c choice hchoice text =>
      obtain ⟨hitems, rfl⟩ := map_addValue_eq_ok_iff.1 h
      exact ⟨_, .equals (OptionName.ofShort?_eq_some_iff.1 hchoice), hitems⟩
  | case7 g c choice hchoice cs hne hsign =>
      obtain ⟨hitems, rfl⟩ := map_addValue_eq_ok_iff.1 h
      obtain ⟨d, text, rfl⟩ := List.exists_cons_of_ne_nil hne
      have hd : d ≠ '=' := by
        rintro rfl
        exact hsign text rfl
      exact ⟨_, .value (OptionName.ofShort?_eq_some_iff.1 hchoice) hd, hitems⟩

theorem readShort_of_letters {cs : List Char} (h : Letters cs items left)
    (hitems : Collects g items g') : readShort g argument cs = .ok (g', left) := by
  induction h generalizing g with
  | nil =>
      rw [readShort, collects_nil_iff.1 hitems]
  | flag hflag _ ih =>
      obtain ⟨g₁, htakes, hrest⟩ := collects_cons_iff.1 hitems
      simp only [readShort, OptionName.ofShort?_eq_some_iff.2 hflag]
      rw [addFlag_eq_ok_iff.2 htakes]
      exact ih hrest
  | choice hchoice =>
      simp only [readShort, OptionName.ofShort?_eq_some_iff.2 hchoice,
        collects_nil_iff.1 hitems]
  | equals hchoice =>
      simp only [readShort, OptionName.ofShort?_eq_some_iff.2 hchoice]
      exact map_addValue_eq_ok_iff.2 ⟨hitems, rfl⟩
  | value hchoice hd =>
      simp only [readShort, OptionName.ofShort?_eq_some_iff.2 hchoice]
      -- The letters behind are none, or a value after an equals sign, or a value.
      split
      case h_1 hnil =>
        cases hnil
      case h_2 hcons =>
        cases hcons
        exact absurd rfl hd
      case h_3 =>
        exact map_addValue_eq_ok_iff.2 ⟨hitems, rfl⟩

/-- What looks like an option has a dash and something behind it. -/
theorem looksLikeOption_eq_false_iff :
    looksLikeOption argument = false ↔ ∀ c cs, argument.toList ≠ '-' :: c :: cs := by
  have hdash : argument = "-" ↔ argument.toList = ['-'] := by
    rw [← String.toList_inj]
    rfl
  rw [looksLikeOption, Bool.and_eq_false_iff, decide_eq_false_iff_not, decide_eq_false_iff_not,
    not_not, hdash]
  rcases argument.toList with _ | ⟨d, _ | ⟨c, cs⟩⟩
  · simp
  · simpa using (Decidable.em (d = '-')).symm
  · simp

theorem spells_of_readArgument (h : readArgument g argument = .ok (g', left)) :
    ∃ items, Spells argument items left ∧ Collects g items g' := by
  unfold readArgument at h
  split at h
  case h_1 cs hcs =>
    obtain ⟨items, hnamed, hitems⟩ := named_of_readLong h
    exact ⟨items, .named hcs hnamed, hitems⟩
  case h_2 c cs hne hcs =>
    obtain ⟨items, hletters, hitems⟩ := letters_of_readShort h
    exact ⟨items, .letters hcs hne hletters, hitems⟩
  case h_3 hnone =>
    obtain ⟨hadd, rfl⟩ := map_nothing_eq_ok_iff.1 h
    have hfile := addFile_eq_ok_iff.1 hadd
    exact ⟨_, .file (looksLikeOption_eq_false_iff.2 hnone), collects_singleton_iff.2 hfile⟩

theorem readArgument_of_spells (h : Spells argument items left) (hitems : Collects g items g') :
    readArgument g argument = .ok (g', left) := by
  cases h with
  | named hcs hnamed =>
      simp only [readArgument, hcs]
      exact readLong_of_named hnamed hitems
  | letters hcs hc hletters =>
      simp only [readArgument, hcs]
      exact readShort_of_letters hletters hitems
  | file hfile =>
      have hadd := addFile_eq_ok_iff.2 (collects_singleton_iff.1 hitems)
      have hnone := looksLikeOption_eq_false_iff.1 hfile
      unfold readArgument
      split
      case h_1 cs hcs =>
        exact absurd hcs (hnone _ _)
      case h_2 c cs _ hcs =>
        exact absurd hcs (hnone _ _)
      case h_3 =>
        exact map_nothing_eq_ok_iff.2 ⟨hadd, rfl⟩

theorem Named.ne_nil {cs : List Char} (h : Named cs items left) : cs ≠ [] := by
  cases h with
  | flag f =>
      cases f <;> decide
  | choice choice =>
      cases choice <;> decide
  | value =>
      simp

/-- Two dashes alone spell nothing. -/
theorem Spells.ne_dashes (h : Spells argument items left) : argument ≠ "--" := by
  rintro rfl
  cases h with
  | named hcs hnamed =>
      cases hcs
      exact hnamed.ne_nil rfl
  | letters hcs hc _ =>
      cases hcs
      exact hc rfl
  | file hfile =>
      exact absurd hfile (by decide)

theorem reads_of_readAll (h : readAll g arguments = .ok g') :
    ∃ items, Reads arguments items ∧ Collects g items g' := by
  fun_induction readAll g arguments with
  | case1 g =>
      cases h
      exact ⟨_, .nil, .nil⟩
  | case2 g names =>
      exact ⟨_, .files, foldlM_addFile_eq_ok_iff.1 h⟩
  | case4 g argument rest _ g₁ hread ih =>
      obtain ⟨items, hspells, hitems⟩ := spells_of_readArgument hread
      obtain ⟨items', hreads, hitems'⟩ := ih h
      exact ⟨_, .argument hspells hreads, collects_append_iff.2 ⟨g₁, hitems, hitems'⟩⟩
  | case8 g argument _ g₁ choice hread text rest hlooks g₂ hadd ih =>
      obtain ⟨items, hspells, hitems⟩ := spells_of_readArgument hread
      obtain ⟨items', hreads, hitems'⟩ := ih h
      have hvalue := Collects.cons (addValue_eq_ok_iff.1 hadd) hitems'
      exact ⟨_, .value hspells (eq_false_of_ne_true hlooks) hreads,
        collects_append_iff.2 ⟨g₁, hitems, hvalue⟩⟩
  | case3 | case5 | case6 | case7 =>
      cases h

theorem readAll_of_reads (h : Reads arguments items) (hitems : Collects g items g') :
    readAll g arguments = .ok g' := by
  -- The items of the first argument are the first ones collected.
  induction h generalizing g with
  | nil =>
      rw [readAll, collects_nil_iff.1 hitems]
  | files =>
      rw [readAll, if_pos rfl]
      exact foldlM_addFile_eq_ok_iff.2 hitems
  | argument hspells _ ih =>
      obtain ⟨g₁, hfront, hback⟩ := collects_append_iff.1 hitems
      rw [readAll.eq_2, if_neg hspells.ne_dashes, readArgument_of_spells hspells hfront]
      exact ih hback
  | value hspells hlooks _ ih =>
      obtain ⟨g₁, hfront, hback⟩ := collects_append_iff.1 hitems
      obtain ⟨g₂, htakes, hrest⟩ := collects_cons_iff.1 hback
      rw [readAll.eq_2, if_neg hspells.ne_dashes, readArgument_of_spells hspells hfront]
      simp only [hlooks, Bool.false_eq_true, if_false]
      rw [addValue_eq_ok_iff.2 htakes]
      exact ih hrest

theorem readAll_eq_ok_iff :
    readAll g arguments = .ok g' ↔ ∃ items, Reads arguments items ∧ Collects g items g' := by
  constructor
  · exact reads_of_readAll
  · rintro ⟨items, hreads, hitems⟩
    exact readAll_of_reads hreads hitems

/-! ## The command line -/

/-- An invocation is what items and the variable for the settings file ask for. -/
structure Asks (env : Environment) (items : List Item) (i : Invocation) : Prop where
  files : items.filterMap Item.file? = [i.modelFile, i.rowsFile]
  configFile : ∀ name, i.configFile = some name ↔ .value .config name ∈ items ∨
    (∀ text, .value .config text ∉ items) ∧ env configVariable = some name
  rawScore : i.rawScore = true ↔ .flag .rawScore ∈ items
  strict : i.strict = true ↔ .flag .strict ∈ items
  rejectCycles : i.rejectCycles = true ↔ .flag .rejectCycles ∈ items
  verbose : i.verbose = true ↔ .flag .verbose ∈ items
  featureOffset : ∀ n, i.featureOffset = some n ↔
    ∃ text, .value .featureOffset text ∈ items ∧ readOffset? text.toList = some n
  threads : ∀ n, i.threads = some n ↔
    ∃ text, .value .threads text ∈ items ∧ Numeral.readUInt64? text.toList = some n

variable {i i' : Invocation}

theorem Asks.unique (h : Asks env items i) (h' : Asks env items i') : i = i' := by
  obtain ⟨modelFile, rowsFile, configFile, rawScore, strict, rejectCycles, verbose, featureOffset,
    threads⟩ := i
  have hfiles := h.files.symm.trans h'.files
  simp only [List.cons.injEq, and_true] at hfiles
  obtain ⟨rfl, rfl⟩ := hfiles
  obtain rfl : configFile = i'.configFile :=
    Option.ext fun name => (h.configFile name).trans (h'.configFile name).symm
  obtain rfl : featureOffset = i'.featureOffset :=
    Option.ext fun n => (h.featureOffset n).trans (h'.featureOffset n).symm
  obtain rfl : threads = i'.threads :=
    Option.ext fun n => (h.threads n).trans (h'.threads n).symm
  obtain rfl : rawScore = i'.rawScore := Bool.eq_iff_iff.2 (h.rawScore.trans h'.rawScore.symm)
  obtain rfl : strict = i'.strict := Bool.eq_iff_iff.2 (h.strict.trans h'.strict.symm)
  obtain rfl : rejectCycles = i'.rejectCycles :=
    Bool.eq_iff_iff.2 (h.rejectCycles.trans h'.rejectCycles.symm)
  obtain rfl : verbose = i'.verbose := Bool.eq_iff_iff.2 (h.verbose.trans h'.verbose.symm)
  rfl

/-- The variable is looked at where no option names a settings file, and may not be empty there. -/
theorem withVariable_eq_ok_iff :
    withVariable env g = .ok g' ↔
      (g.config = none → env configVariable ≠ some "") ∧
        g' = { g with config := g.config.or (env configVariable) } := by
  unfold withVariable
  split
  case h_1 name hnone hname =>
    rw [addValue_eq_ok_iff, hnone, hname, Option.none_or]
    constructor
    · rintro ⟨⟩
      case config hne =>
        exact ⟨fun _ => by simpa using hne, rfl⟩
    · rintro ⟨hne, rfl⟩
      exact .config hnone (by simpa using hne rfl)
  case h_2 hother =>
    have hunset : g.config = none → env configVariable = none := fun hnone =>
      Option.eq_none_iff_forall_ne_some.2 fun name hname => hother name hnone hname
    have hsame : g.config.or (env configVariable) = g.config := by
      cases hconfig : g.config with
      | none =>
          rw [hunset hconfig, Option.or_none]
      | some name =>
          rfl
    rw [hsame]
    constructor
    · rintro ⟨⟩
      exact ⟨fun hnone => by simp [hunset hnone], rfl⟩
    · rintro ⟨_, rfl⟩
      rfl

/-- What has been read, as an invocation for two files. -/
def Given.invocation (env : Environment) (g : Given) (modelFile rowsFile : String) : Invocation where
  modelFile := modelFile
  rowsFile := rowsFile
  configFile := g.config.or (env configVariable)
  rawScore := decide (.rawScore ∈ g.flags)
  strict := decide (.strict ∈ g.flags)
  rejectCycles := decide (.rejectCycles ∈ g.flags)
  verbose := decide (.verbose ∈ g.flags)
  featureOffset := g.featureOffset
  threads := g.threads

theorem parse_eq_ok_iff_readAll :
    parse env arguments = .ok i ↔ ∃ g, readAll {} arguments = .ok g ∧
      (g.config = none → env configVariable ≠ some "") ∧
      ∃ modelFile rowsFile, g.files = [modelFile, rowsFile] ∧
        i = g.invocation env modelFile rowsFile := by
  rw [parse, bind_eq_ok_iff]
  refine exists_congr fun g => and_congr_right fun _ => ?_
  rw [bind_eq_ok_iff]
  constructor
  · rintro ⟨g', hvariable, hfiles⟩
    obtain ⟨hset, rfl⟩ := withVariable_eq_ok_iff.1 hvariable
    split at hfiles
    case h_1 modelFile rowsFile htwo =>
      cases hfiles
      exact ⟨hset, modelFile, rowsFile, htwo, rfl⟩
    case h_2 =>
      cases hfiles
  · rintro ⟨hset, modelFile, rowsFile, htwo, rfl⟩
    refine ⟨_, withVariable_eq_ok_iff.2 ⟨hset, rfl⟩, ?_⟩
    simp only [htwo]
    rfl

theorem Given.Holds.asks (h : g.Holds items) {modelFile rowsFile : String}
    (hfiles : g.files = [modelFile, rowsFile]) :
    Asks env items (g.invocation env modelFile rowsFile) where
  files := by rw [← h.files, hfiles]; rfl
  configFile := by
    intro name
    rw [← h.config name, invocation, Option.or_eq_some_iff, Option.eq_none_iff_forall_ne_some]
    simp only [ne_eq, h.config]
  rawScore := by simp [invocation, h.flags]
  strict := by simp [invocation, h.flags]
  rejectCycles := by simp [invocation, h.flags]
  verbose := by simp [invocation, h.flags]
  featureOffset := h.featureOffset
  threads := h.threads

theorem acceptable_nil : Acceptable [] where
  valid := by simp
  once := by simp
  files := by simp

theorem exists_items_of_readAll (h : readAll {} arguments = .ok g) :
    ∃ items, Reads arguments items ∧ Acceptable items ∧ g.Holds items := by
  obtain ⟨items, hreads, hcollects⟩ := readAll_eq_ok_iff.1 h
  have hitems := (exists_collects_iff holds_nil acceptable_nil).1 ⟨g, hcollects⟩
  exact ⟨items, hreads, hitems, hcollects.holds holds_nil⟩

theorem exists_readAll_of_items (hreads : Reads arguments items) (hitems : Acceptable items) :
    ∃ g, readAll {} arguments = .ok g ∧ g.Holds items := by
  obtain ⟨g, hcollects⟩ := (exists_collects_iff holds_nil acceptable_nil).2 hitems
  exact ⟨g, readAll_eq_ok_iff.2 ⟨items, hreads, hcollects⟩, hcollects.holds holds_nil⟩

/-- The command line: arguments that spell acceptable items, two files among them, and a variable for
the settings file that is not empty where it counts. The invocation is what the items ask for. -/
theorem parse_eq_ok_iff :
    parse env arguments = .ok i ↔ ∃ items, Reads arguments items ∧ Acceptable items ∧
      ((∀ text, .value .config text ∉ items) → env configVariable ≠ some "") ∧
      Asks env items i := by
  have hconfig : ∀ {g items}, Given.Holds g items →
      (g.config = none ↔ ∀ text, .value .config text ∉ items) := by
    intro g items hholds
    simp only [Option.eq_none_iff_forall_ne_some, ne_eq, hholds.config]
  rw [parse_eq_ok_iff_readAll]
  constructor
  · rintro ⟨g, hread, hset, modelFile, rowsFile, hfiles, rfl⟩
    obtain ⟨items, hreads, hitems, hholds⟩ := exists_items_of_readAll hread
    exact ⟨items, hreads, hitems, hset ∘ (hconfig hholds).2, hholds.asks hfiles⟩
  · rintro ⟨items, hreads, hitems, hset, hasks⟩
    obtain ⟨g, hread, hholds⟩ := exists_readAll_of_items hreads hitems
    have hfiles : g.files = [i.modelFile, i.rowsFile] := hholds.files.trans hasks.files
    exact ⟨g, hread, hset ∘ (hconfig hholds).1, _, _, hfiles, hasks.unique (hholds.asks hfiles)⟩

end Arguments
end DecisionForest

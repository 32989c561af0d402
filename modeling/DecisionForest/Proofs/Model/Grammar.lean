import DecisionForest.Model.Scan
import DecisionForest.Proofs.Number.Literal
import DecisionForest.Proofs.Results
import DecisionForest.Proofs.Text.Separated

/-!
# The grammar of node lines

Which lines are those of nodes, and what the first thing wrong is with any other. A line is cut at
tabs, its third field at bars and each piece of it at colons. No separator occurs in a number, so
lines may also be put together from numbers, and give these numbers back.

- `WrittenWith` says which separators occur in a text,
- `NodeLine.BranchText`, `NodeLine.BranchesText` and `NodeLine.NodeText` are the texts of a branch, of
  branches and of a node,
- `NodeLine.BranchFails` and `NodeLine.LineFails` name the first fault of a piece and of a line,
- `NodeLine.read_eq_ok_iff` and `NodeLine.read_eq_error_iff` say that this is how lines are read,
- `NodeLine.nodeText_join` is a line that is put together,
- `NodeLine.read_grammar` puts these together, for a numbered line.
-/

namespace DecisionForest

open Text (Separated)

/-! ## Texts with separators -/

/-- All characters are plain or among the separators. -/
def WrittenWith (separators cs : List Char) : Prop :=
  ∀ c ∈ cs, IsPlain c ∨ c ∈ separators

namespace WrittenWith

variable {separators cs : List Char}

theorem of_isPlain (h : ∀ c ∈ cs, IsPlain c) : WrittenWith separators cs :=
  fun c hc => Or.inl (h c hc)

theorem not_mem (h : WrittenWith separators cs) {d : Char} (hd : ¬ IsPlain d)
    (hother : d ∉ separators) : d ∉ cs := by
  intro hmem
  rcases h d hmem with hplain | hseparator
  · exact hd hplain
  · exact hother hseparator

theorem intercalate {separator : Char} {parts : List (List Char)}
    (h : ∀ part ∈ parts, WrittenWith separators part) :
    WrittenWith (separator :: separators) ([separator].intercalate parts) := by
  intro c hc
  rcases Text.mem_intercalate hc with rfl | ⟨part, hpart, hmem⟩
  · exact Or.inr List.mem_cons_self
  · rcases h part hpart c hmem with hplain | hseparator
    · exact Or.inl hplain
    · exact Or.inr (List.mem_cons_of_mem separator hseparator)

/-- A separator that the parts do not have stands between them and nowhere else. -/
theorem separated {separator : Char} {parts : List (List Char)}
    (h : ∀ part ∈ parts, WrittenWith separators part) (hne : parts ≠ [])
    (hseparator : ¬ IsPlain separator) (hnew : separator ∉ separators) :
    Separated separator ([separator].intercalate parts) parts where
  ne_nil := hne
  free := fun part hpart => (h part hpart).not_mem hseparator hnew
  join := rfl

end WrittenWith

namespace NodeLine

/-! ## Branches -/

section Branch

variable {piece feature yes no : List Char} {b : Branch NodeId} {fault : LineFault}

/-- Three numerals for the feature, the yes id and the no id. -/
inductive BranchText (piece : List Char) (b : Branch NodeId) : Prop where
  | parts {feature yes no : List Char} : Separated partSeparator piece [feature, yes, no] →
      Numeral.Denotes feature b.feature.toNat → Numeral.Denotes yes b.yes.toNat →
      Numeral.Denotes no b.no.toNat → BranchText piece b

/-- The first thing wrong with a piece: its form, or the leftmost part that is no number that
fits. -/
inductive BranchFails (piece : List Char) : LineFault → Prop where
  | form : piece.count partSeparator ≠ 2 → BranchFails piece (.branchForm (String.ofList piece))
  | feature {feature yes no : List Char} : Separated partSeparator piece [feature, yes, no] →
      ¬ Numeral.Fits 32 feature →
      BranchFails piece (.feature (String.ofList feature) (String.ofList piece))
  | yes {feature yes no : List Char} : Separated partSeparator piece [feature, yes, no] →
      Numeral.Fits 32 feature → ¬ Numeral.Fits 64 yes →
      BranchFails piece (.target .yes (String.ofList yes) (String.ofList piece))
  | no {feature yes no : List Char} : Separated partSeparator piece [feature, yes, no] →
      Numeral.Fits 32 feature → Numeral.Fits 64 yes → ¬ Numeral.Fits 64 no →
      BranchFails piece (.target .no (String.ofList no) (String.ofList piece))

theorem readBranch_of_separated (h : Separated partSeparator piece [feature, yes, no]) :
    readBranch piece = (do
      let f ← required (.feature (String.ofList feature) (String.ofList piece))
        (Numeral.readUInt32? feature)
      let y ← required (.target .yes (String.ofList yes) (String.ofList piece))
        (Numeral.readUInt64? yes)
      let n ← required (.target .no (String.ofList no) (String.ofList piece))
        (Numeral.readUInt64? no)
      pure { feature := f, yes := y, no := n }) := by
  rw [readBranch, h.splitOn_eq]

theorem readBranch_of_count (h : piece.count partSeparator ≠ 2) :
    readBranch piece = .error (.branchForm (String.ofList piece)) := by
  unfold readBranch
  split
  · rename_i hparts
    exact absurd (Text.exists_separated_three_iff.1 ⟨_, _, _, Text.splitOn_eq_iff.1 hparts⟩) h
  · rfl

theorem readBranch_of_text (h : BranchText piece b) : readBranch piece = .ok b := by
  obtain ⟨hparts, hfeature, hyes, hno⟩ := h
  rw [readBranch_of_separated hparts, Numeral.readUInt32?_eq_some_iff.2 hfeature,
    Numeral.readUInt64?_eq_some_iff.2 hyes, Numeral.readUInt64?_eq_some_iff.2 hno]
  rfl

theorem readBranch_of_fails (h : BranchFails piece fault) : readBranch piece = .error fault := by
  cases h with
  | form hcount =>
      exact readBranch_of_count hcount
  | feature hparts hnone =>
      rw [readBranch_of_separated hparts, Numeral.readUInt32?_eq_none_iff.2 hnone]
      rfl
  | yes hparts hfeature hnone =>
      obtain ⟨f, hf⟩ := Numeral.fits_32_iff.1 hfeature
      rw [readBranch_of_separated hparts, Numeral.readUInt32?_eq_some_iff.2 hf,
        Numeral.readUInt64?_eq_none_iff.2 hnone]
      rfl
  | no hparts hfeature hyes hnone =>
      obtain ⟨f, hf⟩ := Numeral.fits_32_iff.1 hfeature
      obtain ⟨y, hy⟩ := Numeral.fits_64_iff.1 hyes
      rw [readBranch_of_separated hparts, Numeral.readUInt32?_eq_some_iff.2 hf,
        Numeral.readUInt64?_eq_some_iff.2 hy, Numeral.readUInt64?_eq_none_iff.2 hnone]
      rfl

theorem exists_branchText_iff :
    (∃ b, BranchText piece b) ↔
      ∃ feature yes no, Separated partSeparator piece [feature, yes, no] ∧
        Numeral.Fits 32 feature ∧ Numeral.Fits 64 yes ∧ Numeral.Fits 64 no := by
  simp only [Numeral.fits_32_iff, Numeral.fits_64_iff]
  constructor
  · rintro ⟨b, hparts, hfeature, hyes, hno⟩
    exact ⟨_, _, _, hparts, ⟨_, hfeature⟩, ⟨_, hyes⟩, ⟨_, hno⟩⟩
  · rintro ⟨feature, yes, no, hparts, ⟨f, hf⟩, ⟨y, hy⟩, ⟨n, hn⟩⟩
    exact ⟨⟨f, y, n⟩, .parts hparts hf hy hn⟩

/-- Every piece is the text of a branch or has something wrong with it. -/
theorem branchText_or_fails (piece : List Char) :
    (∃ b, BranchText piece b) ∨ ∃ fault, BranchFails piece fault := by
  -- The form comes first, then the parts from the left.
  by_cases hcount : piece.count partSeparator = 2
  case neg =>
    exact Or.inr ⟨_, .form hcount⟩
  obtain ⟨feature, yes, no, hparts⟩ := Text.exists_separated_three_iff.2 hcount
  by_cases hfeature : Numeral.Fits 32 feature
  case neg =>
    exact Or.inr ⟨_, .feature hparts hfeature⟩
  by_cases hyes : Numeral.Fits 64 yes
  case neg =>
    exact Or.inr ⟨_, .yes hparts hfeature hyes⟩
  by_cases hno : Numeral.Fits 64 no
  case neg =>
    exact Or.inr ⟨_, .no hparts hfeature hyes hno⟩
  exact Or.inl (exists_branchText_iff.2 ⟨_, _, _, hparts, hfeature, hyes, hno⟩)

theorem readBranch_eq_ok_iff : readBranch piece = .ok b ↔ BranchText piece b :=
  (eq_ok_iff_and_eq_error_iff (fun _ => readBranch_of_text) (fun _ => readBranch_of_fails)
    (branchText_or_fails piece)).1 b

theorem readBranch_eq_error_iff : readBranch piece = .error fault ↔ BranchFails piece fault :=
  (eq_ok_iff_and_eq_error_iff (fun _ => readBranch_of_text) (fun _ => readBranch_of_fails)
    (branchText_or_fails piece)).2 fault

theorem not_branchText_nil : ¬ BranchText [] b := by
  intro h
  have hread := readBranch_of_text h
  cases hread

end Branch

/-! ## The third field -/

section Branches

variable {text : List Char} {pieces : List (List Char)} {branches : List (Branch NodeId)}
  {fault : LineFault}

/-- Nothing, or the text of a branch between every two bars. -/
inductive BranchesText : List Char → List (Branch NodeId) → Prop where
  | none : BranchesText [] []
  | pieces {text : List Char} {pieces : List (List Char)} {branches : List (Branch NodeId)} :
      Separated branchSeparator text pieces → List.Forall₂ BranchText pieces branches →
      BranchesText text branches

theorem readBranches_of_separated (h : Separated branchSeparator text pieces) (hne : text ≠ []) :
    readBranches text = pieces.mapM readBranch := by
  rw [readBranches, if_neg hne, h.splitOn_eq]

theorem mapM_readBranch_eq_ok_iff :
    pieces.mapM readBranch = .ok branches ↔ List.Forall₂ BranchText pieces branches := by
  simp only [mapM_eq_ok_iff, readBranch_eq_ok_iff]

theorem readBranches_eq_ok_iff : readBranches text = .ok branches ↔ BranchesText text branches := by
  constructor
  · intro h
    by_cases hnil : text = []
    · subst hnil
      cases h
      exact .none
    · obtain ⟨pieces, hpieces⟩ := Text.exists_separated branchSeparator text
      rw [readBranches_of_separated hpieces hnil] at h
      exact .pieces hpieces (mapM_readBranch_eq_ok_iff.1 h)
  · intro h
    cases h with
    | none =>
        rfl
    | @pieces _ pieces _ hpieces hbranches =>
        -- An empty text has one empty piece, which is no branch.
        have hne : text ≠ [] := by
          rintro rfl
          cases hpieces.unique (.nil branchSeparator)
          cases hbranches with
          | cons hfirst _ =>
              exact not_branchText_nil hfirst
        rw [readBranches_of_separated hpieces hne]
        exact mapM_readBranch_eq_ok_iff.2 hbranches

theorem readBranches_eq_error_iff :
    readBranches text = .error fault ↔
      text ≠ [] ∧ ∃ pieces, Separated branchSeparator text pieces ∧
        FirstFault BranchFails pieces fault := by
  obtain ⟨pieces, hpieces⟩ := Text.exists_separated branchSeparator text
  by_cases hnil : text = []
  · simp [readBranches, hnil]
  · rw [readBranches_of_separated hpieces hnil, mapM_eq_error_iff]
    simp only [readBranch_eq_error_iff]
    constructor
    · intro h
      exact ⟨hnil, pieces, hpieces, h⟩
    · rintro ⟨-, pieces', hpieces', h⟩
      rwa [hpieces.unique hpieces']

theorem exists_branchesText_iff :
    (∃ branches, BranchesText text branches) ↔
      text = [] ∨ ∃ pieces, Separated branchSeparator text pieces ∧
        ∀ piece ∈ pieces, ∃ feature yes no, Separated partSeparator piece [feature, yes, no] ∧
          Numeral.Fits 32 feature ∧ Numeral.Fits 64 yes ∧ Numeral.Fits 64 no := by
  by_cases hnil : text = []
  · subst hnil
    simpa using ⟨[], BranchesText.none⟩
  · obtain ⟨pieces, hpieces⟩ := Text.exists_separated branchSeparator text
    simp only [← readBranches_eq_ok_iff, readBranches_of_separated hpieces hnil,
      exists_mapM_eq_ok_iff, readBranch_eq_ok_iff, exists_branchText_iff, hnil, false_or]
    constructor
    · intro h
      exact ⟨pieces, hpieces, h⟩
    · rintro ⟨pieces', hpieces', h⟩
      rwa [hpieces.unique hpieces']

end Branches

/-! ## Lines -/

section Line

variable {line idText baseText branchText : List Char} {node : Node NodeId} {fault : LineFault}

/-- A numeral for the id, a literal for the base value, and the branches. -/
inductive NodeText (line : List Char) (node : Node NodeId) : Prop where
  | fields {idText baseText branchText : List Char} :
      Separated fieldSeparator line [idText, baseText, branchText] →
      Numeral.Denotes idText node.id.toNat → Literal baseText node.base →
      BranchesText branchText node.branches → NodeText line node

/-- The first thing wrong with a line: the number of fields, the id, the base value, or the first
thing wrong with the first piece that has one. -/
inductive LineFails (line : List Char) : LineFault → Prop where
  | fieldCount : line.count fieldSeparator ≠ 2 →
      LineFails line (.fieldCount (line.count fieldSeparator + 1))
  | nodeId {idText baseText branchText : List Char} :
      Separated fieldSeparator line [idText, baseText, branchText] → ¬ Numeral.Fits 64 idText →
      LineFails line (.nodeId (String.ofList idText))
  | base {idText baseText branchText : List Char} :
      Separated fieldSeparator line [idText, baseText, branchText] → Numeral.Fits 64 idText →
      (∀ x, ¬ Literal baseText x) → LineFails line (.base (String.ofList baseText))
  | branch {idText baseText branchText : List Char} {x : Float} {pieces : List (List Char)}
      {fault : LineFault} :
      Separated fieldSeparator line [idText, baseText, branchText] → Numeral.Fits 64 idText →
      Literal baseText x → branchText ≠ [] → Separated branchSeparator branchText pieces →
      FirstFault BranchFails pieces fault → LineFails line fault

theorem read_of_separated (h : Separated fieldSeparator line [idText, baseText, branchText]) :
    read line = (do
      let id ← required (.nodeId (String.ofList idText)) (Numeral.readUInt64? idText)
      let base ← required (.base (String.ofList baseText)) (readFloat? baseText)
      let branches ← readBranches branchText
      pure { id, base, branches }) := by
  rw [read, h.splitOn_eq]

theorem read_of_count (h : line.count fieldSeparator ≠ 2) :
    read line = .error (.fieldCount (line.count fieldSeparator + 1)) := by
  obtain ⟨fields, hfields⟩ := Text.exists_separated fieldSeparator line
  rw [read, hfields.splitOn_eq, ← hfields.length_eq]
  split
  · exact absurd (Text.exists_separated_three_iff.1 ⟨_, _, _, hfields⟩) h
  · rfl

theorem read_of_text (h : NodeText line node) : read line = .ok node := by
  obtain ⟨hfields, hid, hbase, hbranches⟩ := h
  rw [read_of_separated hfields, Numeral.readUInt64?_eq_some_iff.2 hid,
    readFloat?_eq_some_iff.2 hbase, readBranches_eq_ok_iff.2 hbranches]
  rfl

theorem read_of_fails (h : LineFails line fault) : read line = .error fault := by
  cases h with
  | fieldCount hcount =>
      exact read_of_count hcount
  | nodeId hfields hnone =>
      rw [read_of_separated hfields, Numeral.readUInt64?_eq_none_iff.2 hnone]
      rfl
  | base hfields hid hnone =>
      obtain ⟨id, hid⟩ := Numeral.fits_64_iff.1 hid
      rw [read_of_separated hfields, Numeral.readUInt64?_eq_some_iff.2 hid,
        readFloat?_eq_none_iff.2 hnone]
      rfl
  | branch hfields hid hbase hne hpieces hfirst =>
      obtain ⟨id, hid⟩ := Numeral.fits_64_iff.1 hid
      rw [read_of_separated hfields, Numeral.readUInt64?_eq_some_iff.2 hid,
        readFloat?_eq_some_iff.2 hbase, readBranches_eq_error_iff.2 ⟨hne, _, hpieces, hfirst⟩]
      rfl

/-- Every line is the text of a node or has something wrong with it. -/
theorem nodeText_or_fails (line : List Char) :
    (∃ node, NodeText line node) ∨ ∃ fault, LineFails line fault := by
  -- The number of fields comes first, then the fields from the left.
  by_cases hcount : line.count fieldSeparator = 2
  case neg =>
    exact Or.inr ⟨_, .fieldCount hcount⟩
  obtain ⟨idText, baseText, branchText, hfields⟩ := Text.exists_separated_three_iff.2 hcount
  by_cases hid : Numeral.Fits 64 idText
  case neg =>
    exact Or.inr ⟨_, .nodeId hfields hid⟩
  by_cases hbase : ∃ x, Literal baseText x
  case neg =>
    exact Or.inr ⟨_, .base hfields hid (not_exists.1 hbase)⟩
  obtain ⟨x, hx⟩ := hbase
  cases hread : readBranches branchText with
  | error fault =>
      obtain ⟨hne, pieces, hpieces, hfirst⟩ := readBranches_eq_error_iff.1 hread
      exact Or.inr ⟨fault, .branch hfields hid hx hne hpieces hfirst⟩
  | ok branches =>
      obtain ⟨id, hid⟩ := Numeral.fits_64_iff.1 hid
      exact Or.inl ⟨⟨id, x, branches⟩, .fields hfields hid hx (readBranches_eq_ok_iff.1 hread)⟩

theorem read_eq_ok_iff : read line = .ok node ↔ NodeText line node :=
  (eq_ok_iff_and_eq_error_iff (fun _ => read_of_text) (fun _ => read_of_fails)
    (nodeText_or_fails line)).1 node

theorem read_eq_error_iff : read line = .error fault ↔ LineFails line fault :=
  (eq_ok_iff_and_eq_error_iff (fun _ => read_of_text) (fun _ => read_of_fails)
    (nodeText_or_fails line)).2 fault

theorem exists_nodeText_iff :
    (∃ node, NodeText line node) ↔
      ∃ idText baseText branchText, Separated fieldSeparator line [idText, baseText, branchText] ∧
        Numeral.Fits 64 idText ∧ (∃ x, Literal baseText x) ∧
        (branchText = [] ∨ ∃ pieces, Separated branchSeparator branchText pieces ∧
          ∀ piece ∈ pieces, ∃ feature yes no, Separated partSeparator piece [feature, yes, no] ∧
            Numeral.Fits 32 feature ∧ Numeral.Fits 64 yes ∧ Numeral.Fits 64 no) := by
  simp only [← exists_branchesText_iff]
  constructor
  · rintro ⟨node, hfields, hid, hbase, hbranches⟩
    exact ⟨_, _, _, hfields, Numeral.fits_64_iff.2 ⟨_, hid⟩, ⟨_, hbase⟩, ⟨_, hbranches⟩⟩
  · rintro ⟨idText, baseText, branchText, hfields, hfits, ⟨x, hx⟩, ⟨branches, hbranches⟩⟩
    obtain ⟨id, hid⟩ := Numeral.fits_64_iff.1 hfits
    exact ⟨⟨id, x, branches⟩, .fields hfields hid hx hbranches⟩

end Line

/-! ## Lines that are put together -/

section Join

variable {feature yes no idText baseText branchText piece : List Char}
  {pieces : List (List Char)} {b : Branch NodeId} {branches : List (Branch NodeId)}
  {node : Node NodeId}

theorem writtenWith_numerals (hfeature : Numeral.Denotes feature b.feature.toNat)
    (hyes : Numeral.Denotes yes b.yes.toNat) (hno : Numeral.Denotes no b.no.toNat) :
    ∀ part ∈ [feature, yes, no], WrittenWith [] part := by
  intro part hpart
  simp only [List.mem_cons, List.not_mem_nil, or_false] at hpart
  rcases hpart with rfl | rfl | rfl
  · exact .of_isPlain hfeature.isPlain
  · exact .of_isPlain hyes.isPlain
  · exact .of_isPlain hno.isPlain

theorem branchText_join (hfeature : Numeral.Denotes feature b.feature.toNat)
    (hyes : Numeral.Denotes yes b.yes.toNat) (hno : Numeral.Denotes no b.no.toNat) :
    BranchText ([partSeparator].intercalate [feature, yes, no]) b :=
  .parts (WrittenWith.separated (writtenWith_numerals hfeature hyes hno) (by simp) (by decide)
    (by decide)) hfeature hyes hno

theorem branchText_writeBranch (b : Branch NodeId) : BranchText (writeBranch b) b :=
  branchText_join (Numeral.denotes_digits _) (Numeral.denotes_digits _) (Numeral.denotes_digits _)

theorem BranchText.writtenWith (h : BranchText piece b) : WrittenWith [partSeparator] piece := by
  obtain ⟨hparts, hfeature, hyes, hno⟩ := h
  rw [← hparts.join]
  exact WrittenWith.intercalate (writtenWith_numerals hfeature hyes hno)

theorem writtenWith_pieces (h : List.Forall₂ BranchText pieces branches) :
    ∀ piece ∈ pieces, WrittenWith [partSeparator] piece := by
  induction h with
  | nil =>
      simp
  | cons hfirst _ ih =>
      exact List.forall_mem_cons.2 ⟨hfirst.writtenWith, ih⟩

theorem branchesText_join (h : List.Forall₂ BranchText pieces branches) :
    BranchesText ([branchSeparator].intercalate pieces) branches := by
  by_cases hne : pieces = []
  · -- No pieces are joined to the same text as one empty piece.
    subst hne
    cases h
    exact .none
  · exact .pieces (WrittenWith.separated (writtenWith_pieces h) hne (by decide) (by decide)) h

theorem branchesText_writeBranches (branches : List (Branch NodeId)) :
    BranchesText (writeBranches branches) branches := by
  apply branchesText_join
  rw [List.forall₂_map_left_iff]
  exact List.forall₂_same.2 fun b _ => branchText_writeBranch b

theorem BranchesText.writtenWith (h : BranchesText branchText branches) :
    WrittenWith [branchSeparator, partSeparator] branchText := by
  cases h with
  | none =>
      intro c hc
      cases hc
  | pieces hpieces hbranches =>
      rw [← hpieces.join]
      exact WrittenWith.intercalate (writtenWith_pieces hbranches)

theorem writtenWith_fields (hid : Numeral.Denotes idText node.id.toNat)
    (hbase : Literal baseText node.base) (hbranches : BranchesText branchText node.branches) :
    ∀ part ∈ [idText, baseText, branchText],
      WrittenWith [branchSeparator, partSeparator] part := by
  intro part hpart
  simp only [List.mem_cons, List.not_mem_nil, or_false] at hpart
  rcases hpart with rfl | rfl | rfl
  · exact .of_isPlain hid.isPlain
  · exact .of_isPlain hbase.isPlain
  · exact hbranches.writtenWith

/-- An id, a literal and branches with tabs between them are the text of a node. -/
theorem nodeText_join (hid : Numeral.Denotes idText node.id.toNat)
    (hbase : Literal baseText node.base) (hbranches : BranchesText branchText node.branches) :
    NodeText ([fieldSeparator].intercalate [idText, baseText, branchText]) node :=
  .fields (WrittenWith.separated (writtenWith_fields hid hbase hbranches) (by simp) (by decide)
    (by decide)) hid hbase hbranches

theorem NodeText.writtenWith {line : List Char} (h : NodeText line node) :
    WrittenWith [fieldSeparator, branchSeparator, partSeparator] line := by
  obtain ⟨hfields, hid, hbase, hbranches⟩ := h
  rw [← hfields.join]
  exact WrittenWith.intercalate (writtenWith_fields hid hbase hbranches)

end Join

/-! ## Numbered lines -/

/-- The node of a line, or an error that calls the line by its number and shows it. -/
def parse (number : Nat) (line : String) : Except ModelError (Node NodeId) :=
  (read line.toList).mapError (.line number line)

section Parse

variable {number : Nat} {line : String} {node : Node NodeId} {e : ModelError}

theorem parse_eq_ok_iff : parse number line = .ok node ↔ NodeText line.toList node := by
  rw [parse, mapError_eq_ok_iff, read_eq_ok_iff]

theorem parse_eq_error_iff :
    parse number line = .error e ↔
      ∃ fault, LineFails line.toList fault ∧ e = .line number line fault := by
  rw [parse, mapError_eq_error_iff]
  simp only [read_eq_error_iff, @eq_comm _ e]

/-- A bar at the end leaves an empty piece, which is no branch. -/
example : parse 3 "7\t.5\t1:2:3|" = .error (.line 3 "7\t.5\t1:2:3|" (.branchForm "")) := by
  rfl

/-- This is how the lines of a stream are read. -/
theorem readLine_eq_parse {raw : List UInt8} {cs : List Char} (hcs : Utf8.decode? raw = .ok cs)
    (hline : Text.dropReturns cs = line.toList) (hne : line ≠ "") :
    Model.readLine number raw = (parse number line).map fun node =>
      some { line := number, node } := by
  have hcontent : line.toList ≠ [] := by
    rwa [ne_eq, String.toList_eq_nil_iff]
  unfold Model.readLine
  rw [hcs, parse]
  simp only [hline, hcontent, if_false, String.ofList_toList]
  cases read line.toList <;> rfl

/-- What a numbered line gives. There is a node if and only if two tabs divide the line into a numeral
below two to the 64th, a literal, and nothing or pieces with bars between them, each of which two
colons divide into numerals below two to the 32nd, the 64th and the 64th. The node has these numbers,
with a branch for every piece. Otherwise the error has the number of the line and all of its text, and
names the first thing wrong. A line that is put together in this way is read as what it is made of. -/
theorem read_grammar (number : Nat) (line : String) :
    ((∃ node, parse number line = .ok node) ↔
      ∃ idText baseText branchText,
        Separated fieldSeparator line.toList [idText, baseText, branchText] ∧
        Numeral.Fits 64 idText ∧ (∃ x, Literal baseText x) ∧
        (branchText = [] ∨ ∃ pieces, Separated branchSeparator branchText pieces ∧
          ∀ piece ∈ pieces, ∃ feature yes no, Separated partSeparator piece [feature, yes, no] ∧
            Numeral.Fits 32 feature ∧ Numeral.Fits 64 yes ∧ Numeral.Fits 64 no)) ∧
    (∀ node, parse number line = .ok node ↔ NodeText line.toList node) ∧
    (∀ e, parse number line = .error e ↔
      ∃ fault, LineFails line.toList fault ∧ e = .line number line fault) ∧
    (∀ fault, (ModelError.line number line fault).message =
      "Parse error at line " ++ toString number ++ ": " ++ fault.reason ++
        " (line='" ++ line ++ "')") ∧
    (∀ idText baseText pieces node, Numeral.Denotes idText node.id.toNat →
      Literal baseText node.base →
      List.Forall₂ (fun piece b => ∃ feature yes no,
        piece = [partSeparator].intercalate [feature, yes, no] ∧
          Numeral.Denotes feature b.feature.toNat ∧ Numeral.Denotes yes b.yes.toNat ∧
          Numeral.Denotes no b.no.toNat) pieces node.branches →
      line.toList = [fieldSeparator].intercalate
        [idText, baseText, [branchSeparator].intercalate pieces] →
      parse number line = .ok node) ∧
    (∀ id base baseText branches, Literal baseText base →
      line.toList = [fieldSeparator].intercalate
        [Numeral.digits id.toNat, baseText, writeBranches branches] →
      parse number line = .ok { id, base, branches }) ∧
    ∀ raw cs, Utf8.decode? raw = .ok cs → Text.dropReturns cs = line.toList → line ≠ "" →
      Model.readLine number raw = (parse number line).map fun node =>
        some { line := number, node } := by
  refine ⟨?accepted, fun _ => parse_eq_ok_iff, fun _ => parse_eq_error_iff, fun _ => rfl, ?joined,
    ?written, fun _ _ => readLine_eq_parse⟩
  case accepted =>
    simp only [parse_eq_ok_iff, exists_nodeText_iff]
  case joined =>
    intro idText baseText pieces node hid hbase hpieces hline
    have hbranches : List.Forall₂ BranchText pieces node.branches := by
      refine hpieces.imp fun piece b hpiece => ?_
      obtain ⟨feature, yes, no, rfl, hfeature, hyes, hno⟩ := hpiece
      exact branchText_join hfeature hyes hno
    rw [parse_eq_ok_iff, hline]
    exact nodeText_join hid hbase (branchesText_join hbranches)
  case written =>
    intro id base baseText branches hbase hline
    rw [parse_eq_ok_iff, hline]
    exact nodeText_join (Numeral.denotes_digits _) hbase (branchesText_writeBranches branches)

end Parse
end NodeLine
end DecisionForest

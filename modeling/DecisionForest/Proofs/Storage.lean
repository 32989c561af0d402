import DecisionForest.Proofs.Results
import DecisionForest.Storage

/-!
# What stands in a tree after a write

A file is made or replaced at one place, which is no directory. A way through the tree only goes
through directories, so the ways that lead somewhere before a write lead there after it, and a file
that was written is found under its name.

- `Storage.Writable` holds of the names that a file can be written under; `Storage.exists_write_iff`
  says that the content does not matter for that,
- `Storage.entry?_put` is what stands at each place after something was put at one,
- `Storage.resolve_put` says that ways stay,
- `Storage.read_of_write` reads what was written.
-/

namespace DecisionForest
namespace Storage

variable {files files' : Storage} {place here next : Place} {part : FileName.Part}
  {parts : List FileName.Part} {name : String} {content : List UInt8} {e : StorageEntry}

/-! ## Writing -/

/-- A file can have the name, the directories in it are there, and it does not lead to one. -/
def Writable (files : Storage) (name : String) : Prop :=
  FileName.check name = .ok () ∧
    ∃ place, files.resolve (partsToWrite name) = .ok place ∧ files.entry? place ≠ some .directory

theorem write_eq_ok_iff :
    files.write name content = .ok files' ↔
      FileName.check name = .ok () ∧
        ∃ place, files.resolve (partsToWrite name) = .ok place ∧
          files.entry? place ≠ some .directory ∧ files' = files.put place (.file content) := by
  simp only [write, bind_eq_ok_iff]
  constructor
  · rintro ⟨⟨⟩, hcheck, place, hplace, hput⟩
    split at hput
    case h_1 =>
      cases hput
    case h_2 hnot =>
      cases hput
      exact ⟨hcheck, place, hplace, hnot, rfl⟩
  · rintro ⟨hcheck, place, hplace, hnot, rfl⟩
    refine ⟨(), hcheck, place, hplace, ?_⟩
    split
    case h_1 hdirectory =>
      exact absurd hdirectory hnot
    case h_2 =>
      rfl

theorem exists_write_iff :
    (∃ files', files.write name content = .ok files') ↔ files.Writable name := by
  simp only [write_eq_ok_iff, Writable]
  constructor
  · rintro ⟨_, hcheck, place, hplace, hnot, _⟩
    exact ⟨hcheck, place, hplace, hnot⟩
  · rintro ⟨hcheck, place, hplace, hnot⟩
    exact ⟨_, hcheck, place, hplace, hnot, rfl⟩

/-! ## Places and ways -/

theorem entry?_put (files : Storage) (place : Place) (e : StorageEntry) (p : Place) :
    entry? (files.put place e) p =
      if p.isOutermost then some .directory else if p = place then some e else files.entry? p := by
  unfold entry? put
  rw [List.find?_cons]
  by_cases hp : p = place
  · simp [hp]
  · simp only [decide_eq_false (Ne.symm hp), hp, if_false]
    split <;> rfl

theorem enter_eq_ok (h : files.enter here part = .ok next) :
    files.entry? here = some .directory := by
  unfold enter at h
  split at h
  case h_3 hdirectory =>
    exact hdirectory
  all_goals cases h

/-- No step of a way is from the place of a file. -/
theorem enter_put (hnot : files.entry? place ≠ some .directory)
    (h : files.enter here part = .ok next) :
    (files.put place e).enter here part = .ok next := by
  have hdirectory := enter_eq_ok h
  have hhere : here ≠ place := by
    rintro rfl
    exact hnot hdirectory
  have hsame : entry? (files.put place e) here = files.entry? here := by
    rw [ entry?_put, if_neg hhere]
    split
    case isTrue houtermost =>
      exact (if_pos houtermost).symm
    case isFalse =>
      rfl
  rwa [enter, hsame, ← enter]

theorem resolve_put (hnot : files.entry? place ≠ some .directory) {start : Place}
    (h : parts.foldlM files.enter start = .ok next) :
    parts.foldlM (files.put place e).enter start = .ok next := by
  induction parts generalizing start with
  | nil =>
      exact h
  | cons part parts ih =>
      rw [List.foldlM_cons, bind_eq_ok_iff] at h ⊢
      obtain ⟨after, hstep, hrest⟩ := h
      exact ⟨after, enter_put hnot hstep, ih hrest⟩

/-! ## Reading what was written -/

/-- A name that ends in a slash leads to a directory, if anywhere. -/
theorem endsInSlash_of_resolve (h : files.resolve (partsToWrite name) = .ok place)
    (hnot : files.entry? place ≠ some .directory) : FileName.endsInSlash name = false := by
  cases hslash : FileName.endsInSlash name with
  | false =>
      rfl
  | true =>
      simp only [partsToWrite, hslash, if_true, resolve, List.foldlM_append, bind_eq_ok_iff,
        List.foldlM_cons, List.foldlM_nil] at h
      -- The last part says to stay, which only a directory allows.
      obtain ⟨here, _, _, hstay, ⟨⟩⟩ := h
      have hdirectory := enter_eq_ok hstay
      have hsame : here = place := by
        simpa [enter, hdirectory, FileName.currentPart, FileName.rootPart] using hstay
      exact absurd (hsame ▸ hdirectory) hnot

theorem read_of_write (h : files.write name content = .ok files') :
    files'.read name = .ok content := by
  obtain ⟨hcheck, place, hplace, hnot, rfl⟩ := write_eq_ok_iff.1 h
  have hslash := endsInSlash_of_resolve hplace hnot
  have hparts : partsToRead name = partsToWrite name := by
    simp [partsToRead, partsToWrite, hslash]
  have hread : (files.put place (.file content)).resolve (partsToRead name) = .ok place := by
    rw [hparts]
    exact resolve_put hnot hplace
  have hentry : entry? (files.put place (.file content)) place = some (.file content) := by
    have hinner : ¬ place.isOutermost := fun houtermost => hnot (if_pos houtermost)
    rw [ entry?_put, if_neg hinner, if_pos rfl]
  rw [read, hcheck]
  simp only [hread, hentry, bind, Except.bind, pure, Except.pure]

end Storage
end DecisionForest

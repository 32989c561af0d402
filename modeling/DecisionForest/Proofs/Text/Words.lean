import DecisionForest.Text.Blank

/-!
# Where words end

Blanks stand between words and nowhere else, so a text without blanks is one word, and at a blank a
text falls into two that have their words for themselves.

- `Text.Spaced` lists the words of a text by these rules, `Text.words_eq_iff` says that `Text.words`
  lists them,
- `Text.words_append_blank` is a text with a blank at its end,
- `Text.words_eq_nil_iff` is a text that has none.
-/

namespace DecisionForest
namespace Text

variable {cs : List Char} {ws : List (List Char)}

/-- The words of a text, in order. -/
inductive Spaced : List Char → List (List Char) → Prop where
  | nil : Spaced [] []
  | word {cs : List Char} : cs ≠ [] → (∀ c ∈ cs, isBlank c = false) → Spaced cs [cs]
  | blank {cs cs' : List Char} {ws ws' : List (List Char)} {b : Char} : Spaced cs ws →
      isBlank b = true → Spaced cs' ws' → Spaced (cs ++ b :: cs') (ws ++ ws')

theorem words_eq_of_spaced (h : Spaced cs ws) : words cs = ws := by
  induction h with
  | nil =>
      simp [words]
  | word hne hfree =>
      rw [words, List.splitOnP_eq_singleton hfree]
      simp [hne]
  | blank _ hb _ ih ih' =>
      rw [words, List.splitOnP_append_cons _ _ hb, List.filter_append, ← words, ← words, ih, ih']

theorem exists_spaced (cs : List Char) : ∃ ws, Spaced cs ws := by
  by_cases hblank : ∃ b ∈ cs, isBlank b = true
  · obtain ⟨b, hmem, hb⟩ := hblank
    obtain ⟨before, after, hcs⟩ := List.append_of_mem hmem
    -- Both sides of a blank are shorter.
    obtain ⟨ws, hws⟩ := exists_spaced before
    obtain ⟨ws', hws'⟩ := exists_spaced after
    exact ⟨ws ++ ws', hcs ▸ .blank hws hb hws'⟩
  · by_cases hne : cs = []
    · exact ⟨[], hne ▸ .nil⟩
    · have hfree : ∀ c ∈ cs, isBlank c = false := by simpa using hblank
      exact ⟨[cs], .word hne hfree⟩
termination_by cs.length
decreasing_by
  all_goals
    simp only [hcs, List.length_append, List.length_cons]
    omega

theorem words_eq_iff : words cs = ws ↔ Spaced cs ws := by
  constructor
  · rintro rfl
    obtain ⟨ws, hws⟩ := exists_spaced cs
    rw [words_eq_of_spaced hws]
    exact hws
  · exact words_eq_of_spaced

theorem words_append_blank (cs : List Char) {b : Char} (hb : isBlank b = true) :
    words (cs ++ [b]) = words cs := by
  have hspaced : Spaced (cs ++ [b]) (words cs ++ []) := .blank (words_eq_iff.1 rfl) hb .nil
  rw [words_eq_of_spaced hspaced, List.append_nil]

theorem words_eq_nil_iff : words cs = [] ↔ cs.all isBlank = true := by
  unfold words
  induction cs with
  | nil =>
      simp
  | cons c cs ih =>
      rw [List.splitOnP_cons_eq_if_modifyHead]
      by_cases hc : isBlank c = true
      · simpa [hc] using ih
      · -- The first word starts with this character.
        rcases List.exists_cons_of_ne_nil (List.splitOnP_ne_nil isBlank cs) with ⟨w, ws, hws⟩
        simp [hc, hws]

end Text
end DecisionForest

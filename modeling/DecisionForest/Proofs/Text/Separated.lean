import Mathlib.Data.List.Basic

/-!
# Texts cut at a separator

A text has one part more than it has separators, and cutting is the inverse of joining.

- `Text.Separated` holds of a text and the parts between its separators,
- `Text.splitOn_eq_iff` says that cutting gives these parts and no others,
- `Text.Separated.length_eq` counts them, and `Text.exists_separated_three_iff` is the case of three.
-/

namespace DecisionForest
namespace Text

/-- A text that is joined from parts in which the separator does not occur. -/
structure Separated (separator : Char) (text : List Char) (parts : List (List Char)) : Prop where
  ne_nil : parts ≠ []
  free : ∀ part ∈ parts, separator ∉ part
  join : [separator].intercalate parts = text

variable {separator c : Char} {text part : List Char} {parts parts' : List (List Char)}

theorem decide_ne_of_not_mem (h : separator ∉ text) :
    ∀ c ∈ text, decide (c ≠ separator) = true := by
  intro c hc
  exact decide_eq_true fun heq => h (heq ▸ hc)

namespace Separated

theorem nil (separator : Char) : Separated separator [] [[]] where
  ne_nil := by simp
  free := by simp
  join := rfl

/-- A separator at the front stands after an empty part. -/
theorem cons_separator (h : Separated separator text parts) :
    Separated separator (separator :: text) ([] :: parts) where
  ne_nil := by simp
  free := by
    intro part hpart
    rcases List.mem_cons.1 hpart with rfl | hpart
    · exact List.not_mem_nil
    · exact h.free part hpart
  join := by
    rw [List.intercalate_cons_of_ne_nil h.ne_nil, h.join]
    rfl

/-- Any other character belongs to the first part. -/
theorem cons (hc : c ≠ separator) (h : Separated separator text (part :: parts)) :
    Separated separator (c :: text) ((c :: part) :: parts) where
  ne_nil := by simp
  free := by
    intro other hother
    rcases List.mem_cons.1 hother with rfl | hother
    · intro hmem
      rcases List.mem_cons.1 hmem with heq | hmem
      · exact hc heq.symm
      · exact h.free part List.mem_cons_self hmem
    · exact h.free other (List.mem_cons_of_mem part hother)
  join := by
    rw [← h.join]
    cases parts with
    | nil =>
        simp
    | cons next parts =>
        simp [List.intercalate_cons_cons]

theorem splitOn_eq (h : Separated separator text parts) : text.splitOn separator = parts := by
  rw [← h.join]
  exact List.splitOn_intercalate separator h.free h.ne_nil

theorem unique (h : Separated separator text parts) (h' : Separated separator text parts') :
    parts = parts' :=
  h.splitOn_eq.symm.trans h'.splitOn_eq

end Separated

theorem exists_separated (separator : Char) (text : List Char) :
    ∃ parts, Separated separator text parts := by
  induction text with
  | nil =>
      exact ⟨[[]], .nil separator⟩
  | cons c text ih =>
      obtain ⟨parts, hparts⟩ := ih
      by_cases hc : c = separator
      · subst hc
        exact ⟨[] :: parts, hparts.cons_separator⟩
      · cases parts with
        | nil =>
            exact absurd rfl hparts.ne_nil
        | cons part parts =>
            exact ⟨(c :: part) :: parts, hparts.cons hc⟩

/-- Cutting is the inverse of joining. -/
theorem splitOn_eq_iff : text.splitOn separator = parts ↔ Separated separator text parts := by
  constructor
  · rintro rfl
    obtain ⟨parts, hparts⟩ := exists_separated separator text
    rw [hparts.splitOn_eq]
    exact hparts
  · exact Separated.splitOn_eq

theorem mem_intercalate
    (h : c ∈ [separator].intercalate parts) : c = separator ∨ ∃ part ∈ parts, c ∈ part := by
  induction parts with
  | nil =>
      cases h
  | cons part rest ih =>
      -- A separator follows the first part only when there is another one.
      cases rest with
      | nil =>
          rw [List.intercalate_singleton] at h
          exact Or.inr ⟨part, by simp, h⟩
      | cons next rest =>
          rw [List.intercalate_cons_cons] at h
          rcases List.mem_append.1 h with hfirst | hlater
          · rcases List.mem_append.1 hfirst with hpart | hseparator
            · exact Or.inr ⟨part, by simp, hpart⟩
            · exact Or.inl (List.mem_singleton.1 hseparator)
          · rcases ih hlater with rfl | ⟨other, hother, hc⟩
            · exact Or.inl rfl
            · exact Or.inr ⟨other, List.mem_cons_of_mem part hother, hc⟩

theorem count_intercalate (hne : parts ≠ []) (hfree : ∀ part ∈ parts, separator ∉ part) :
    ([separator].intercalate parts).count separator + 1 = parts.length := by
  induction parts with
  | nil =>
      exact absurd rfl hne
  | cons part rest ih =>
      have hpart : part.count separator = 0 := List.count_eq_zero.2 (hfree part List.mem_cons_self)
      cases rest with
      | nil =>
          simp [hpart]
      | cons next rest =>
          have hrest := ih (List.cons_ne_nil next rest) fun other hother =>
            hfree other (List.mem_cons_of_mem part hother)
          rw [List.intercalate_cons_cons, List.count_append, List.count_append, hpart,
            List.count_singleton_self, List.length_cons, ← hrest]
          omega

/-- A text has one part more than it has separators. -/
theorem Separated.length_eq (h : Separated separator text parts) :
    parts.length = text.count separator + 1 := by
  rw [← h.join, count_intercalate h.ne_nil h.free]

theorem exists_separated_three_iff :
    (∃ a b c, Separated separator text [a, b, c]) ↔ text.count separator = 2 := by
  constructor
  · rintro ⟨a, b, c, h⟩
    have hlength := h.length_eq
    simp only [List.length_cons, List.length_nil] at hlength
    omega
  · intro hcount
    obtain ⟨parts, h⟩ := exists_separated separator text
    have hthree : parts.length = 3 := by
      rw [h.length_eq, hcount]
    obtain ⟨a, b, c, rfl⟩ := List.length_eq_three.1 hthree
    exact ⟨a, b, c, h⟩

end Text
end DecisionForest

/-!
# Blanks and words

The characters that separate words in a row are those with the Unicode property `White_Space`.

- `isBlank` decides the property,
- `words` lists the maximal runs of other characters,
- `trimBlanks` drops blanks at both ends (`exists_trimBlanks`, `trimBlanks_append`).
-/

namespace DecisionForest
namespace Text

/-- The code points with the property `White_Space`, as closed ranges in ascending order. -/
def blankRanges : List (Nat × Nat) :=
  [(0x09, 0x0D), (0x20, 0x20), (0x85, 0x85), (0xA0, 0xA0), (0x1680, 0x1680), (0x2000, 0x200A),
    (0x2028, 0x2029), (0x202F, 0x202F), (0x205F, 0x205F), (0x3000, 0x3000)]

def isBlank (c : Char) : Bool :=
  blankRanges.any fun (first, last) => decide (first ≤ c.toNat) && decide (c.toNat ≤ last)

def words (cs : List Char) : List (List Char) :=
  (cs.splitOnP isBlank).filter (· ≠ [])

def trimBlanks (cs : List Char) : List Char :=
  ((cs.dropWhile isBlank).reverse.dropWhile isBlank).reverse

/-! ## Blanks at the ends -/

/-- Nothing but blanks is dropped. -/
theorem exists_trimBlanks (cs : List Char) :
    ∃ front back, cs = front ++ trimBlanks cs ++ back ∧ (∀ c ∈ front, isBlank c = true) ∧
      ∀ c ∈ back, isBlank c = true := by
  have hall : ∀ l : List Char, ∀ c ∈ l.takeWhile isBlank, isBlank c = true := fun l =>
    List.all_eq_true.1 List.all_takeWhile
  have hfront := List.takeWhile_append_dropWhile (p := isBlank) (l := cs)
  have hback := List.takeWhile_append_dropWhile (p := isBlank) (l := (cs.dropWhile isBlank).reverse)
  refine ⟨_, ((cs.dropWhile isBlank).reverse.takeWhile isBlank).reverse, ?_, hall cs, ?_⟩
  · rw [trimBlanks, List.append_assoc, ← List.reverse_append, hback, List.reverse_reverse, hfront]
  · exact fun c hc => hall _ c (List.mem_reverse.1 hc)

theorem dropWhile_isBlank {front rest : List Char} (hfront : ∀ c ∈ front, isBlank c = true)
    (hrest : ∀ c ∈ rest.head?, isBlank c = false) :
    (front ++ rest).dropWhile isBlank = rest := by
  rw [List.dropWhile_append_of_pos hfront]
  cases rest with
  | nil =>
      rfl
  | cons c cs =>
      rw [List.dropWhile_cons, hrest c rfl]
      rfl

/-- Blanks around a word that has none in it are dropped. -/
theorem trimBlanks_append {front word back : List Char} (hfront : ∀ c ∈ front, isBlank c = true)
    (hword : ∀ c ∈ word, isBlank c = false) (hback : ∀ c ∈ back, isBlank c = true)
    (hne : word ≠ []) : trimBlanks (front ++ word ++ back) = word := by
  have hfirst : (front ++ (word ++ back)).dropWhile isBlank = word ++ back := by
    obtain ⟨d, ds, rfl⟩ := List.exists_cons_of_ne_nil hne
    refine dropWhile_isBlank hfront fun c hc => hword c ?_
    cases hc
    exact List.mem_cons_self
  have hlast : (back.reverse ++ word.reverse).dropWhile isBlank = word.reverse := by
    refine dropWhile_isBlank (fun c hc => hback c (List.mem_reverse.1 hc)) fun c hc => ?_
    exact hword c (List.mem_reverse.1 (List.mem_of_mem_head? hc))
  rw [trimBlanks, List.append_assoc, hfirst, List.reverse_append, hlast, List.reverse_reverse]

/-- No letter is a blank, so blanks are the same in lower case. -/
theorem toLower_of_isBlank {c : Char} (h : isBlank c = true) : c.toLower = c := by
  unfold Char.toLower
  split
  case isTrue hupper =>
    have hrange : 'A'.toNat ≤ c.toNat ∧ c.toNat ≤ 'Z'.toNat := hupper
    simp [isBlank, blankRanges] at h hrange
    omega
  case isFalse =>
    rfl

end Text
end DecisionForest

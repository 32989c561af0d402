import Mathlib.Data.List.Chain
import Mathlib.Data.List.Sort
import DecisionForest.Features

/-!
# Order and membership

The feature list of a row is sorted and then freed of repetitions, so it is strictly ascending
(`Features.pairwise_ascending`). The strict check passes such lists and no others
(`Features.check_eq_ok_iff`), and its error names the first place that descends
(`Features.check_eq_error_iff`). It looks at neighbours only, which is enough for the order of any two
features (`Features.strict_iff_pairwise`, `Features.isAscending_eq_true_iff`).

On an ascending list, repetitions allowed, the bisection of a range of positions finds a feature
exactly when it stands in that range (`Features.search_eq_true_iff`), so looking a feature up is
plain membership (`Features.contains_eq_mem`).
-/

namespace DecisionForest
namespace Features

/-! ## Strict order -/

theorem mem_dropRepeats_iff {fs : List FeatureId} {f : FeatureId} :
    f ∈ dropRepeats fs ↔ f ∈ fs := by
  fun_induction dropRepeats fs with
  | case1 b rest ih =>
      rw [ih]
      simp
  | case2 a b rest hne ih =>
      rw [List.mem_cons, ih, ← List.mem_cons]
  | case3 fs hshort =>
      rfl

theorem pairwise_dropRepeats {fs : List FeatureId} (h : fs.Pairwise (· ≤ ·)) :
    (dropRepeats fs).Pairwise (· < ·) := by
  fun_induction dropRepeats fs with
  | case1 b rest ih =>
      exact ih h.of_cons
  | case2 a b rest hne ih =>
      refine List.pairwise_cons.2 ⟨?_, ih h.of_cons⟩
      intro f hf
      rw [mem_dropRepeats_iff] at hf
      have hab : a ≤ b := List.rel_of_pairwise_cons h (by simp)
      have hlt : a < b := UInt32.lt_of_le_of_ne hab hne
      rcases List.mem_cons.1 hf with rfl | hf
      · exact hlt
      · exact UInt32.lt_of_lt_of_le hlt (List.rel_of_pairwise_cons h.of_cons hf)
  | case3 fs hshort =>
      match fs, hshort with
      | [], _ => exact List.Pairwise.nil
      | [a], _ => exact List.pairwise_singleton _ a
      | a :: b :: rest, hshort => exact absurd rfl (hshort a b rest)

theorem pairwise_ascending (fs : List FeatureId) : (ascending fs).Pairwise (· < ·) := by
  apply pairwise_dropRepeats
  have htrans : ∀ a b c : FeatureId, decide (a ≤ b) = true → decide (b ≤ c) = true →
      decide (a ≤ c) = true := by
    intro a b c hab hbc
    exact decide_eq_true (UInt32.le_trans (of_decide_eq_true hab) (of_decide_eq_true hbc))
  have htotal : ∀ a b : FeatureId, (decide (a ≤ b) || decide (b ≤ a)) = true := by
    intro a b
    simpa using UInt32.le_total a b
  exact (List.pairwise_mergeSort htrans htotal fs).imp of_decide_eq_true

theorem mem_ascending_iff {fs : List FeatureId} {f : FeatureId} : f ∈ ascending fs ↔ f ∈ fs := by
  rw [ascending, mem_dropRepeats_iff, List.mem_mergeSort]

/-- A strictly ascending list is determined by its members. -/
theorem eq_of_pairwise {fs gs : List FeatureId} (hfs : fs.Pairwise (· < ·))
    (hgs : gs.Pairwise (· < ·)) (h : ∀ f, f ∈ fs ↔ f ∈ gs) : fs = gs := by
  have hirrefl : Std.Irrefl (fun a b : FeatureId => a < b) := ⟨UInt32.lt_irrefl⟩
  exact List.Pairwise.eq_of_mem_iff hfs hgs h

theorem eq_ascending_iff {fs gs : List FeatureId} :
    fs = ascending gs ↔ fs.Pairwise (· < ·) ∧ ∀ f, f ∈ fs ↔ f ∈ gs := by
  constructor
  · rintro rfl
    exact ⟨pairwise_ascending gs, fun f => mem_ascending_iff⟩
  · rintro ⟨hfs, h⟩
    exact eq_of_pairwise hfs (pairwise_ascending gs) fun f => (h f).trans mem_ascending_iff.symm

theorem ascending_congr {fs gs : List FeatureId} (h : ∀ f, f ∈ fs ↔ f ∈ gs) :
    ascending fs = ascending gs :=
  eq_ascending_iff.2 ⟨pairwise_ascending fs, fun f => mem_ascending_iff.trans (h f)⟩

theorem descent?_eq_none_iff {position : Nat} {fs : List FeatureId} :
    descent? position fs = none ↔ fs.Pairwise (· < ·) := by
  rw [← List.isChain_iff_pairwise]
  fun_induction descent? position fs with
  | case1 position a b rest hle =>
      simp [hle]
  | case2 position a b rest hlt ih =>
      simp only [ih, List.isChain_cons_cons, UInt32.not_le.1 hlt, true_and]
  | case3 position fs hshort =>
      match fs, hshort with
      | [], _ => simp
      | [a], _ => simp
      | a :: b :: rest, hshort => exact absurd rfl (hshort a b rest)

theorem check_eq_ok_iff {fs : List FeatureId} : check fs = .ok () ↔ fs.Pairwise (· < ·) := by
  rw [← @descent?_eq_none_iff 0, check]
  cases descent? 0 fs <;> simp

/-- Each feature is below every later one. -/
def Strict (fs : Array FeatureId) : Prop :=
  ∀ i j : Fin fs.size, i < j → fs[i] < fs[j]

theorem strict_iff_pairwise {fs : Array FeatureId} : Strict fs ↔ fs.toList.Pairwise (· < ·) := by
  rw [List.pairwise_iff_getElem]
  constructor
  · intro h i j hi hj hij
    exact h ⟨i, by simpa using hi⟩ ⟨j, by simpa using hj⟩ hij
  · intro h i j hij
    exact h i.val j.val (by simp) (by simp) hij

/-- The order of neighbours is the order of all. -/
theorem isAscending_eq_true_iff {fs : List FeatureId} :
    isAscending fs = true ↔ fs.Pairwise (· < ·) := by
  rw [← List.isChain_iff_pairwise]
  fun_induction isAscending fs with
  | case1 a b rest ih =>
      rw [Bool.and_eq_true, decide_eq_true_iff, ih, List.isChain_cons_cons]
  | case2 fs hshort =>
      match fs, hshort with
      | [], _ => simp
      | [a], _ => simp
      | a :: b :: rest, hshort => exact absurd rfl (hshort a b rest)

/-! ## The first descent -/

/-- The first place where a feature is not below the next one. -/
structure FirstDescent (fs : List FeatureId) (position : Nat) (feature next : FeatureId) : Prop where
  here : fs[position]? = some feature
  after : fs[position + 1]? = some next
  descends : next ≤ feature
  first : ∀ q < position, ∀ f g, fs[q]? = some f → fs[q + 1]? = some g → f < g

section FirstDescent

variable {a b feature next : FeatureId} {rest : List FeatureId} {position : Nat}

theorem firstDescent_cons_of_le (h : b ≤ a) :
    FirstDescent (a :: b :: rest) position feature next ↔
      position = 0 ∧ feature = a ∧ next = b := by
  constructor
  · intro hfirst
    cases position with
    | zero =>
        exact ⟨rfl, (Option.some.inj hfirst.here).symm, (Option.some.inj hfirst.after).symm⟩
    | succ position =>
        -- The place before all others descends already.
        have hlt : a < b := hfirst.first 0 (Nat.succ_pos position) a b rfl rfl
        exact absurd h (UInt32.not_le.2 hlt)
  · rintro ⟨rfl, rfl, rfl⟩
    exact ⟨rfl, rfl, h, fun q hq => absurd hq (Nat.not_lt_zero q)⟩

theorem firstDescent_cons_of_lt (h : a < b) :
    FirstDescent (a :: b :: rest) position feature next ↔
      ∃ later, position = later + 1 ∧ FirstDescent (b :: rest) later feature next := by
  constructor
  · intro hfirst
    cases position with
    | zero =>
        cases hfirst.here
        cases hfirst.after
        exact absurd hfirst.descends (UInt32.not_le.2 h)
    | succ later =>
        refine ⟨later, rfl, hfirst.here, hfirst.after, hfirst.descends, ?_⟩
        intro q hq f g hf hg
        exact hfirst.first (q + 1) (Nat.succ_lt_succ hq) f g hf hg
  · rintro ⟨later, rfl, hfirst⟩
    refine ⟨hfirst.here, hfirst.after, hfirst.descends, ?_⟩
    intro q hq f g hf hg
    cases q with
    | zero =>
        cases hf
        cases hg
        exact h
    | succ q =>
        exact hfirst.first q (Nat.lt_of_succ_lt_succ hq) f g hf hg

/-- The first descent is the one that is found, counted from where the list starts. -/
theorem descent?_eq_some_iff {start : Nat} {fs : List FeatureId} {fault : FeaturesFault} :
    descent? start fs = some fault ↔
      ∃ position feature next, FirstDescent fs position feature next ∧
        fault = .notAscending (start + position) feature next := by
  fun_induction descent? start fs with
  | case1 start a b rest hle =>
      simp only [firstDescent_cons_of_le hle, Option.some.injEq]
      constructor
      · rintro rfl
        exact ⟨0, a, b, ⟨rfl, rfl, rfl⟩, rfl⟩
      · rintro ⟨position, feature, next, ⟨rfl, rfl, rfl⟩, rfl⟩
        rfl
  | case2 start a b rest hlt ih =>
      simp only [ih, firstDescent_cons_of_lt (UInt32.not_le.1 hlt)]
      constructor
      · rintro ⟨later, feature, next, hfirst, rfl⟩
        exact ⟨later + 1, feature, next, ⟨later, rfl, hfirst⟩, by rw [Nat.add_right_comm]; rfl⟩
      · rintro ⟨_, feature, next, ⟨later, rfl, hfirst⟩, rfl⟩
        exact ⟨later, feature, next, hfirst, by rw [Nat.add_right_comm]; rfl⟩
  | case3 start fs hshort =>
      simp only [reduceCtorEq, false_iff]
      rintro ⟨position, feature, next, hfirst, _⟩
      match fs, hshort with
      | [], _ => cases hfirst.after
      | [a], _ => cases hfirst.after
      | a :: b :: rest, hshort => exact hshort a b rest rfl

end FirstDescent

theorem check_eq_error_iff {fs : List FeatureId} {e : Error} :
    check fs = .error e ↔
      ∃ position feature next, FirstDescent fs position feature next ∧
        e = .features (.notAscending position feature next) := by
  have hcheck : check fs = .error e ↔ ∃ fault, descent? 0 fs = some fault ∧ e = .features fault := by
    unfold check
    cases descent? 0 fs <;> simp [eq_comm]
  simp only [hcheck, descent?_eq_some_iff, Nat.zero_add]
  constructor
  · rintro ⟨_, ⟨position, feature, next, hfirst, rfl⟩, rfl⟩
    exact ⟨position, feature, next, hfirst, rfl⟩
  · rintro ⟨position, feature, next, hfirst, rfl⟩
    exact ⟨_, ⟨position, feature, next, hfirst, rfl⟩, rfl⟩

/-- A repeated feature is a descent, and the first one is named. -/
example : check [1, 5, 5, 2] = .error (.features (.notAscending 1 5 5)) :=
  rfl

/-! ## Bisection -/

variable {fs : Array FeatureId} {f : FeatureId}

/-- In ascending order; a feature may be repeated. -/
def Ascending (fs : Array FeatureId) : Prop :=
  fs.toList.Pairwise (· ≤ ·)

theorem Ascending.le (h : Ascending fs) {i j : Nat} {a b : FeatureId} (hij : i ≤ j)
    (hi : fs[i]? = some a) (hj : fs[j]? = some b) : a ≤ b := by
  rcases Nat.lt_or_eq_of_le hij with hlt | rfl
  · rcases Array.getElem?_eq_some_iff.1 hi with ⟨hi', rfl⟩
    rcases Array.getElem?_eq_some_iff.1 hj with ⟨hj', rfl⟩
    have hpair := List.pairwise_iff_getElem.1 h i j (by simpa using hi') (by simpa using hj') hlt
    simpa using hpair
  · rw [hi] at hj
    cases hj
    exact UInt32.le_refl a

/-- The positions that the bisection drops do not have the feature. -/
theorem search_eq_true_iff (hs : Ascending fs) {low high : Nat} (hhigh : high ≤ fs.size) :
    search fs f low high = true ↔ ∃ i, low ≤ i ∧ i < high ∧ fs[i]? = some f := by
  -- The cases are those of one bisection step; the range that is dropped is ruled out by order.
  fun_induction search fs f low high with
  | case1 low high hlt middle hnone =>
      have hmiddle : fs.size ≤ middle := by
        simpa using hnone
      omega
  | case2 low high hlt middle hfound =>
      simp only [true_iff]
      exact ⟨middle, by omega, by omega, hfound⟩
  | case3 low high hlt middle g hg hne hless ih =>
      rw [ih hhigh]
      constructor
      · rintro ⟨i, hlow, hi, hf⟩
        exact ⟨i, by omega, hi, hf⟩
      · rintro ⟨i, hlow, hi, hf⟩
        refine ⟨i, ?_, hi, hf⟩
        rcases Nat.lt_or_ge middle i with hafter | hbefore
        · exact hafter
        · have hfg : f ≤ g := hs.le hbefore hf hg
          exact absurd hless (UInt32.not_lt.2 hfg)
  | case4 low high hlt middle g hg hne hless ih =>
      rw [ih (by omega)]
      constructor
      · rintro ⟨i, hlow, hi, hf⟩
        exact ⟨i, hlow, by omega, hf⟩
      · rintro ⟨i, hlow, hi, hf⟩
        refine ⟨i, hlow, ?_, hf⟩
        rcases Nat.lt_or_ge i middle with hbefore | hafter
        · exact hbefore
        · have hgf : g ≤ f := hs.le hafter hg hf
          exact absurd (UInt32.le_antisymm hgf (UInt32.not_lt.1 hless)) hne
  | case5 low high hge =>
      simp only [Bool.false_eq_true, false_iff]
      rintro ⟨i, hlow, hi, _⟩
      omega

theorem contains_eq_mem (hs : Ascending fs) : contains fs f = decide (f ∈ fs.toList) := by
  rw [Bool.eq_iff_iff, contains, search_eq_true_iff hs (Nat.le_refl _), decide_eq_true_iff,
    Array.mem_toList_iff, Array.mem_iff_getElem?]
  constructor
  · rintro ⟨i, _, _, hf⟩
    exact ⟨i, hf⟩
  · rintro ⟨i, hf⟩
    exact ⟨i, Nat.zero_le i, (Array.getElem?_eq_some_iff.1 hf).1, hf⟩

end Features
end DecisionForest

import Mathlib.Data.List.Forall2

/-!
# Computations that succeed or fail

What it takes for a composed computation to succeed or to fail, as equivalences that later proofs
rewrite with:

- `exists_eq_ok`, `exists_eq_error_iff` and `eq_ok_iff_and_eq_error_iff` for a computation as a
  whole,
- `bind_eq_ok_iff`, `map_eq_ok_iff` for one step after another, `mapError_eq_ok_iff` and
  `mapError_eq_error_iff` for an error that is wrapped,
- `mapM_eq_ok_iff` for a list treated element by element, `vector_mapM_eq_ok_iff` for a vector,
- `FirstFault` is the fault of the first element that has one; `mapM_eq_error_iff` says that this
  is how a list fails, and `mapM_eq_error_iff_head?` lists all faults in order instead,
- `mapM_flatten` treats a list of lists list by list.
-/

namespace DecisionForest

variable {ε α β : Type}

theorem exists_eq_ok {x : Except ε α} (h : x.isOk = true) : ∃ a, x = .ok a := by
  cases x with
  | error e =>
      cases h
  | ok a =>
      exact ⟨a, rfl⟩

theorem exists_eq_error_iff {x : Except ε α} : (∃ e, x = .error e) ↔ ∀ a, x ≠ .ok a := by
  cases x <;> simp

/-- Results that are known in two cases, one of which applies, are known in full. -/
theorem eq_ok_iff_and_eq_error_iff {x : Except ε α} {isOk : α → Prop} {isError : ε → Prop}
    (hok : ∀ a, isOk a → x = .ok a) (herror : ∀ e, isError e → x = .error e)
    (htotal : (∃ a, isOk a) ∨ ∃ e, isError e) :
    (∀ a, x = .ok a ↔ isOk a) ∧ ∀ e, x = .error e ↔ isError e := by
  rcases htotal with ⟨a, ha⟩ | ⟨e, he⟩
  · obtain rfl := hok a ha
    constructor
    · refine fun a' => ⟨?_, hok a'⟩
      intro h
      cases h
      exact ha
    · refine fun e => ⟨?_, herror e⟩
      intro h
      cases h
  · obtain rfl := herror e he
    constructor
    · refine fun a => ⟨?_, hok a⟩
      intro h
      cases h
    · refine fun e' => ⟨?_, herror e'⟩
      intro h
      cases h
      exact he

theorem bind_eq_ok_iff {x : Except ε α} {f : α → Except ε β} {b : β} :
    x >>= f = .ok b ↔ ∃ a, x = .ok a ∧ f a = .ok b := by
  cases x with
  | error e =>
      constructor
      · intro h
        cases h
      · rintro ⟨a, ha, _⟩
        cases ha
  | ok a =>
      constructor
      · intro h
        exact ⟨a, rfl, h⟩
      · rintro ⟨a', ha, h⟩
        cases ha
        exact h

theorem map_eq_ok_iff {x : Except ε α} {f : α → β} {b : β} :
    x.map f = .ok b ↔ ∃ a, x = .ok a ∧ f a = b := by
  cases x <;> simp [Except.map]

theorem mapError_eq_ok_iff {ε' : Type} {x : Except ε α} {f : ε → ε'} {a : α} :
    x.mapError f = .ok a ↔ x = .ok a := by
  cases x <;> simp [Except.mapError]

theorem mapError_eq_error_iff {ε' : Type} {x : Except ε α} {f : ε → ε'} {e' : ε'} :
    x.mapError f = .error e' ↔ ∃ e, x = .error e ∧ f e = e' := by
  cases x <;> simp [Except.mapError]

theorem mapM_eq_ok_iff {f : α → Except ε β} {xs : List α} {ys : List β} :
    xs.mapM f = .ok ys ↔ List.Forall₂ (fun x y => f x = .ok y) xs ys := by
  induction xs generalizing ys with
  | nil =>
      rw [List.forall₂_nil_left_iff, List.mapM_nil]
      constructor
      · intro h
        cases h
        rfl
      · rintro rfl
        rfl
  | cons x xs ih =>
      rw [List.mapM_cons, bind_eq_ok_iff, List.forall₂_cons_left_iff]
      constructor
      · rintro ⟨y, hy, hrest⟩
        rcases bind_eq_ok_iff.1 hrest with ⟨ys', hys', hpure⟩
        cases hpure
        exact ⟨y, ys', hy, ih.1 hys', rfl⟩
      · rintro ⟨y, ys', hy, hys', rfl⟩
        exact ⟨y, hy, bind_eq_ok_iff.2 ⟨ys', ih.2 hys', rfl⟩⟩

theorem mapM_congr {f g : α → Except ε β} {xs : List α} (h : ∀ x ∈ xs, f x = g x) :
    xs.mapM f = xs.mapM g := by
  induction xs with
  | nil =>
      rfl
  | cons x xs ih =>
      rw [List.mapM_cons, List.mapM_cons, h x (by simp), ih fun y hy => h y (by simp [hy])]

/-- A vector is treated as the list of its elements. -/
theorem toList_vector_mapM {n : Nat} (f : α → Except ε β) (v : Vector α n) :
    (fun u : Vector β n => u.toList) <$> v.mapM f = v.toList.mapM f := by
  rw [← Vector.toList_toArray, ← Array.toList_mapM, ← Vector.toArray_mapM]
  simp only [Functor.map_map]
  rfl

theorem vector_mapM_eq_ok_iff {n : Nat} {f : α → Except ε β} {v : Vector α n} {w : Vector β n} :
    v.mapM f = .ok w ↔ ∀ i : Fin n, f (v.get i) = .ok (w.get i) := by
  -- No two vectors have the same list.
  have hlist : v.mapM f = .ok w ↔ v.toList.mapM f = .ok w.toList := by
    rw [← toList_vector_mapM]
    constructor
    · intro h
      rw [h]
      rfl
    · intro h
      rcases map_eq_ok_iff.1 h with ⟨u, hu, huw⟩
      rw [hu, Vector.toList_inj.1 huw]
  rw [hlist, mapM_eq_ok_iff, List.forall₂_iff_get]
  constructor
  · rintro ⟨_, h⟩ i
    exact h i.val (by simp) (by simp)
  · intro h
    refine ⟨by simp, fun i hi _ => ?_⟩
    have hi' : i < n := by simpa using hi
    exact h ⟨i, hi'⟩

theorem vector_mapM_eq_error_iff {n : Nat} {f : α → Except ε β} {v : Vector α n} {e : ε} :
    v.mapM f = .error e ↔ v.toList.mapM f = .error e := by
  rw [← toList_vector_mapM]
  cases v.mapM f with
  | error e' =>
      constructor <;> (intro h; cases h; rfl)
  | ok w =>
      constructor <;> (intro h; cases h)

/-! ## The first fault -/

/-- The fault of the first element that has one. -/
def FirstFault (faulty : α → ε → Prop) (xs : List α) (e : ε) : Prop :=
  ∃ before x after,
    xs = before ++ x :: after ∧ (∀ y ∈ before, ∀ e', ¬ faulty y e') ∧ faulty x e

section FirstFault

variable {faulty : α → ε → Prop} {x : α} {xs : List α} {e : ε}

theorem not_firstFault_nil : ¬ FirstFault faulty [] e := by
  rintro ⟨before, x, after, hxs, _⟩
  simp at hxs

theorem FirstFault.exists_mem (h : FirstFault faulty xs e) : ∃ x ∈ xs, faulty x e := by
  obtain ⟨before, x, after, rfl, _, hx⟩ := h
  exact ⟨x, by simp, hx⟩

theorem firstFault_cons_iff :
    FirstFault faulty (x :: xs) e ↔
      faulty x e ∨ (∀ e', ¬ faulty x e') ∧ FirstFault faulty xs e := by
  constructor
  · rintro ⟨before, y, after, hxs, hbefore, hy⟩
    cases before with
    | nil =>
        cases hxs
        exact Or.inl hy
    | cons _ before =>
        cases hxs
        refine Or.inr ⟨hbefore x (by simp), before, y, after, rfl, ?_, hy⟩
        intro z hz
        exact hbefore z (by simp [hz])
  · rintro (hx | ⟨hx, before, y, after, rfl, hbefore, hy⟩)
    · exact ⟨[], x, xs, rfl, by simp, hx⟩
    · refine ⟨x :: before, y, after, rfl, ?_, hy⟩
      intro z hz
      rcases List.mem_cons.1 hz with rfl | hz
      · exact hx
      · exact hbefore z hz

theorem exists_firstFault_iff : (∃ e, FirstFault faulty xs e) ↔ ∃ x ∈ xs, ∃ e, faulty x e := by
  induction xs with
  | nil =>
      simp [not_firstFault_nil]
  | cons x xs ih =>
      simp only [firstFault_cons_iff, exists_or, exists_and_left, ih]
      -- Past a faultless head the first fault is that of the tail.
      by_cases hx : ∃ e, faulty x e
      · simp [hx]
      · have hnone : ∀ e, ¬ faulty x e := fun e he => hx ⟨e, he⟩
        simp [hnone]

theorem mapM_eq_error_iff {f : α → Except ε β} :
    xs.mapM f = .error e ↔ FirstFault (fun x e => f x = .error e) xs e := by
  induction xs with
  | nil =>
      rw [List.mapM_nil]
      constructor
      · intro h
        cases h
      · intro h
        exact absurd h not_firstFault_nil
  | cons x xs ih =>
      rw [List.mapM_cons, firstFault_cons_iff, ← ih]
      cases hx : f x with
      | error e' =>
          simp [bind, Except.bind]
      | ok y =>
          cases hxs : xs.mapM f <;> simp [bind, Except.bind, pure, Except.pure]

theorem exists_mapM_eq_ok {f : α → Except ε β} (h : ∀ x ∈ xs, ∃ y, f x = .ok y) :
    ∃ ys, xs.mapM f = .ok ys := by
  cases hxs : xs.mapM f with
  | ok ys =>
      exact ⟨ys, rfl⟩
  | error e =>
      rcases exists_firstFault_iff.1 ⟨e, mapM_eq_error_iff.1 hxs⟩ with ⟨x, hx, e', he'⟩
      rcases h x hx with ⟨y, hy⟩
      rw [hy] at he'
      cases he'

theorem exists_mapM_eq_ok_iff {f : α → Except ε β} :
    (∃ ys, xs.mapM f = .ok ys) ↔ ∀ x ∈ xs, ∃ y, f x = .ok y := by
  constructor
  · rintro ⟨ys, hys⟩ x hx
    cases hy : f x with
    | ok y =>
        exact ⟨y, rfl⟩
    | error e =>
        have hfault : ∃ e, FirstFault (fun x e => f x = .error e) xs e :=
          exists_firstFault_iff.2 ⟨x, hx, e, hy⟩
        obtain ⟨e', he'⟩ := hfault
        rw [mapM_eq_error_iff.2 he'] at hys
        cases hys
  · exact exists_mapM_eq_ok

/-- Where an element fails with the first of its faults, a list fails with the first of all. -/
theorem mapM_eq_error_iff_head? {f : α → Except ε β} {faults : α → List ε}
    (h : ∀ x e, f x = .error e ↔ (faults x).head? = some e) :
    xs.mapM f = .error e ↔ (xs.flatMap faults).head? = some e := by
  induction xs with
  | nil =>
      simp [pure, Except.pure]
  | cons x xs ih =>
      rw [List.mapM_cons, List.flatMap_cons]
      cases hx : f x with
      | error e' =>
          have hfirst : (faults x).head? = some e' := (h x e').1 hx
          simp [bind, Except.bind, List.head?_append, hfirst]
      | ok y =>
          have hnone : faults x = [] := by
            rw [← List.head?_eq_none_iff, Option.eq_none_iff_forall_ne_some]
            intro e' he'
            rw [← h, hx] at he'
            cases he'
          rw [hnone, List.nil_append, ← ih]
          cases hxs : xs.mapM f <;> simp [bind, Except.bind, pure, Except.pure]

end FirstFault

/-! ## Lists of lists -/

theorem mapM_flatten (f : α → Except ε β) (xss : List (List α)) :
    (xss.mapM (List.mapM f)).map List.flatten = xss.flatten.mapM f := by
  induction xss with
  | nil =>
      rfl
  | cons xs xss ih =>
      rw [List.flatten_cons, List.mapM_append, ← ih, List.mapM_cons]
      cases xs.mapM f with
      | error e =>
          rfl
      | ok ys =>
          cases xss.mapM (List.mapM f) <;> rfl

end DecisionForest

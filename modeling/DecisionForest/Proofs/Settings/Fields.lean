import Mathlib.Data.List.Basic
import DecisionForest.Settings.Field

/-!
# Settings as the values of their fields

Settings are known by what their fields hold. Giving a field a value that it takes changes this field
and no other, so a list of keyed values says of every field whether it is replaced and by what.

- `Settings.ext_get` compares settings field by field,
- `Field.Takes` tells which values a field takes; `Settings.get_of_set?` is a field after another
  one, or itself, was given a value,
- `Settings.get_of_ofScalars?` reads settings off the keyed values that made them,
- `Settings.ofScalars?_scalars` puts settings together again from all their fields.
-/

namespace DecisionForest

variable {s s' : Settings} {f g : Field} {v : Scalar} {given : List Field}

namespace Field

theorem key_injective (h : f.key = g.key) : f = g := by
  have hsome : some f = some g := by
    rw [← ofKey?_key, h, ofKey?_key]
  injection hsome

theorem ofKey?_eq_some_iff {key : String} : ofKey? key = some f ↔ key = f.key := by
  constructor
  · intro h
    have hkey := List.find?_some h
    simpa [eq_comm] using hkey
  · rintro rfl
    exact ofKey?_key f

theorem ofKey?_eq_none_iff {key : String} : ofKey? key = none ↔ ∀ f : Field, key ≠ f.key := by
  simp only [Option.eq_none_iff_forall_ne_some, ne_eq, ofKey?_eq_some_iff]

/-- The values that a field has room for. -/
inductive Takes : Field → Scalar → Prop where
  | featureOffset {n : Nat} : n < UInt32.size → Takes .featureOffset (.number n)
  | rawScore (b : Bool) : Takes .rawScore (.flag b)
  | strictFeatures (b : Bool) : Takes .strictFeatures (.flag b)
  | rejectCycles (b : Bool) : Takes .rejectCycles (.flag b)
  | checkHeader (b : Bool) : Takes .checkHeader (.flag b)
  | numThreads {n : Nat} : n < UInt64.size → Takes .numThreads (.number n)
  | parallelThreshold {n : Nat} : n < UInt64.size → Takes .parallelThreshold (.number n)

end Field

namespace Settings

/-! ## One field -/

theorem ext_get (h : ∀ f, s.get f = s'.get f) : s = s' := by
  obtain ⟨offset, raw, strict, cycles, header, threads, threshold⟩ := s
  obtain ⟨offset', raw', strict', cycles', header', threads', threshold'⟩ := s'
  have hoffset : offset = offset' := UInt32.toNat_inj.1 (Scalar.number.inj (h .featureOffset))
  have hthreads : threads = threads' := UInt64.toNat_inj.1 (Scalar.number.inj (h .numThreads))
  have hthreshold : threshold = threshold' :=
    UInt64.toNat_inj.1 (Scalar.number.inj (h .parallelThreshold))
  cases hoffset
  cases hthreads
  cases hthreshold
  cases Scalar.flag.inj (h .rawScore)
  cases Scalar.flag.inj (h .strictFeatures)
  cases Scalar.flag.inj (h .rejectCycles)
  cases Scalar.flag.inj (h .checkHeader)
  rfl

theorem takes_get (s : Settings) (f : Field) : f.Takes (s.get f) := by
  cases f with
  | featureOffset =>
      exact .featureOffset s.featureOffset.toNat_lt
  | rawScore =>
      exact .rawScore s.rawScore
  | strictFeatures =>
      exact .strictFeatures s.strictFeatures
  | rejectCycles =>
      exact .rejectCycles s.rejectCycles
  | checkHeader =>
      exact .checkHeader s.checkHeader
  | numThreads =>
      exact .numThreads s.numThreads.toNat_lt
  | parallelThreshold =>
      exact .parallelThreshold s.parallelThreshold.toNat_lt

theorem takes_of_set? (h : s.set? f v = some s') : f.Takes v := by
  cases f <;> cases v <;> simp only [set?, Option.ite_none_right_eq_some, reduceCtorEq] at h
  case featureOffset.number n => exact .featureOffset h.1
  case rawScore.flag b => exact .rawScore b
  case strictFeatures.flag b => exact .strictFeatures b
  case rejectCycles.flag b => exact .rejectCycles b
  case checkHeader.flag b => exact .checkHeader b
  case numThreads.number n => exact .numThreads h.1
  case parallelThreshold.number n => exact .parallelThreshold h.1

/-- A field that is given a value holds it, and the other fields hold what they held. -/
theorem get_of_set? (h : s.set? f v = some s') (g : Field) :
    s'.get g = if g = f then v else s.get g := by
  cases takes_of_set? h with
  | featureOffset hn =>
      cases (if_pos hn).symm.trans h
      cases g <;> simp [get, UInt32.toNat_ofNat_of_lt' hn]
  | numThreads hn =>
      cases (if_pos hn).symm.trans h
      cases g <;> simp [get, UInt64.toNat_ofNat_of_lt' hn]
  | parallelThreshold hn =>
      cases (if_pos hn).symm.trans h
      cases g <;> simp [get, UInt64.toNat_ofNat_of_lt' hn]
  | _ =>
      cases h
      cases g <;> simp [get]

theorem exists_set?_of_takes (s : Settings) (h : f.Takes v) : ∃ s', s.set? f v = some s' := by
  cases h with
  | featureOffset hn =>
      exact ⟨_, if_pos hn⟩
  | numThreads hn =>
      exact ⟨_, if_pos hn⟩
  | parallelThreshold hn =>
      exact ⟨_, if_pos hn⟩
  | _ =>
      exact ⟨_, rfl⟩

/-! ## Keyed values -/

/-- Fields that were given before are not given again, and the others are as given or as they were. -/
theorem lookup_of_addScalars? {values : List (String × Scalar)}
    (h : addScalars? s given values = some s') :
    (∀ f ∈ given, values.lookup f.key = none) ∧
      ∀ f, s'.get f = (values.lookup f.key).getD (s.get f) := by
  induction values generalizing s given with
  | nil =>
      cases h
      simp
  | cons entry rest ih =>
      obtain ⟨key, value⟩ := entry
      rw [addScalars?] at h
      cases hkey : Field.ofKey? key with
      | none =>
          rw [hkey] at h
          have hne : ∀ f : Field, (f.key == key) = false := by
            intro f
            simpa using Ne.symm (Field.ofKey?_eq_none_iff.1 hkey f)
          simpa [List.lookup_cons, hne] using ih h
      | some f =>
          obtain rfl := Field.ofKey?_eq_some_iff.1 hkey
          simp only [hkey, Option.ite_none_left_eq_some] at h
          obtain ⟨hnew, h⟩ := h
          cases hset : s.set? f value with
          | none =>
              rw [hset] at h
              cases h
          | some s₁ =>
              rw [hset] at h
              obtain ⟨hgiven, hget⟩ := ih h
              have hsame : ∀ g : Field, (g.key == f.key) = decide (g = f) := by
                intro g
                by_cases hg : g = f
                · simp [hg]
                · simpa [hg] using mt Field.key_injective hg
              constructor
              · intro g hg
                have hne : g ≠ f := fun heq => hnew (heq ▸ hg)
                simpa [List.lookup_cons, hsame, hne] using hgiven g (List.mem_cons_of_mem f hg)
              · intro g
                rw [hget g, get_of_set? hset g, List.lookup_cons, hsame]
                by_cases hg : g = f
                · simp [hg, hgiven f List.mem_cons_self]
                · simp [hg]

theorem get_of_ofScalars? {values : List (String × Scalar)} (h : ofScalars? values = some s)
    (f : Field) : s.get f = (values.lookup f.key).getD (({} : Settings).get f) :=
  (lookup_of_addScalars? h).2 f

/-- Values that each have a field of their own, and that fit, are all taken. -/
theorem exists_addScalars? (s₀ : Settings) {fields : List Field} (hfields : fields.Nodup)
    (hfresh : ∀ f ∈ fields, f ∉ given) :
    ∃ s', addScalars? s₀ given (fields.map fun f => (f.key, s.get f)) = some s' := by
  induction fields generalizing s₀ given with
  | nil =>
      exact ⟨s₀, rfl⟩
  | cons f rest ih =>
      obtain ⟨hf, hrest⟩ := List.nodup_cons.1 hfields
      obtain ⟨s₁, hset⟩ := exists_set?_of_takes s₀ (takes_get s f)
      have hfresh' : ∀ g ∈ rest, g ∉ f :: given := by
        intro g hg hmem
        rcases List.mem_cons.1 hmem with rfl | hmem
        · exact hf hg
        · exact hfresh g (List.mem_cons_of_mem f hg) hmem
      rw [List.map_cons, addScalars?, Field.ofKey?_key]
      simp only [hfresh f List.mem_cons_self, if_false, hset]
      exact ih s₁ hrest hfresh'

theorem lookup_scalars (s : Settings) (f : Field) : s.scalars.lookup f.key = some (s.get f) := by
  cases f <;> rfl

/-- Settings are put together again from all their fields. -/
theorem ofScalars?_scalars (s : Settings) : ofScalars? s.scalars = some s := by
  have hnodup : Field.all.Nodup := by decide
  obtain ⟨s', hs'⟩ := @exists_addScalars? s [] {} Field.all hnodup (by simp)
  have hsame : s' = s := by
    apply ext_get
    intro f
    rw [get_of_ofScalars? hs' f]
    change (s.scalars.lookup f.key).getD _ = s.get f
    rw [lookup_scalars, Option.getD_some]
  rw [hsame] at hs'
  exact hs'

end Settings
end DecisionForest

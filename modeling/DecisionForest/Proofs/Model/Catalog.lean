import Mathlib.Data.List.Basic
import Mathlib.Data.List.Induction
import DecisionForest.Model.Catalog

/-!
# What a catalog holds

A catalog seen from outside is the list of its ids and a lookup by id. Entering a definition changes
both in one way (`Catalog.ids_define`, `Catalog.lookup_define`), and so a list of definitions that
is entered one after another gives

- the ids in the order of their first appearance (`Catalog.ids_ofList`),
- for each id its latest definition (`Catalog.lookup_ofList`).

Definitions of distinct ids are entered as they are (`Catalog.entries_ofList_of_nodup`), and none of
them is reported as a redefinition (`Catalog.redefinitions_eq_nil`).
-/

namespace DecisionForest

/-! ## The latest definition -/

/-- The last definition in a list with a given id. -/
def latest? (ds : List Definition) (id : NodeId) : Option Definition :=
  ds.reverse.find? fun d => d.id == id

theorem latest?_nil (id : NodeId) : latest? [] id = none :=
  rfl

theorem latest?_append (ds : List Definition) (d : Definition) (id : NodeId) :
    latest? (ds ++ [d]) id = if d.id = id then some d else latest? ds id := by
  by_cases h : d.id = id <;> simp [latest?, h]

namespace Catalog

/-! ## Ids and lookup -/

variable (c : Catalog)

/-- The ids in the order of the positions. -/
def ids : List NodeId :=
  c.entries.toList.map Definition.id

/-- The definition of an id. -/
def lookup (id : NodeId) : Option Definition :=
  (c.find? id).map c.entry

theorem mem_ids_iff {id : NodeId} : id ∈ c.ids ↔ ∃ i, c.find? id = some i := by
  constructor
  · intro h
    rcases List.mem_map.1 h with ⟨d, hd, rfl⟩
    rcases List.mem_iff_getElem.1 hd with ⟨i, hi, rfl⟩
    exact ⟨⟨i, by simpa using hi⟩, c.find?_eq_some_iff.2 (by simp [entry])⟩
  · rintro ⟨i, hi⟩
    refine List.mem_map.2 ⟨c.entry i, ?_, c.find?_eq_some_iff.1 hi⟩
    simp [entry]

theorem find?_eq_none_iff {id : NodeId} : c.find? id = none ↔ id ∉ c.ids := by
  rw [c.mem_ids_iff]
  cases c.find? id <;> simp

theorem lookup_eq_some_iff {id : NodeId} {d : Definition} :
    c.lookup id = some d ↔ d.id = id ∧ d ∈ c.entries := by
  constructor
  · intro h
    rcases Option.map_eq_some_iff.1 h with ⟨i, hi, rfl⟩
    exact ⟨c.find?_eq_some_iff.1 hi, Array.getElem_mem i.isLt⟩
  · rintro ⟨hid, hmem⟩
    rcases Array.mem_iff_getElem.1 hmem with ⟨i, hlt, hd⟩
    have hentry : c.entry ⟨i, hlt⟩ = d := hd
    have hfind : c.find? id = some ⟨i, hlt⟩ := c.find?_eq_some_iff.2 (by rw [hentry, hid])
    simp [lookup, hfind, hentry]

theorem lookup_entry (i : Fin c.size) : c.lookup (c.entry i).id = some (c.entry i) := by
  have hfind : c.find? (c.entry i).id = some i := c.find?_eq_some_iff.2 rfl
  simp [lookup, hfind]

theorem entries_eq : c.entries.toList = c.ids.filterMap c.lookup := by
  -- An entry is the one that a lookup of its id gives.
  have hlookup : ∀ d ∈ c.entries.toList, c.lookup d.id = some d := by
    intro d hd
    exact c.lookup_eq_some_iff.2 ⟨rfl, by simpa using hd⟩
  calc
    c.entries.toList = c.entries.toList.filterMap some := List.filterMap_some.symm
    _ = c.entries.toList.filterMap (c.lookup ∘ Definition.id) :=
        List.filterMap_congr fun d hd => (hlookup d hd).symm
    _ = c.ids.filterMap c.lookup := by
        rw [ids, List.filterMap_map]

theorem entries_congr {c c' : Catalog} (hids : c.ids = c'.ids)
    (hlookup : ∀ id, c.lookup id = c'.lookup id) : c.entries = c'.entries := by
  apply Array.toList_inj.1
  rw [c.entries_eq, c'.entries_eq, hids, funext hlookup]

/-! ## Entering one definition -/

variable (d : Definition)

theorem ids_define : (c.define d).ids = if d.id ∈ c.ids then c.ids else c.ids ++ [d.id] := by
  unfold define
  split
  · rename_i i hi
    have hmem : d.id ∈ c.ids := c.mem_ids_iff.2 ⟨i, hi⟩
    have hid : (c.entry i).id = d.id := c.find?_eq_some_iff.1 hi
    rw [if_pos hmem]
    apply List.ext_getElem?
    intro j
    by_cases hj : i.val = j
    · subst hj
      simp [ids, replace, ← hid, entry]
    · simp [ids, replace, hj]
  · rename_i hnone
    have hmem : d.id ∉ c.ids := c.find?_eq_none_iff.1 hnone
    rw [if_neg hmem]
    simp [ids, append]

theorem mem_entries_replace {i : Fin c.size} {same : (c.entry i).id = d.id} {e : Definition} :
    e ∈ (c.replace i d same).entries ↔ e = d ∨ (e ∈ c.entries ∧ e.id ≠ d.id) := by
  simp only [replace, Array.mem_iff_getElem?, Array.getElem?_set i.isLt]
  constructor
  · rintro ⟨j, hj⟩
    by_cases hij : i.val = j
    · left
      simpa [hij, eq_comm] using hj
    · right
      rw [if_neg hij] at hj
      rcases Array.getElem?_eq_some_iff.1 hj with ⟨hlt, hentry⟩
      refine ⟨⟨j, hj⟩, ?_⟩
      intro hsame
      -- Two positions with the id of `d` would be one.
      have hi : c.find? d.id = some i := c.find?_eq_some_iff.2 same
      have hfind : c.find? d.id = some ⟨j, hlt⟩ :=
        c.find?_eq_some_iff.2 (by rw [← hsame, ← hentry]; rfl)
      rw [hi] at hfind
      exact hij (congrArg Fin.val (Option.some.inj hfind))
  · rintro (rfl | ⟨⟨j, hj⟩, hne⟩)
    · exact ⟨i.val, by simp⟩
    · refine ⟨j, ?_⟩
      have hij : i.val ≠ j := by
        rintro rfl
        have hentry : c.entry i = e := by
          simpa [entry] using hj
        exact hne (by rw [← hentry, same])
      rw [if_neg hij]
      exact hj

theorem mem_entries_append {fresh : c.find? d.id = none} {e : Definition} :
    e ∈ (c.append d fresh).entries ↔ e = d ∨ (e ∈ c.entries ∧ e.id ≠ d.id) := by
  have hmem : d.id ∉ c.ids := c.find?_eq_none_iff.1 fresh
  simp only [append, Array.mem_push]
  constructor
  · rintro (he | rfl)
    · right
      refine ⟨he, ?_⟩
      intro hsame
      exact hmem (hsame ▸ List.mem_map.2 ⟨e, by simpa using he, rfl⟩)
    · exact Or.inl rfl
  · rintro (rfl | ⟨he, _⟩)
    · exact Or.inr rfl
    · exact Or.inl he

/-- The definition entered stands in for every other one with its id. -/
theorem mem_entries_define {e : Definition} :
    e ∈ (c.define d).entries ↔ e = d ∨ (e ∈ c.entries ∧ e.id ≠ d.id) := by
  unfold define
  split
  · exact c.mem_entries_replace d
  · exact c.mem_entries_append d

theorem lookup_define (id : NodeId) :
    (c.define d).lookup id = if d.id = id then some d else c.lookup id := by
  ext e
  rw [lookup_eq_some_iff, mem_entries_define]
  split
  · rename_i hid
    constructor
    · rintro ⟨he, rfl | ⟨_, hne⟩⟩
      · rfl
      · exact absurd (he.trans hid.symm) hne
    · intro h
      cases h
      exact ⟨hid, Or.inl rfl⟩
  · rename_i hid
    rw [lookup_eq_some_iff]
    constructor
    · rintro ⟨he, rfl | ⟨hmem, _⟩⟩
      · exact absurd he hid
      · exact ⟨he, hmem⟩
    · rintro ⟨he, hmem⟩
      exact ⟨he, Or.inr ⟨hmem, fun hsame => hid (hsame.symm.trans he)⟩⟩

/-! ## Entering a list of definitions -/

theorem ofList_append (ds : List Definition) (d : Definition) :
    ofList (ds ++ [d]) = (ofList ds).define d := by
  simp [ofList]

theorem eraseDups_append_singleton (ids : List NodeId) (id : NodeId) :
    (ids ++ [id]).eraseDups =
      if id ∈ ids.eraseDups then ids.eraseDups else ids.eraseDups ++ [id] := by
  rw [List.eraseDups_append]
  by_cases h : id ∈ ids <;> simp [List.removeAll, h, List.eraseDups_cons]

theorem ids_ofList (ds : List Definition) :
    (ofList ds).ids = (ds.map Definition.id).eraseDups := by
  -- The last definition is entered last, so the induction takes it off the end.
  induction ds using List.reverseRecOn with
  | nil =>
      rfl
  | append_singleton ds d ih =>
      rw [ofList_append, ids_define, ih, List.map_append, List.map_singleton,
        eraseDups_append_singleton]

theorem lookup_ofList (ds : List Definition) (id : NodeId) :
    (ofList ds).lookup id = latest? ds id := by
  induction ds using List.reverseRecOn with
  | nil =>
      have hnone : (ofList []).find? id = none := by
        rw [find?_eq_none_iff, ids_ofList]
        simp
      simp [lookup, hnone, latest?_nil]
  | append_singleton ds d ih =>
      rw [ofList_append, lookup_define, latest?_append, ih]

/-! ## Definitions of distinct ids -/

theorem find?_of_nodup {c : Catalog} {d : Definition} {rest : List Definition}
    (h : (c.ids ++ (d :: rest).map Definition.id).Nodup) : c.find? d.id = none := by
  rw [find?_eq_none_iff]
  intro hmem
  exact (List.nodup_append.1 h).2.2 d.id hmem d.id List.mem_cons_self rfl

theorem nodup_define {c : Catalog} {d : Definition} {rest : List Definition}
    (h : (c.ids ++ (d :: rest).map Definition.id).Nodup) :
    ((c.define d).ids ++ rest.map Definition.id).Nodup := by
  have hids : (c.define d).ids = c.ids ++ [d.id] := by
    rw [ids_define, if_neg (c.find?_eq_none_iff.1 (find?_of_nodup h))]
  rw [hids]
  simpa using h

theorem entries_define_of_find? {c : Catalog} {d : Definition} (h : c.find? d.id = none) :
    (c.define d).entries.toList = c.entries.toList ++ [d] := by
  unfold define
  split
  · rename_i hsome
    rw [h] at hsome
    cases hsome
  · simp [append]

/-- A list of definitions that are all new is entered as it is. -/
theorem entries_foldl_define (c : Catalog) {ds : List Definition}
    (h : (c.ids ++ ds.map Definition.id).Nodup) :
    (ds.foldl define c).entries.toList = c.entries.toList ++ ds := by
  induction ds generalizing c with
  | nil =>
      simp
  | cons d rest ih =>
      have hnew : c.find? d.id = none := find?_of_nodup h
      calc
        ((d :: rest).foldl define c).entries.toList = (c.define d).entries.toList ++ rest :=
            ih (c.define d) (nodup_define h)
        _ = c.entries.toList ++ d :: rest := by
            rw [entries_define_of_find? hnew, List.append_assoc, List.singleton_append]

theorem entries_ofList_of_nodup {ds : List Definition} (h : (ds.map Definition.id).Nodup) :
    (ofList ds).entries.toList = ds :=
  entries_foldl_define empty h

theorem redefinitions_eq_nil (c : Catalog) {ds : List Definition}
    (h : (c.ids ++ ds.map Definition.id).Nodup) : c.redefinitions ds = [] := by
  induction ds generalizing c with
  | nil =>
      rfl
  | cons d rest ih =>
      have hnew : c.find? d.id = none := find?_of_nodup h
      unfold redefinitions
      split
      · rename_i hsome
        rw [hnew] at hsome
        cases hsome
      · exact ih (c.define d) (nodup_define h)

end Catalog
end DecisionForest

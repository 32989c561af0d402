import Std.Data.TreeMap
import DecisionForest.Log

/-!
# Catalogs of definitions

The node lines of a model as a collection with one definition for each id. Ids stand in the order in
which they first appear; a later definition of an id takes the place of the former one.

- `Definition` is a node with the number of its line,
- `Catalog` has one definition for each id in it; `Catalog.find?` is the position of an id, the one
  whose definition has it (`Catalog.find?_eq_some_iff`),
- `Catalog.define` enters a definition, `Catalog.ofList` enters several,
- `Catalog.redefinitions` lists the events of entering definitions.
-/

namespace DecisionForest

structure Definition where
  line : Nat
  node : Node NodeId

def Definition.id (d : Definition) : NodeId :=
  d.node.id

/-- Definitions by position, and the position of each id; no two definitions have one id. -/
structure Catalog where
  entries : Array Definition
  slots : Std.TreeMap NodeId Nat
  slots_iff : ∀ {id : NodeId} {i : Nat},
    slots[id]? = some i ↔ entries[i]?.map Definition.id = some id

namespace Catalog

def empty : Catalog :=
  { entries := #[]
    slots := ∅
    slots_iff := by simp }

abbrev size (c : Catalog) : Nat :=
  c.entries.size

/-! ## Looking up -/

def entry (c : Catalog) (i : Fin c.size) : Definition :=
  c.entries[i]

theorem slot_lt (c : Catalog) {id : NodeId} {i : Nat} (h : c.slots[id]? = some i) : i < c.size := by
  by_cases hi : i < c.size
  · exact hi
  · simpa [Array.getElem?_eq_none (Nat.le_of_not_lt hi)] using c.slots_iff.1 h

def find? (c : Catalog) (id : NodeId) : Option (Fin c.size) :=
  match h : c.slots[id]? with
  | some i => some ⟨i, c.slot_lt h⟩
  | none => none

theorem find?_eq_some_iff_slots (c : Catalog) {id : NodeId} {i : Fin c.size} :
    c.find? id = some i ↔ c.slots[id]? = some i.val := by
  unfold find?
  split <;> rename_i h <;> simp [h, Fin.ext_iff]

/-- The position of an id is the one whose definition has it. -/
theorem find?_eq_some_iff (c : Catalog) {id : NodeId} {i : Fin c.size} :
    c.find? id = some i ↔ (c.entry i).id = id := by
  simp [find?_eq_some_iff_slots, c.slots_iff, entry]

theorem slots_eq_none (c : Catalog) {id : NodeId} (h : c.find? id = none) :
    c.slots[id]? = none := by
  unfold find? at h
  split at h <;> simp_all

/-! ## Entering -/

/-- Put a definition at the position of one with the same id. -/
def replace (c : Catalog) (i : Fin c.size) (d : Definition) (same : (c.entry i).id = d.id) :
    Catalog :=
  { entries := c.entries.set i d i.isLt
    slots := c.slots
    slots_iff := fun {id j} => by
      rw [c.slots_iff, Array.getElem?_set i.isLt]
      split
      · rename_i hij
        subst hij
        have hid : c.entries[i.val].id = d.id := same
        rw [Array.getElem?_eq_getElem i.isLt, Option.map_some, Option.map_some, hid]
      · rfl }

/-- Put a definition of a new id at the end. -/
def append (c : Catalog) (d : Definition) (fresh : c.find? d.id = none) : Catalog :=
  let position := c.entries.size
  { entries := c.entries.push d
    slots := c.slots.insert d.id position
    slots_iff := fun {id j} => by
      have hnone := c.slots_eq_none fresh
      rw [Std.TreeMap.getElem?_insert, Array.getElem?_push]
      by_cases hj : j = c.entries.size <;> by_cases hid : d.id = id
      · simp [hj, hid, position]
      · have hlt : c.slots[id]? ≠ some c.entries.size := fun h =>
          Nat.lt_irrefl _ (c.slot_lt h)
        simp [hj, hid, hlt]
      · subst hid
        simp [hj, position, ← c.slots_iff, hnone, Ne.symm hj]
      · simp [hj, hid, ← c.slots_iff] }

def define (c : Catalog) (d : Definition) : Catalog :=
  match h : c.find? d.id with
  | some i => c.replace i d (c.find?_eq_some_iff.1 h)
  | none => c.append d h

def ofList (ds : List Definition) : Catalog :=
  ds.foldl define empty

/-- One event for each definition whose id has one already. -/
def redefinitions (c : Catalog) : List Definition → List Event
  | [] => []
  | d :: rest =>
    match c.find? d.id with
    | some i => .redefinition d.id d.line (c.entry i).line :: redefinitions (c.define d) rest
    | none => redefinitions (c.define d) rest

end Catalog
end DecisionForest

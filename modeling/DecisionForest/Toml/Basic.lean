/-!
# TOML values and tables

- `Toml` is a value; a table remembers what made it, since that decides what may be added to it,
- `Toml.assign?` gives a dotted key its value in a table,
- `Toml.Expression` is a line that says something,
- `Toml.ofExpressions?` puts the lines of a document together, or refuses them when a name would be
  defined twice.

A table made by its own header takes no more keys from dotted keys elsewhere; one that only a longer
header implies may still get a header of its own; one made by dotted keys takes further dotted keys
and headers below it; an inline table is complete as it stands.
-/

namespace DecisionForest

namespace Toml

/-- What made a table. -/
inductive TableKind where
  | inline
  | header
  | implied
  | dotted
  deriving DecidableEq, Repr

/-- The longest dotted key and the deepest nesting stay below this. -/
def nestingLimit : Nat := 80

end Toml

inductive Toml where
  | text (content : List Char)
  | integer (n : Int)
  | float (literal : List Char)
  | boolean (b : Bool)
  | moment (literal : List Char)
  | array (items : List Toml)
  | table (kind : Toml.TableKind) (entries : List (List Char × Toml))
  /-- The elements of an array of tables, the last one first. -/
  | tables (elements : List (List (List Char × Toml)))
  deriving Repr

namespace Toml

abbrev Key := List Char

abbrev Entries := List (Key × Toml)

/-! ## Entries -/

def find? (key : Key) : Entries → Option Toml
  | [] => none
  | (k, v) :: rest => if k = key then some v else find? key rest

/-- Give a key a value, in its place if it has one and else at the end. -/
def put (key : Key) (v : Toml) : Entries → Entries
  | [] => [(key, v)]
  | (k, w) :: rest => if k = key then (k, v) :: rest else (k, w) :: put key v rest

/-- Change the table that a path leads to, making the tables on the way that are missing. -/
def update? (dotted : Bool) (f : TableKind → Entries → Option Entries) (kind : TableKind)
    (entries : Entries) : List Key → Option Entries
  | [] => f kind entries
  | key :: path =>
    match find? key entries with
    | none =>
      let made := if dotted then TableKind.dotted else TableKind.implied
      (update? dotted f made [] path).map fun es => put key (.table made es) entries
    | some (.table .inline _) => none
    | some (.table kind es) =>
      if dotted ∧ kind = .header then none
      else (update? dotted f kind es path).map fun es => put key (.table kind es) entries
    | some (.tables (es :: older)) =>
      (update? dotted f .header es path).map fun es => put key (.tables (es :: older)) entries
    | some _ => none

/-- Give the key at the end of a dotted path a value. -/
def assign? (path : List Key) (key : Key) (v : Toml) (entries : Entries) : Option Entries :=
  update? true
    (fun kind es =>
      if (path ≠ [] ∧ kind ≠ .dotted) ∨ (find? key es).isSome then none else some (put key v es))
    .header entries path

/-- The entries of the table that a header's path leads to; a missing table has none. -/
def descend? (entries : Entries) : List Key → Option Entries
  | [] => some entries
  | key :: path =>
    match find? key entries with
    | none => some []
    | some (.table .inline _) => none
    | some (.table _ es) => descend? es path
    | some (.tables (es :: _)) => descend? es path
    | some _ => none

/-! ## Documents -/

inductive Expression where
  | assignment (path : List Key) (key : Key) (value : Toml)
  | header (path : List Key) (key : Key)
  | element (path : List Key) (key : Key)
  deriving Repr

/-- Where the entries of a section go. -/
inductive Place where
  | top
  | table (path : List Key) (key : Key)
  | element (path : List Key) (key : Key)
  deriving DecidableEq, Repr

/-- The document above the current section, and that section. -/
structure Assembly where
  above : Entries
  place : Place
  current : Entries

namespace Assembly

def start : Assembly :=
  { above := [], place := .top, current := [] }

/-- The document with the current section put in its place. -/
def finish? (a : Assembly) : Option Entries :=
  match a.place with
  | .top => some a.current
  | .table path key =>
    update? false (fun _ es => some (put key (.table .header a.current) es)) .header a.above path
  | .element path key =>
    update? false
      (fun _ es =>
        match find? key es with
        | none => some (put key (.tables [a.current]) es)
        | some (.tables older) => some (put key (.tables (a.current :: older)) es)
        | some _ => none)
      .header a.above path

/-- The entries that a table has before its own header. -/
def reopen? (above : Entries) (path : List Key) (key : Key) : Option Entries :=
  match descend? above path with
  | none => none
  | some es =>
    match find? key es with
    | none => some []
    | some (.table .implied es) => some es
    | some _ => none

def add? (a : Assembly) : Expression → Option Assembly
  | .assignment path key v =>
    (assign? path key v a.current).map fun es => { a with current := es }
  | .header path key => do
    let above ← a.finish?
    let es ← reopen? above path key
    return { above, place := .table path key, current := es }
  | .element path key => do
    let above ← a.finish?
    return { above, place := .element path key, current := [] }

end Assembly

def ofExpressions? (es : List Expression) : Option Entries :=
  (es.foldlM Assembly.add? Assembly.start).bind Assembly.finish?

end Toml
end DecisionForest

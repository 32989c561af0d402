import DecisionForest.Settings.Json
import DecisionForest.Settings.Profile

/-!
# Values in JSON

How the library's small values stand in JSON documents. A case without content is its name, or an
object that gives the name a null; a case with content is an object that gives the name the content.

- `Notation.parse` reads a document as a value of one kind,
- `Notation.index?`, `Notation.side?` and `Notation.origin?` read the kinds,
- `Notation.ofIndex`, `Notation.ofSide` and `Notation.ofOrigin` write them.
-/

namespace DecisionForest
namespace Notation

/-- The value of a document, or what is wrong with it. -/
def parse {α : Type} (read? : Json → Option α) (document : List Char) : Except String α :=
  match Json.parse? document with
  | none => .error "not a JSON document"
  | some v => required "not a value of this kind" (read? v)

/-- The name of a case, and its content if it is written with one. -/
def case? : Json → Option (String × Option Json)
  | .text (some name) => some (String.ofList name, none)
  | .object [(some name, content)] => some (String.ofList name, some content)
  | _ => none

/-- Content that a case without content may be written with. -/
def isNothing : Option Json → Bool
  | none => true
  | some .null => true
  | some _ => false

/-! ## Reading -/

/-- A position in a forest. -/
def index? : Json → Option UInt64
  | .natural n => if n < UInt64.size then some (UInt64.ofNat n) else none
  | _ => none

def side? (v : Json) : Option Side :=
  match case? v with
  | some (name, content) =>
    if isNothing content then
      if name = "Yes" then some .yes else if name = "No" then some .no else none
    else none
  | none => none

def origin? (v : Json) : Option Origin :=
  match case? v with
  | some ("Default", content) => if isNothing content then some .default else none
  | some ("File", some (.text (some name))) => some (.file (String.ofList name))
  | _ => none

/-! ## Writing -/

def ofIndex (i : UInt64) : Json :=
  .natural i.toNat

def ofSide : Side → Json
  | .yes => .text (some "Yes".toList)
  | .no => .text (some "No".toList)

def ofOrigin : Origin → Json
  | .default => .text (some "Default".toList)
  | .file name => .object [(some "File".toList, .text (some name.toList))]

end Notation
end DecisionForest

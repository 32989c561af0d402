import DecisionForest.Error
import DecisionForest.Text.Utf8

/-!
# File names

A name is a way through a tree of directories, with slashes between its pieces. An empty piece and
one of a single dot say to stay, one of two dots says to go up.

- `FileName.parts` is the way in order; a slash at the start is a part of its own, for the root,
- `FileName.parent` is the name of the directory that a name stands in,
- `FileName.extension?` is what follows the last dot,
- `FileName.check` refuses names that no file can have.
-/

namespace DecisionForest
namespace FileName

abbrev Part := List Char

def currentPart : Part := ['.']
def parentPart : Part := ['.', '.']
def rootPart : Part := ['/']

/-! ## Taking names apart -/

def pieces (name : String) : List Part :=
  name.toList.splitOn '/'

/-- A piece that says to stay. -/
def isIdle (piece : Part) : Bool :=
  piece = [] || piece = currentPart

def parts (name : String) : List Part :=
  let named := (pieces name).filter (· ≠ [])
  if name.toList.head? = some '/' then rootPart :: named else named

def endsInSlash (name : String) : Bool :=
  name.toList.getLast? = some '/'

/-- The pieces up to the last one that does not say to stay. -/
def withoutIdleEnd (ps : List Part) : List Part :=
  (ps.reverse.dropWhile isIdle).reverse

/-- The name of the directory that a name stands in; the empty name where that directory is the top
or the root. -/
def parent (name : String) : String :=
  let above := withoutIdleEnd (withoutIdleEnd (pieces name)).dropLast
  String.ofList (List.intercalate ['/'] above)

/-- What follows the last dot of the last part, unless nothing else comes before that dot. -/
def extension? (name : String) : Option (List Char) :=
  match (withoutIdleEnd (pieces name)).getLast? with
  | none => none
  | some part =>
    if part = parentPart then none
    else
      let ext := (part.reverse.takeWhile (· ≠ '.')).reverse
      let stem := part.take (part.length - ext.length - 1)
      if ext.length = part.length ∨ stem = [] then none else some ext

/-! ## Limits -/

/-- The most bytes of a name. -/
def maxBytes : Nat := 4095

/-- The most bytes of one part. -/
def maxPartBytes : Nat := 255

def isLongPart (part : Part) : Bool :=
  maxPartBytes < (Utf8.encode (String.ofList part)).length

def check (name : String) : Except StorageError Unit :=
  if name = "" then .error .notFound
  else if '\x00' ∈ name.toList then .error .nulInName
  else if maxBytes < (Utf8.encode name).length then .error .nameTooLong
  else .ok ()

end FileName
end DecisionForest

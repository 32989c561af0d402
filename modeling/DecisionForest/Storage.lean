import DecisionForest.FileName

/-!
# Files by name

A tree of files and directories as a value. Names start at its top; two dots there lead out of the
tree, where nothing but the directories on the way is known.

- `Reader` gives the content of a file by its name, `Reader.text` its text,
- `Storage.resolve` follows the parts of a name,
- `Storage.read` is the reader of a tree,
- `Storage.write` makes or replaces a file in a directory that exists,
- `Storage.makeDirectories` makes a directory and those above it that are missing.
-/

namespace DecisionForest

/-- The content of the file of a name, or why it cannot be read. -/
abbrev Reader := String → Except StorageError (List UInt8)

namespace Reader

def text (read : Reader) (name : String) : Except StorageError String := do
  let content ← read name
  match Utf8.decode? content with
  | .ok cs => pure (String.ofList cs)
  | .error _ => throw .notText

/-- A file may stand there without being readable, for a reason that the system states. -/
def isFile (read : Reader) (name : String) : Bool :=
  match read name with
  | .ok _ => true
  | .error (.stated _) => true
  | .error _ => false

end Reader

inductive StorageEntry where
  | file (content : List UInt8)
  | directory
  deriving DecidableEq, Repr

/-- Where something stands: the parts that lead to it from the top, or from the root. -/
abbrev Place := List FileName.Part

namespace Place

/-- The top, a directory above it, or the root. -/
def isOutermost (place : Place) : Bool :=
  place.all (· = FileName.parentPart) || place = [FileName.rootPart]

/-- The place one level up; the root is above itself. -/
def above (place : Place) : Place :=
  if place = [FileName.rootPart] then place
  else if place.isOutermost then place ++ [FileName.parentPart]
  else place.dropLast

end Place

/-- What stands at each place; newer entries come first. -/
structure Storage where
  entries : List (Place × StorageEntry)

namespace Storage

def empty : Storage :=
  { entries := [] }

def put (s : Storage) (place : Place) (e : StorageEntry) : Storage :=
  { entries := (place, e) :: s.entries }

def entry? (s : Storage) (place : Place) : Option StorageEntry :=
  if place.isOutermost then some .directory
  else (s.entries.find? fun e => e.1 = place).map Prod.snd

/-! ## Following names -/

/-- The place that one part leads to from a place, which has to be a directory. -/
def enter (s : Storage) (here : Place) (part : FileName.Part) : Except StorageError Place :=
  match s.entry? here with
  | none => .error .notFound
  | some (.file _) => .error .notDirectory
  | some .directory =>
    if part = FileName.rootPart then .ok [part]
    else if part = FileName.currentPart then .ok here
    else if part = FileName.parentPart then .ok here.above
    else if FileName.isLongPart part then .error .nameTooLong
    else .ok (here ++ [part])

def resolve (s : Storage) (parts : List FileName.Part) : Except StorageError Place :=
  parts.foldlM s.enter []

def isDirectory (s : Storage) (parts : List FileName.Part) : Bool :=
  match s.resolve parts with
  | .ok place => s.entry? place = some .directory
  | .error _ => false

/-! ## Reading -/

/-- The parts of a name to read; a slash at the end asks for a directory. -/
def partsToRead (name : String) : List FileName.Part :=
  FileName.parts name ++ if FileName.endsInSlash name then [FileName.currentPart] else []

def read (s : Storage) : Reader := fun name => do
  FileName.check name
  let place ← s.resolve (partsToRead name)
  match s.entry? place with
  | none => throw .notFound
  | some .directory => throw .isDirectory
  | some (.file content) => pure content

/-! ## Writing -/

/-- The parts of a name to write; a slash at the end names a directory, made or not. -/
def partsToWrite (name : String) : List FileName.Part :=
  let parts := FileName.parts name
  if FileName.endsInSlash name then parts.dropLast ++ [FileName.currentPart] else parts

def write (s : Storage) (name : String) (content : List UInt8) : Except StorageError Storage := do
  FileName.check name
  let place ← s.resolve (partsToWrite name)
  match s.entry? place with
  | some .directory => throw .isDirectory
  | _ => pure (s.put place (.file content))

/-! ## Making directories -/

/-- Make one directory in a directory that exists. -/
def makeDirectory (s : Storage) (parts : List FileName.Part) : Except StorageError Storage := do
  let place ← s.resolve parts
  match s.entry? place with
  | some _ => throw .alreadyExists
  | none => pure (s.put place .directory)

/-- Make one directory unless it exists. -/
def ensureDirectory (s : Storage) (parts : List FileName.Part) :
    Storage × Except StorageError Unit :=
  match s.makeDirectory parts with
  | .ok s => (s, .ok ())
  | .error e => (s, if s.isDirectory parts then .ok () else .error e)

/-- Make the directory of the given parts, the last one first, and those above it where one is
missing. -/
def makeMissing (s : Storage) : List FileName.Part → Storage × Except StorageError Unit
  | [] => (s, .ok ())
  | part :: above =>
    let parts := (part :: above).reverse
    match s.makeDirectory parts with
    | .error .notFound =>
      match s.makeMissing above with
      | (s, .ok _) => s.ensureDirectory parts
      | (s, .error e) => (s, .error e)
    | _ => s.ensureDirectory parts

/-- Make the directory of a name and those above it. What is made stays, also when a later one
cannot be made. -/
def makeDirectories (s : Storage) (name : String) : Storage × Except StorageError Unit :=
  if name = "" then (s, .ok ())
  else
    match FileName.check name with
    | .ok _ => s.makeMissing (FileName.parts name).reverse
    | .error e => (s, .error e)

/-- Write a file after the directories in its name. -/
def writeWithDirectories (s : Storage) (name : String) (content : List UInt8) :
    Storage × Except StorageError Unit :=
  match s.makeDirectories (FileName.parent name) with
  | (s, .error e) => (s, .error e)
  | (s, .ok _) =>
    match s.write name content with
    | .ok s => (s, .ok ())
    | .error e => (s, .error e)

end Storage
end DecisionForest

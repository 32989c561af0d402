import DecisionForest.Forest.Cycle
import DecisionForest.Forest.Text
import DecisionForest.Model.Scan
import DecisionForest.Storage

/-!
# Loading and saving

A model stream becomes a forest in two passes: all node lines are read into a catalog, and then
every branch is resolved, so a branch may name a node that is defined further down. The root is the
node that is defined first.

- `Forest.ofCatalog` resolves the branches of a catalog,
- `Forest.load` loads a stream, `Forest.loadText` a text, `Forest.loadFile` a file,
- `Forest.save` writes a file.
-/

namespace DecisionForest

/-- What to look at beyond the node lines. -/
structure LoadOptions where
  rejectCycles : Bool := false
  checkHeader : Bool := false
  deriving DecidableEq, Repr

namespace Forest

/-! ## Resolving -/

/-- The branches of a definition with their targets as positions. -/
def resolve (c : Catalog) (d : Definition) : Except ModelError (List (Branch (Fin c.size))) :=
  d.node.branches.mapM (Branch.mapM fun side id =>
    required (.dangling d.id id side d.line) (c.find? id))

/-- The nodes of a catalog with the given branches. -/
def nodesOf (c : Catalog) (branches : Vector (List (Branch (Fin c.size))) c.size) :
    Vector (Node (Fin c.size)) c.size :=
  Vector.ofFn fun i => { (c.entry i).node with branches := branches.get i }

theorem find?_eq_some_iff_nodesOf (c : Catalog)
    (branches : Vector (List (Branch (Fin c.size))) c.size) {id : NodeId} {i : Fin c.size} :
    c.find? id = some i ↔ (nodesOf c branches)[i].id = id := by
  rw [c.find?_eq_some_iff, nodesOf, Fin.getElem_fin, Vector.getElem_ofFn]
  rfl

def ofCatalog (c : Catalog) : Except ModelError Forest :=
  if h : 0 < c.size then do
    let branches ← c.entries.toVector.mapM (resolve c)
    pure {
      size := c.size
      nodes := nodesOf c branches
      indexOf? := c.find?
      root := ⟨0, h⟩
      indexOf?_eq_some_iff := find?_eq_some_iff_nodesOf c branches }
  else .error .empty

/-! ## Loading -/

def headerEvents (o : LoadOptions) (raw : List UInt8) : List Event :=
  let text := String.ofList (Text.dropReturns (Utf8.decodeLossy raw))
  if o.checkHeader ∧ text ≠ modelHeader then [.header text, .unexpectedHeader text]
  else [.header text]

/-- What is reported of a forest that is accepted. -/
def summaryEvents (F : Forest) : List Event :=
  let reached := F.reachable.length
  let root := F.idAt F.root
  let unreached :=
    if reached < F.size then [Event.unreachable (F.size - reached) F.size root] else []
  unreached ++ [.loaded F.size F.branchCount root]

/-- The cycle that a loader with these options refuses a forest for. -/
def rejectedCycle? (o : LoadOptions) (F : Forest) : Option NodeId :=
  if o.rejectCycles then F.findCycle? else none

/-- The forest of node lines whose reading has ended. -/
def ofScan (o : LoadOptions) (s : Model.Scan) : Except ModelError Forest :=
  match s.error? with
  | some e => .error e
  | none => do
    let F ← ofCatalog (Catalog.ofList s.definitions)
    match F.rejectedCycle? o with
    | some id => .error (.cyclic id)
    | none => pure F

def load (o : LoadOptions) (stream : List UInt8) : Logged Error Forest :=
  match Text.lines stream with
  | [] => Logged.fail (.model .empty)
  | header :: body => do
    let s := Model.scan 2 body
    Logged.report (headerEvents o header ++ Catalog.redefinitions .empty s.definitions)
    let F ← Logged.ofExcept ((ofScan o s).mapError Error.model)
    Logged.report F.summaryEvents
    pure F

def loadText (o : LoadOptions) (text : String) : Logged Error Forest :=
  load o (Utf8.encode text)

def loadFile (o : LoadOptions) (read : Reader) (name : String) : Logged Error Forest := do
  Logged.report [.openingModel name]
  let stream ← Logged.ofExcept ((read name).mapError Error.storage)
  load o stream

/-! ## Saving -/

/-- Write a forest's text to a file, making the directories in its name; these stay also when the
file cannot be written. -/
def save (F : Forest) (files : Storage) (name : String) : Storage × Logged Error Unit :=
  let (files, written) := files.writeWithDirectories name (Utf8.encode F.text)
  (files, do
    Logged.ofExcept (written.mapError Error.storage)
    Logged.report [.saved F.size name])

end Forest
end DecisionForest

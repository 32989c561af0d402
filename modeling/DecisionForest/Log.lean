import DecisionForest.Error

/-!
# Logged operations

What an operation reports on its way, whether it succeeds or not.

- `Event` is one report, with `Event.level` and `Event.message`,
- `Logged ε α` is the reports in order and the result; as a monad it stops at the first error and
  keeps the reports made before it (`Logged.result_bind`, `Logged.events_bind`).
-/

namespace DecisionForest

/-! ## Events -/

inductive Level where
  | error
  | warn
  | info
  | debug
  | trace
  deriving DecidableEq, Repr

/-- The rank of a level; a log that shows a level shows those of lower rank too. -/
def Level.rank : Level → Nat
  | .error => 0
  | .warn => 1
  | .info => 2
  | .debug => 3
  | .trace => 4

def Level.text : Level → String
  | .error => "error"
  | .warn => "warn"
  | .info => "info"
  | .debug => "debug"
  | .trace => "trace"

inductive Event where
  | openingModel (path : String)
  | header (text : String)
  | unexpectedHeader (text : String)
  /-- A later line defines a node again; `former` is the line of the definition it replaces. -/
  | redefinition (node : NodeId) (line former : Nat)
  | unreachable (count total : Nat) (root : NodeId)
  | loaded (nodes branches : Nat) (root : NodeId)
  | saved (nodes : Nat) (path : String)
  | rowsRead (count : Nat)
  | parallelBatch (rows : Nat)
  | settingsRead (path : String)
  | settingsUsed (summary : String)
  | manyThreads (threads cores : Nat)
  deriving DecidableEq, Repr

namespace Event

def level : Event → Level
  | .unexpectedHeader _ | .redefinition _ _ _ | .manyThreads _ _ => .warn
  | .loaded _ _ _ => .info
  | _ => .debug

def message : Event → String
  | .openingModel path => "Loading model from " ++ path
  | .header text => "Model header: '" ++ text ++ "'"
  | .unexpectedHeader text =>
    "Unexpected model header '" ++ text ++ "', expected '" ++ modelHeader ++ "'"
  | .redefinition node line former =>
    "Node " ++ toString node.toNat ++ " redefined at line " ++ toString line ++
      " (first defined at line " ++ toString former ++ "), keeping the later definition"
  | .unreachable count total root =>
    toString count ++ " of " ++ toString total ++ " nodes are not reachable from root node " ++
      toString root.toNat
  | .loaded nodes branches root =>
    "Loaded forest: " ++ toString nodes ++ " nodes, " ++ toString branches ++
      " branches, root node " ++ toString root.toNat
  | .saved nodes path => "Saved forest with " ++ toString nodes ++ " nodes to " ++ path
  | .rowsRead count => "Read " ++ toString count ++ " svm rows"
  | .parallelBatch rows => "Scoring batch of " ++ toString rows ++ " rows in parallel"
  | .settingsRead path => "Loaded configuration from " ++ path
  | .settingsUsed summary => summary
  | .manyThreads threads cores =>
    "num_threads (" ++ toString threads ++ ") is much larger than available cores (" ++
      toString cores ++ ")"

end Event

/-! ## Results with events -/

structure Logged (ε α : Type) where
  events : List Event
  result : Except ε α

namespace Logged

variable {ε ε' α β : Type}

def report (events : List Event) : Logged ε Unit :=
  { events, result := .ok () }

def ofExcept (result : Except ε α) : Logged ε α :=
  { events := [], result }

def fail (e : ε) : Logged ε α :=
  ofExcept (.error e)

def bind (x : Logged ε α) (f : α → Logged ε β) : Logged ε β :=
  match x.result with
  | .ok a => { events := x.events ++ (f a).events, result := (f a).result }
  | .error e => { events := x.events, result := .error e }

instance : Monad (Logged ε) where
  pure a := ofExcept (.ok a)
  bind := bind

def mapError (f : ε → ε') (x : Logged ε α) : Logged ε' α :=
  { events := x.events, result := x.result.mapError f }

/-! ### Results and events of each operation -/

@[simp] theorem result_pure (a : α) : (pure a : Logged ε α).result = .ok a := rfl

@[simp] theorem events_pure (a : α) : (pure a : Logged ε α).events = [] := rfl

@[simp] theorem result_report (events : List Event) :
    (report events : Logged ε Unit).result = .ok () := rfl

@[simp] theorem events_report (events : List Event) :
    (report events : Logged ε Unit).events = events := rfl

@[simp] theorem result_ofExcept (r : Except ε α) : (ofExcept r).result = r := rfl

@[simp] theorem events_ofExcept (r : Except ε α) : (ofExcept r).events = [] := rfl

@[simp] theorem result_mapError (f : ε → ε') (x : Logged ε α) :
    (x.mapError f).result = x.result.mapError f := rfl

/-- Reports do not change what an operation goes on with. -/
@[simp] theorem result_bind (x : Logged ε α) (f : α → Logged ε β) :
    (x >>= f).result = x.result >>= fun a => (f a).result := by
  change (bind x f).result = _
  unfold bind
  cases x.result <;> rfl

/-- The reports made before an error are kept, and no others follow. -/
theorem events_bind (x : Logged ε α) (f : α → Logged ε β) :
    (x >>= f).events =
      x.events ++ match x.result with
        | .ok a => (f a).events
        | .error _ => [] := by
  change (bind x f).events = _
  unfold bind
  cases x.result <;> simp

end Logged
end DecisionForest

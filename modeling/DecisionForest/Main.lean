import DecisionForest.Command.Run

/-!
# The program

Reads the variables and files that a run looks at, runs the tool on them, prints what it leaves
behind and exits with its code.
-/

namespace DecisionForest

/-- The cause that a system's error number stands for; the number may come negated. -/
def StorageError.ofNumber? (code : UInt32) : Option StorageError :=
  let isNumber (n : UInt32) : Bool := code = n || code = -n
  if isNumber 20 then some .notDirectory
  else if isNumber 21 then some .isDirectory
  else if isNumber 36 then some .nameTooLong
  else none

/-- The content of a file on disk. -/
def readDisk (name : String) : IO (Except StorageError (List UInt8)) := do
  if let .error e := FileName.check name then return .error e
  try
    let content ← IO.FS.readBinFile name
    pure (.ok content.toList)
  catch
    | .noFileOrDirectory .. => pure (.error .notFound)
    | e@(.inappropriateType _ code _) | e@(.invalidArgument _ code _) =>
      pure (.error ((StorageError.ofNumber? code).getD (.stated (toString e))))
    | e => pure (.error (.stated (toString e)))

/-- The reader that knows the given files. -/
def Reader.ofList (files : List (String × Except StorageError (List UInt8))) : Reader := fun name =>
  match files.find? fun f => f.1 = name with
  | some f => f.2
  | none => .error .notFound

end DecisionForest

open DecisionForest in
def main (arguments : List String) : IO UInt32 := do
  let vars ← Command.variableNames.filterMapM fun name => do
    pure ((← IO.getEnv name).map fun value => (name, value))
  let env := Environment.ofList vars
  let files ← (Command.fileNames env arguments).mapM fun name => do
    pure (name, ← readDisk name)
  let o := Command.run (Reader.ofList files) env arguments
  for e in o.log do
    IO.eprintln ("[" ++ e.level.text ++ "] " ++ e.message)
  IO.print o.stdout
  IO.eprint o.stderr
  pure o.code.toUInt32

import ObjectQuery.Command.Run

/-! The command on real files and outputs. -/
namespace ObjectQuery.Command

/-- Of directories the system says so under one of two numbers. -/
def openFault : IO.Error → OpenFault
  | .inappropriateType _ number _ =>
    if number = 21 ∨ number = -21 then .isDirectory else .notDirectory
  | .invalidArgument _ number _ => if number = 36 then .tooLong else .notFound
  | _ => .notFound

def readFile (name : String) : IO (Except OpenFault ByteArray) := do
  if let some fault := Path.fault? name then return .error fault
  match ← (IO.FS.readBinFile name).toBaseIO with
  | .ok contents => pure (.ok contents)
  | .error fault => pure (.error (openFault fault))

/-- The file that the arguments name, if any. -/
def fileOf (args : List String) : Option String :=
  match read args with
  | some (.request r) => r.schema
  | _ => none

end ObjectQuery.Command

def main (args : List String) : IO UInt32 := do
  let contents ← match ObjectQuery.Command.fileOf args with
    | some name => ObjectQuery.Command.readFile name
    | none => pure (.error .notFound)
  let outcome := ObjectQuery.Command.run (fun _ => contents) args
  (← IO.getStdout).putStr outcome.output
  (← IO.getStderr).putStr outcome.errors
  pure outcome.code.toUInt32

import ObjectQuery.Table

/-! Names of files, and the directory in which a program works. A name leads step by step from one
directory to the next, and the first step that fails tells why nothing can be read. -/
namespace ObjectQuery

/-- Why nothing can be read under a name. -/
inductive OpenFault where
  | notFound
  | notDirectory
  | isDirectory
  | tooLong
  | zeroByte
  deriving DecidableEq, Repr

def OpenFault.message : OpenFault → String
  | .notFound => "No such file or directory (os error 2)"
  | .notDirectory => "Not a directory (os error 20)"
  | .isDirectory => "Is a directory (os error 21)"
  | .tooLong => "File name too long (os error 36)"
  | .zeroByte => "file name contained an unexpected NUL byte"

/-- A name taken apart at its slashes. -/
structure Path where
  steps : List String
  absolute : Bool

namespace Path

def ofText (text : String) : Path := ⟨text.splitOn "/", text.startsWith "/"⟩

/-- Such a step leads to where it starts. -/
def stays (step : String) : Bool := step = "" || step = "."

/-- What stands behind the last dot, unless the dot is the first character. -/
def extensionOf? (name : List Char) : Option (List Char) :=
  match name.reverse.dropWhile (· ≠ '.') with
  | '.' :: _ :: _ => some (name.reverse.takeWhile (· ≠ '.')).reverse
  | _ => none

/-- The extension of the last step, if that step is a name. -/
def extension? (p : Path) : Option String :=
  (p.steps.filter fun step => !stays step).getLast?.bind fun name =>
    if name = ".." then none else (extensionOf? name.toList).map String.ofList

/-- Bytes in the longest step. -/
def maxStep : Nat := 255

/-- Bytes in the longest name. -/
def maxName : Nat := 4095

/-- Why a name can lead nowhere, whatever files there are. -/
def fault? (name : String) : Option OpenFault :=
  if name.toList.contains '\x00' then some .zeroByte
  else if name = "" then some .notFound
  else if maxName < name.utf8ByteSize then some .tooLong
  else none

end Path

/-- What stands under a name. -/
inductive Entry where
  | file (contents : ByteArray)
  | directory

/-- The entries of a directory and of those within it, under their paths. -/
abbrev Directory := Table Entry

namespace Directory

/-- Where a name leads. Above the directory there are directories alone. -/
inductive Place where
  | above
  | within (steps : List String)
  | file (contents : ByteArray)

def joined (steps : List String) : String := "/".intercalate steps

/-- The entry at the end of the steps. One with entries below it is a directory. -/
def find? (d : Directory) (steps : List String) : Option Place :=
  match d.get? (joined steps) with
  | some (.file contents) => some (.file contents)
  | some .directory => some (.within steps)
  | none =>
    if d.entries.any fun (path, _) => path.startsWith (joined steps ++ "/") then
      some (.within steps)
    else none

/-- One step on the way. From a file no step leads on, not even one that stays. -/
def advance (d : Directory) (place : Place) (step : String) : Except OpenFault Place :=
  match place with
  | .file _ => .error .notDirectory
  | .above =>
    if Path.stays step || step = ".." then .ok .above
    else .error (if Path.maxStep < step.utf8ByteSize then .tooLong else .notFound)
  | .within steps =>
    if Path.stays step then .ok (.within steps)
    else if step = ".." then .ok (if steps.isEmpty then .above else .within steps.dropLast)
    else if Path.maxStep < step.utf8ByteSize then .error .tooLong
    else match d.find? (steps ++ [step]) with
      | some place => .ok place
      | none => .error .notFound

/-- What opening a name and reading to its end gives. -/
def contents (d : Directory) (name : String) : Except OpenFault ByteArray := do
  if let some fault := Path.fault? name then throw fault
  let path := Path.ofText name
  match ← path.steps.foldlM d.advance (if path.absolute then .above else .within []) with
  | .file contents => pure contents
  | _ => throw .isDirectory

end Directory

end ObjectQuery

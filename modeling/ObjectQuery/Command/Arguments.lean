/-! Arguments of the command. Options may be mixed with patterns; short options may be joined, and
the rest of a joined group is the value of an option that takes one. Behind two dashes all arguments
are patterns. -/
namespace ObjectQuery.Command

structure Request where
  patterns : List String
  guide : Bool
  schema : Option String
  dot : Bool
  json : Bool
  deriving DecidableEq, Repr

def Request.empty : Request := ⟨[], false, none, false, false⟩

inductive Switch where
  | guide
  | dot
  | json
  | schema
  | help
  | version
  deriving DecidableEq, Repr

namespace Switch

def all : List Switch := [.guide, .schema, .dot, .json, .help, .version]

def name : Switch → String
  | .guide => "pattern-help"
  | .schema => "schema"
  | .dot => "dot"
  | .json => "json"
  | .help => "help"
  | .version => "version"

def letter? : Switch → Option Char
  | .schema => some 's'
  | .json => some 'j'
  | .help => some 'h'
  | .version => some 'V'
  | _ => none

def ofName? (name : String) : Option Switch := all.find? (·.name = name)
def ofLetter? (letter : Char) : Option Switch := all.find? (·.letter? = some letter)

end Switch

/-- What the arguments come to. Help and version are asked for as soon as they are met. -/
inductive Task where
  | help
  | version
  | request (request : Request)
  deriving DecidableEq, Repr

/-- An option once it is read: the task may be settled, or arguments follow, the first of them as
the value of the option where one is missing. -/
inductive Progress where
  | settled (task : Task)
  | more (request : Request)
  | value (request : Request)

namespace Request

def addPattern (r : Request) (pattern : String) : Request :=
  { r with patterns := r.patterns ++ [pattern] }

/-- No option is given twice. -/
def setSchema? (r : Request) (file : String) : Option Request :=
  if r.schema.isSome then none else some { r with schema := some file }

def turnOn? (r : Request) : Switch → Option Progress
  | .guide => if r.guide then none else some (.more { r with guide := true })
  | .dot => if r.dot then none else some (.more { r with dot := true })
  | .json => if r.json then none else some (.more { r with json := true })
  | .help => some (.settled .help)
  | .version => some (.settled .version)
  | .schema => some (.value r)

/-- An option by its name, with the value that is joined to it by an equals sign. -/
def long? (r : Request) (name : String) (value : Option String) : Option Progress := do
  let switch ← Switch.ofName? name
  match value with
  | none => r.turnOn? switch
  | some file => if switch = .schema then (r.setSchema? file).map .more else none

def short? (r : Request) : List Char → Option Progress
  | [] => some (.more r)
  | c :: rest => do
    let switch ← Switch.ofLetter? c
    if switch = .schema ∧ rest ≠ [] then
      let file := if rest.head? = some '=' then rest.tail else rest
      (r.setSchema? (String.ofList file)).map .more
    else match ← r.turnOn? switch with
      | .more r => r.short? rest
      | progress => some progress

end Request

/-- An argument that stands for itself: it does not start with a dash, or it is nothing else. -/
def isPlain (arg : List Char) : Bool := arg.head? ≠ some '-' || arg = ['-']

def option? (r : Request) (arg : List Char) : Option Progress :=
  match arg with
  | '-' :: '-' :: long =>
    let name := long.takeWhile (· ≠ '=')
    let value := (long.dropWhile (· ≠ '=')).tail
    r.long? (String.ofList name)
      (if name.length < long.length then some (String.ofList value) else none)
  | _ => r.short? arg.tail

inductive Place where
  | any
  | value
  | pattern

/-- There is no task if the arguments are not well formed. -/
def readFrom : Place → Request → List String → Option Task
  | .value, _, [] => none
  | _, r, [] => some (.request r)
  | .pattern, r, arg :: rest => readFrom .pattern (r.addPattern arg) rest
  | .value, r, arg :: rest =>
    if isPlain arg.toList then
      (r.setSchema? arg).bind fun r => readFrom .any r rest
    else none
  | .any, r, arg :: rest =>
    if isPlain arg.toList then readFrom .any (r.addPattern arg) rest
    else if arg = "--" then readFrom .pattern r rest
    else match option? r arg.toList with
      | some (.settled task) => some task
      | some (.more r) => readFrom .any r rest
      | some (.value r) => readFrom .value r rest
      | none => none

def read (args : List String) : Option Task := readFrom .any .empty args

end ObjectQuery.Command

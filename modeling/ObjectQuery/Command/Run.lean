import ObjectQuery.Chain.View
import ObjectQuery.Command.Arguments
import ObjectQuery.Pattern.Guide
import ObjectQuery.Pattern.Writing
import ObjectQuery.Report
import ObjectQuery.Schema.Load

/-! The command. It prints pattern strings as the pattern strings or the JSON values of their
chains, and stops at the first that fails. -/
namespace ObjectQuery.Command

inductive Fault where
  | schema (file : String) (fault : SchemaFault)
  | pattern (text : String) (fault : PatternFault)
  | chain (fault : PatternFault)

namespace Fault

/-- What failed, and why, the outermost first. -/
def account : Fault → String × List String
  | .schema file fault => (s!"Failed to load schema from {file}", [fault.message])
  | .pattern text fault =>
    (s!"Failed to parse pattern '{text}'", fault.causes.map PatternFault.message)
  | .chain fault => (fault.message, fault.causes.tail.map PatternFault.message)

/-- The first line of a cause stands behind `head`, the others below it. -/
def block (head margin : String) (cause : String) : String :=
  head ++ ("\n" ++ margin).intercalate (cause.splitOn "\n")

def causeTexts : List String → List String
  | [cause] => [block "    " "    " cause]
  | causes => causes.zipIdx.map fun (cause, i) =>
    let number := toString i
    block ("".pushn ' ' (5 - number.length) ++ number ++ ": ") "       " cause

def report (fault : Fault) : String :=
  let (what, causes) := fault.account
  let why :=
    if causes.isEmpty then "" else "\n\nCaused by:\n" ++ "\n".intercalate (causeTexts causes)
  "Error: " ++ what ++ why ++ "\n"

end Fault

/-- What is printed, up to the fault if there is one. -/
structure Printed where
  text : String
  fault : Option Fault

namespace Printed

/-- Prints more, unless there was a fault. -/
def andThen (p : Printed) (next : Unit → Printed) : Printed :=
  match p.fault with
  | some _ => p
  | none => let q := next (); ⟨p.text ++ q.text, q.fault⟩

end Printed

def printChains : List Chain → Printed
  | [] => ⟨"", none⟩
  | c :: rest =>
    match c.text with
    | .ok text => Printed.andThen ⟨text ++ "\n", none⟩ fun _ => printChains rest
    | .error fault => ⟨"", some (.chain fault)⟩

def printPattern (schema : Schema) (json : Bool) (text : String) : Printed :=
  match Chain.parse schema text none with
  | .error fault => ⟨"", some (.pattern text fault)⟩
  | .ok chains =>
    if json then ⟨(Json.arr (chains.map Chain.json)).page ++ "\n", none⟩ else printChains chains

def printPatterns (schema : Schema) (json : Bool) : List String → Printed
  | [] => ⟨"", none⟩
  | text :: rest => (printPattern schema json text).andThen fun _ => printPatterns schema json rest

def printAll (schema : Schema) (r : Request) : Printed :=
  Printed.andThen ⟨if r.dot then schema.dot else "", none⟩ fun _ =>
    printPatterns schema r.json r.patterns

def answer (contents : String → Except OpenFault ByteArray) (r : Request) : Printed :=
  if r.guide then ⟨Pattern.guide ++ "\n" ++ Pattern.commandLineNote, none⟩
  else match r.schema with
    | some file =>
      match Schema.ofFile file (contents file) with
      | .ok schema => printAll schema r
      | .error fault => ⟨"", some (.schema file fault)⟩
    | none =>
      match Report.schema with
      | .ok schema => printAll schema r
      | .error fault => ⟨"", some (.schema "" fault)⟩

def helpText : String :=
"Object-relation schema and pattern query language for CI report data

Usage: kcidb-pattern [OPTIONS] [PATTERN]...

Arguments:
  [PATTERN]...  Object pattern strings. See --pattern-help for syntax

Options:
      --pattern-help                      Print pattern string syntax documentation and exit
  -s, --schema <schema.json|schema.yaml>  Schema description file. json or yaml
      --dot                               Print the schema's type relations in DOT format
  -j, --json                              Print parsed pattern chains as JSON
  -h, --help                              Print help
  -V, --version                           Print version
"

def versionText : String := "kcidb-orm 0.1.0\n"

def usageText : String := "Usage: kcidb-pattern [OPTIONS] [PATTERN]...\n"

structure Outcome where
  code : Nat
  output : String
  errors : String

/-- Runs the command with a way to get at the contents of files. -/
def run (contents : String → Except OpenFault ByteArray) (args : List String) : Outcome :=
  match read args with
  | none => ⟨2, "", usageText⟩
  | some .help => ⟨0, helpText, ""⟩
  | some .version => ⟨0, versionText, ""⟩
  | some (.request r) =>
    let printed := answer contents r
    match printed.fault with
    | none => ⟨0, printed.text, ""⟩
    | some fault => ⟨1, printed.text, fault.report⟩

end ObjectQuery.Command

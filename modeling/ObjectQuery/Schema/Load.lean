import ObjectQuery.Schema.Build
import ObjectQuery.Yaml.Document

/-! Schemas loaded from texts and files. The name of a file tells its format. -/
namespace ObjectQuery

inductive Format where
  | json
  | yaml
  deriving DecidableEq, Repr

namespace Format

def ofExtension? (extension : String) : Option Format :=
  if extension = "json" then some .json
  else if extension = "yaml" ∨ extension = "yml" then some .yaml
  else none

def ofFileName? (name : String) : Option Format :=
  (Path.ofText name).extension?.bind ofExtension?

/-- How a text without a file name is called. -/
def source : Format → String
  | .json => "<json>"
  | .yaml => "<yaml>"

end Format

namespace Description

/-- Reads YAML text, in which every type is described by a table. The faults of these texts are not
told apart. -/
def ofYamlText (cs : List Char) : Except DescriptionFault Description :=
  match Document.ofYamlText? cs with
  | none => .error .unreadable
  | some d => (ofDocument false d).mapError fun _ => .unreadable

def ofText : Format → List Char → Except DescriptionFault Description
  | .json => ofJsonText
  | .yaml => ofYamlText

/-- The description in a file. Its contents are looked at before its name. -/
def ofFile (name : String) (contents : Except OpenFault ByteArray) :
    Except LoadFault Description := do
  let bytes ← contents.mapError .unopened
  let some text := String.fromUTF8? bytes | throw .notText
  let some format := Format.ofFileName? name | throw .unsupported
  (ofText format text.toList).mapError .description

end Description

namespace Schema

def ofText (format : Format) (text : String) : Except SchemaFault Schema :=
  match Description.ofText format text.toList with
  | .ok description => ofDescription description
  | .error fault => .error (.load format.source (.description fault))

def ofFile (name : String) (contents : Except OpenFault ByteArray) : Except SchemaFault Schema :=
  match Description.ofFile name contents with
  | .ok description => ofDescription description
  | .error fault => .error (.load name fault)

end Schema

end ObjectQuery

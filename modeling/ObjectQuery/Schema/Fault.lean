import ObjectQuery.Description
import ObjectQuery.Directory
import ObjectQuery.Shape.Basic

/-! Why a schema cannot be built or loaded, and why an object does not belong to a type. The text
of each cause stands here and nowhere else. -/
namespace ObjectQuery

/-- Why a description could not be loaded. -/
inductive LoadFault where
  | description (fault : DescriptionFault)
  | unopened (fault : OpenFault)
  | notText
  | unsupported
  deriving DecidableEq, Repr

namespace LoadFault

def message : LoadFault → String
  | .description fault => fault.detail?.getD "not a schema description"
  | .unopened fault => fault.message
  | .notText => "stream did not contain valid UTF-8"
  | .unsupported => "unsupported file type"

/-- The message, where it says more than that something is wrong with the name or the text. -/
def detail? : LoadFault → Option String
  | .description fault => fault.detail?
  | .unopened .zeroByte => none
  | fault => some fault.message

end LoadFault

inductive SchemaFault where
  | unknownChild (parent child : String)
  | invalidTypeName (name : String)
  | noIdFields (type : String)
  | unknownIdField (type field : String)
  | duplicateIdField (type field : String)
  | unknownRequiredField (type field : String)
  | refFieldCount (parent child : String) (expected actual : Nat)
  | unknownRefField (parent child field : String)
  | invalidShape (name : String)
  | notAnEndpoint (type parent child : String)
  | duplicateRelation (type parent child : String)
  | load (source : String) (fault : LoadFault)
  deriving DecidableEq, Repr

namespace SchemaFault

def arrow (parent child : String) : String := s!"'{parent}' -> '{child}'"

def message : SchemaFault → String
  | .unknownChild parent child => s!"Couldn't find child '{child}' of type '{parent}'"
  | .invalidTypeName name =>
    s!"Invalid type name '{name}': must consist of lower-case letters, digits and underscores"
  | .noIdFields type => s!"Type '{type}' has no ID fields"
  | .unknownIdField type field => s!"ID field '{field}' of type '{type}' is not a declared field"
  | .duplicateIdField type field =>
    s!"ID field '{field}' of type '{type}' is listed more than once"
  | .unknownRequiredField type field =>
    s!"Required field '{field}' of type '{type}' is not a declared field"
  | .refFieldCount parent child expected actual =>
    s!"Relation {arrow parent child} has {actual} reference field(s), expected {expected}"
  | .unknownRefField parent child field =>
    s!"Reference field '{field}' of relation {arrow parent child} is not a field of '{child}'"
  | .invalidShape name => s!"Invalid JSON schema for '{name}'"
  | .notAnEndpoint type parent child =>
    s!"Relation {arrow parent child} does not reference type '{type}'"
  | .duplicateRelation type parent child =>
    s!"Relation {arrow parent child} is already registered on type '{type}'"
  | .load source fault =>
    let reason := fault.message
    s!"Failed to load schema description {source}: {reason}"

end SchemaFault

inductive ObjectFault where
  | invalid (name : String) (failure : Failure)
  | missingIdField (type field : String)
  | invalidIdValue (type field : String) (value : Json)

def ObjectFault.message : ObjectFault → String
  | .invalid name failure =>
    let text := failure.message
    s!"Invalid {name} data: {text}"
  | .missingIdField type field => s!"Object of type '{type}' is missing ID field '{field}'"
  | .invalidIdValue type field value =>
    let text := value.line
    s!"ID field '{field}' of type '{type}' must be a string or null, got {text}"

end ObjectQuery

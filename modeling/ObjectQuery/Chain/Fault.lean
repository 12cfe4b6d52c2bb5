import ObjectQuery.Display

/-! Why a chain of steps cannot be built, expanded, parsed or written. Positions count the bytes of
the text in UTF-8. -/
namespace ObjectQuery

inductive Lookup where
  | root
  | child
  | parent
  deriving DecidableEq, Repr

namespace Lookup

def name : Lookup → String
  | .root => "type"
  | .child => "child type"
  | .parent => "parent type"

/-- The lookup of a step that goes down to children or up to parents. -/
def along (down : Bool) : Lookup := if down then .child else .parent

end Lookup

inductive PatternFault where
  | syntaxError (text : String) (position : Nat) (rest : String)
  | unknownType (kind : Lookup) (name : String)
  | missingParentBase
  | noIdLists (position : Nat)
  | notEnoughIdLists (position : Nat)
  | tooManyIdLists (text : String)
  | idLength (type : String) (expected actual : Nat)
  | notRelated (kind : Lookup) (type base : String)
  | rootParent (type : String)
  | invalidIdList (text : String) (position : Nat)
  | invalidObject (list : String) (index : Nat) (field : String)
  | unrepresentable (field : Option String)
  | expansion (position : Nat) (rest : String) (cause : PatternFault)
  deriving DecidableEq, Repr

namespace PatternFault

def message : PatternFault → String
  | .syntaxError text position rest =>
    s!"Invalid pattern string '{text}' at position {position}: '{rest}'"
  | .unknownType kind name =>
    let what := kind.name
    s!"Cannot find {what} '{name}'"
  | .missingParentBase => "Cannot traverse parents without a preceding pattern specification"
  | .noIdLists position =>
    s!"No ID list list specified to substitute the placeholder at position {position}"
  | .notEnoughIdLists position =>
    s!"Not enough ID lists specified to substitute the placeholder at position {position}"
  | .tooManyIdLists text => s!"Too many ID lists specified for pattern '{text}'"
  | .idLength type expected actual =>
    s!"ID for type '{type}' has {actual} field(s), expected {expected}"
  | .notRelated kind type base =>
    let what := kind.name
    s!"Type '{type}' is not a {what} of type '{base}'"
  | .rootParent type => s!"Pattern for type '{type}' without a base must be a child pattern"
  | .invalidIdList text position => s!"Invalid ID list '{text}' at position {position}"
  | .invalidObject list index field =>
    s!"Object #{index} in '{list}' has no string value for ID field '{field}'"
  | .unrepresentable field =>
    "ID field cannot be represented in a pattern string: " ++ Display.optional field
  | .expansion position rest _ =>
    s!"Failed expanding pattern specification at position {position}: '{rest}'"

/-- The fault and those behind it, the outermost first. -/
def causes : PatternFault → List PatternFault
  | .expansion position rest cause => .expansion position rest cause :: cause.causes
  | fault => [fault]

def report (fault : PatternFault) : String := ": ".intercalate (fault.causes.map message)

end PatternFault

end ObjectQuery

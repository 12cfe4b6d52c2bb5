import ObjectQuery.Schema.Fault
import ObjectQuery.Shape.Validator

/-! Object types and the relations between them. A relation leads from a parent type to a child
type; the child's reference fields hold the parent's identity. Types name one another, so the
graph of types may have cycles. -/
namespace ObjectQuery

structure Relation where
  parent : String
  child : String
  refFields : List String
  deriving DecidableEq, Repr

/-- A relation under the number that tells it apart from relations with the same content. -/
structure Edge where
  serial : Nat
  relation : Relation
  deriving DecidableEq, Repr

structure ObjectType where
  name : String
  shape : Json
  validator : Validator
  idFields : List String
  edges : List Edge
  parents : Table Edge
  children : Table Edge

namespace ObjectType

def make (name : String) (shape : Json) (idFields : List String) : Except SchemaFault ObjectType :=
  if idFields.isEmpty then .error (.noIdFields name)
  else match Validator.compile? name shape with
    | none => .error (.invalidShape name)
    | some validator => .ok ⟨name, shape, validator, idFields, [], .empty, .empty⟩

def isEndpoint (t : ObjectType) (r : Relation) : Bool := r.parent == t.name || r.child == t.name

/-- Registers a relation at one of its ends, or at both where they are one type. -/
def register (t : ObjectType) (e : Edge) : Except SchemaFault ObjectType :=
  let r := e.relation
  if !t.isEndpoint r then .error (.notAnEndpoint t.name r.parent r.child)
  else if t.edges.any (·.serial == e.serial) then
    .error (.duplicateRelation t.name r.parent r.child)
  else .ok { t with
    edges := t.edges ++ [e]
    children := if r.parent = t.name then t.children.insert r.child e else t.children
    parents := if r.child = t.name then t.parents.insert r.parent e else t.parents }

/-- The types one step away: children where `down` holds, parents otherwise. -/
def related (t : ObjectType) (down : Bool) : Table Edge := if down then t.children else t.parents

def check (t : ObjectType) (value : Json) : Except ObjectFault Unit :=
  match t.validator.judge value with
  | none => .ok ()
  | some failure => .error (.invalid t.validator.name failure)

def accepts (t : ObjectType) (value : Json) : Bool := t.validator.accepts value

end ObjectType

def Relation.make (parent child : ObjectType) (refFields : List String) :
    Except SchemaFault Relation :=
  if refFields.length = parent.idFields.length then .ok ⟨parent.name, child.name, refFields⟩
  else .error (.refFieldCount parent.name child.name parent.idFields.length refFields.length)

structure Schema where
  types : Table ObjectType
  edges : List Edge
  shape : Json
  validator : Validator

namespace Schema

def type? (s : Schema) (name : String) : Option ObjectType := s.types.get? name

def check (s : Schema) (value : Json) : Except ObjectFault Unit :=
  match s.validator.judge value with
  | none => .ok ()
  | some failure => .error (.invalid s.validator.name failure)

def accepts (s : Schema) (value : Json) : Bool := s.validator.accepts value

/-- The graph of types in the DOT language, an arrow for each relation. -/
def dot (s : Schema) : String :=
  let arrows := s.edges.map fun e => e.relation.parent ++ " -> " ++ e.relation.child ++ "\n"
  "digraph \x7b\n" ++ String.join arrows ++ "\x7d\n"

end Schema

end ObjectQuery

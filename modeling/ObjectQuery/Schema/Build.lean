import ObjectQuery.Schema.Basic

/-! Schemas built from descriptions. The types are checked in their order, then the shape of whole
collections is compiled, then the relations are checked and registered. -/
namespace ObjectQuery

namespace TypeDescription

def fieldShape (d : TypeDescription) (field : String) (schema : Json) : Json :=
  if d.required.contains field then schema
  else .object [("anyOf", .arr [.object [("type", .str "null")], schema])]

/-- The shape of one object: every field must be there and no other, and a field that is not
required may be null. -/
def shape (d : TypeDescription) : Json :=
  .object [("type", .str "object"),
    ("properties", .object (d.fields.entries.map fun (field, s) => (field, d.fieldShape field s))),
    ("required", .texts d.fields.keys),
    ("additionalProperties", .bool false)]

end TypeDescription

/-- The shape of a collection of objects: a list of objects under the name of each type. -/
def collectionShape (shapes : List (String × Json)) : Json :=
  .object [("type", .str "object"),
    ("additionalProperties", .bool false),
    ("properties", .object (shapes.map fun (name, s) =>
      (name, .object [("type", .str "array"), ("items", s)])))]

namespace Schema

def isNameChar (c : Char) : Bool := 'a' ≤ c && c ≤ 'z' || '0' ≤ c && c ≤ '9' || c = '_'

def isTypeName (name : String) : Bool := name ≠ "" && name.toList.all isNameChar

/-- The ID fields one by one: each is declared and none was named before. -/
def checkIdFields (name : String) (d : TypeDescription) :
    List String → List String → Except SchemaFault Unit
  | _, [] => .ok ()
  | seen, field :: rest =>
    if !d.fields.contains field then .error (.unknownIdField name field)
    else if seen.contains field then .error (.duplicateIdField name field)
    else checkIdFields name d (field :: seen) rest

def checkShape (name : String) (schema : Json) : Except SchemaFault Unit :=
  if (Validator.compile? name schema).isSome then .ok () else .error (.invalidShape name)

def checkType (name : String) (d : TypeDescription) : Except SchemaFault Unit := do
  if !isTypeName name then throw (.invalidTypeName name)
  if d.idFields.isEmpty then throw (.noIdFields name)
  checkIdFields name d [] d.idFields
  match d.required.names.find? (fun field => !d.fields.contains field) with
  | some field => throw (.unknownRequiredField name field)
  | none => pure ()
  d.fields.entries.forM fun (field, schema) => checkShape (name ++ "." ++ field) schema

def makeType (name : String) (d : TypeDescription) : Except SchemaFault ObjectType := do
  checkType name d
  ObjectType.make name d.shape d.idFields

/-- A relation as a description declares it. -/
structure Declared where
  parent : String
  child : String
  refFields : List String

def declared (description : Description) : List Declared :=
  description.entries.flatMap fun (parent, d) =>
    d.children.entries.map fun (child, refFields) => ⟨parent, child, refFields⟩

def makeRelation (description : Description) (types : List (String × ObjectType)) (r : Declared) :
    Except SchemaFault Relation :=
  match description.get? r.child, types.lookup r.parent, types.lookup r.child with
  | some d, some parent, some child =>
    match r.refFields.find? (fun field => !d.fields.contains field) with
    | some field => .error (.unknownRefField r.parent r.child field)
    | none => Relation.make parent child r.refFields
  | _, _, _ => .error (.unknownChild r.parent r.child)

/-- The type with all edges at which it stands, in their order. -/
def connect (edges : List Edge) (t : ObjectType) : Except SchemaFault ObjectType :=
  (edges.filter fun e => t.isEndpoint e.relation).foldlM ObjectType.register t

def number (relations : List Relation) : List Edge := relations.zipIdx.map fun (r, i) => ⟨i, r⟩

def ofDescription (description : Description) : Except SchemaFault Schema := do
  let types ← description.entries.mapM fun (name, d) => do pure (name, ← makeType name d)
  let shape := collectionShape (types.map fun (name, t) => (name, t.shape))
  let some validator := Validator.compile? "schema" shape | throw (.invalidShape "schema")
  let edges := number (← (declared description).mapM (makeRelation description types))
  let connected ← types.mapM fun (name, t) => do pure (name, ← connect edges t)
  pure ⟨Table.ofList connected, edges, shape, validator⟩

end Schema

end ObjectQuery

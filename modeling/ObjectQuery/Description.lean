import ObjectQuery.Document
import ObjectQuery.Json.Printer
import ObjectQuery.NameSet
import ObjectQuery.Table

/-! Descriptions of object types: the JSON schemas of a type's fields, the fields that may not be
null, those that identify an object, and the child types with the fields in which a child holds the
identity of its parent. `Description.ofDocument` reads one, `Description.json` writes it. -/
namespace ObjectQuery

structure TypeDescription where
  fields : Table Json
  required : NameSet
  idFields : List String
  children : Table (List String)

abbrev Description := Table TypeDescription

def TypeDescription.empty : TypeDescription := ⟨.empty, .empty, [], .empty⟩

def TypeDescription.isEmpty (d : TypeDescription) : Bool :=
  d.fields.isEmpty && d.required.names.isEmpty && d.idFields.isEmpty && d.children.isEmpty

/-- The parts of a type's description, in the order in which they are written. -/
inductive Part where
  | fields
  | required
  | idFields
  | children
  deriving DecidableEq, Repr

namespace Part

def all : List Part := [.fields, .required, .idFields, .children]

def name : Part → String
  | .fields => "field_json_schemas"
  | .required => "required_fields"
  | .idFields => "id_fields"
  | .children => "children"

def ofName? (name : String) : Option Part := all.find? (·.name = name)

end Part

/-- Why a document is no description. `unreadable` covers faults of the text and values of the
wrong form. -/
inductive DescriptionFault where
  | unreadable
  | unknownPart (name : String)
  | repeatedPart (part : Part)
  | missingPart (part : Part)
  deriving DecidableEq, Repr

def Part.quoted (name : String) : String := "`" ++ name ++ "`"

def DescriptionFault.detail? : DescriptionFault → Option String
  | .unreadable => none
  | .unknownPart name =>
    some ("unknown field " ++ Part.quoted name ++ ", expected one of "
      ++ ", ".intercalate (Part.all.map fun p => Part.quoted p.name))
  | .repeatedPart part => some ("duplicate field " ++ Part.quoted part.name)
  | .missingPart part => some ("missing field " ++ Part.quoted part.name)

namespace TypeDescription

/-- The parts read so far. -/
structure Draft where
  fields : Option (Table Json)
  required : Option NameSet
  idFields : Option (List String)
  children : Option (Table (List String))

def Draft.blank : Draft := ⟨none, none, none, none⟩

def Draft.has (d : Draft) : Part → Bool
  | .fields => d.fields.isSome
  | .required => d.required.isSome
  | .idFields => d.idFields.isSome
  | .children => d.children.isSome

def schemas? (d : Document) : Option (Table Json) := do
  some (Table.ofList (← (← d.members?).mapM fun (name, v) => v.json?.map fun j => (name, j)))

def children? (d : Document) : Option (Table (List String)) := do
  some (Table.ofList (← (← d.members?).mapM fun (name, v) => v.texts?.map fun l => (name, l)))

def Draft.set? (d : Draft) (part : Part) (v : Document) : Option Draft :=
  match part with
  | .fields => (schemas? v).map fun x => { d with fields := some x }
  | .required => v.texts?.map fun x => { d with required := some (.ofList x) }
  | .idFields => v.texts?.map fun x => { d with idFields := some x }
  | .children => (children? v).map fun x => { d with children := some x }

/-- A part is judged by its name before its value is looked at. -/
def Draft.add (d : Draft) (name : String) (v : Document) : Except DescriptionFault Draft :=
  match Part.ofName? name with
  | none => .error (.unknownPart name)
  | some part =>
    if d.has part then .error (.repeatedPart part)
    else match d.set? part v with
      | some d => .ok d
      | none => .error .unreadable

def Draft.finish (d : Draft) : Except DescriptionFault TypeDescription :=
  match d.fields, d.idFields with
  | none, _ => .error (.missingPart .fields)
  | _, none => .error (.missingPart .idFields)
  | some fields, some idFields =>
    .ok ⟨fields, d.required.getD .empty, idFields, d.children.getD .empty⟩

def ofMembers (members : List (String × Document)) (finished : Bool) :
    Except DescriptionFault TypeDescription := do
  let draft ← members.foldlM (fun (d : Draft) m => d.add m.1 m.2) .blank
  if finished then draft.finish else .error .unreadable

/-- The parts in their order, without names. Of those at the end the ones with a default may be
left out. -/
def ofItems (items : List Document) : Except DescriptionFault TypeDescription :=
  if items.length ≤ Part.all.length then
    match (Part.all.zip items).foldlM (fun (d : Draft) m => d.set? m.1 m.2) .blank with
    | some draft => draft.finish.mapError fun _ => .unreadable
    | none => .error .unreadable
  else .error .unreadable

/-- Where `positional` holds, a list of its parts describes a type too. -/
def ofDocument (positional : Bool) : Document → Except DescriptionFault TypeDescription
  | .table members finished => ofMembers members finished
  | .list items true => if positional then ofItems items else .error .unreadable
  | .word "" _ => ofMembers [] true
  | .valueless content => ofDocument positional content
  | _ => .error .unreadable

def json (d : TypeDescription) : Json :=
  .obj [(Part.fields.name, .obj d.fields.entries),
    (Part.required.name, .texts d.required.names),
    (Part.idFields.name, .texts d.idFields),
    (Part.children.name, .obj (d.children.map Json.texts).entries)]

end TypeDescription

namespace Description

def ofMembers (positional : Bool) (members : List (String × Document)) (finished : Bool) :
    Except DescriptionFault Description := do
  let types ← members.mapM fun (name, v) => do
    pure (name, ← TypeDescription.ofDocument positional v)
  if finished then .ok (Table.ofList types) else .error .unreadable

def ofDocument (positional : Bool) : Document → Except DescriptionFault Description
  | .table members finished => ofMembers positional members finished
  | .word "" _ => ofMembers positional [] true
  | .valueless content => ofDocument positional content
  | _ => .error .unreadable

/-- Reads JSON text. What follows the description is looked at last. -/
def ofJsonText (cs : List Char) : Except DescriptionFault Description :=
  let (d, whole) := Document.ofJsonText cs
  match ofDocument true d with
  | .ok types => if whole then .ok types else .error .unreadable
  | .error fault => .error fault

def json (d : Description) : Json := .obj (d.map TypeDescription.json).entries

end Description

end ObjectQuery

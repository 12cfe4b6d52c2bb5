import ObjectQuery.Chain.Basic

/-! Chains that select every object of a collection, in which the objects of a type are listed
under the plural of its name. -/
namespace ObjectQuery.Chain

def listName (t : ObjectType) : String := t.name ++ "s"

/-- The identity of a listed object, of which no component may be missing. -/
def listedId (t : ObjectType) (index : Nat) (value : Json) : Except PatternFault Id :=
  t.idFields.mapM fun field =>
    match value.member? field with
    | some (.str s) => .ok (some s)
    | _ => .error (.invalidObject (listName t) index field)

def listed (t : ObjectType) (data : Json) : List Json :=
  ((data.member? (listName t)).bind Json.items?).getD []

def ofCollection (schema : Schema) (data : Json) : Except PatternFault (List Chain) :=
  (schema.types.values.filter fun t => !(listed t data).isEmpty).mapM fun t => do
    let ids ← (listed t data).zipIdx.mapM fun (value, index) => listedId t index value
    make none true t (some ids) true

end ObjectQuery.Chain

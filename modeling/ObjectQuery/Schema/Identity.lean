import ObjectQuery.Schema.Basic

/-! The identity of an object: the values of its ID fields. A missing component matches any
value. -/
namespace ObjectQuery

abbrev Id := List (Option String)
abbrev IdList := List Id

/-- Whether an object is checked before its identity is taken. -/
inductive Rigour where
  | strict
  | light
  deriving DecidableEq, Repr

/-- Checks are skipped where the setting is there, not empty and not 0. -/
def Rigour.ofSetting : Option String → Rigour
  | none => .strict
  | some setting => if setting = "" ∨ setting = "0" then .strict else .light

namespace ObjectType

def component (t : ObjectType) (value : Json) (field : String) :
    Except ObjectFault (Option String) :=
  match value.member? field with
  | some (.str s) => .ok (some s)
  | some .null => .ok none
  | some v => .error (.invalidIdValue t.name field v)
  | none => .error (.missingIdField t.name field)

def identity (t : ObjectType) (rigour : Rigour) (value : Json) : Except ObjectFault Id := do
  if rigour = .strict then t.check value
  t.idFields.mapM (t.component value)

end ObjectType

end ObjectQuery

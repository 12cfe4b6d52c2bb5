import ObjectQuery.Chain.Basic
import ObjectQuery.Json.Printer

/-! Chains as JSON values and as text for display. Both nest each step around the one before it. -/
namespace ObjectQuery

namespace Step

def idsJson (ids : Option IdList) : Json :=
  match ids with
  | none => .null
  | some ids => .arr (ids.map fun id => .arr (id.map Json.ofText?))

/-- The step around the value of its base. -/
def json (s : Step) (base : Json) : Json :=
  .obj [("base", base), ("child", .bool s.down), ("obj_type", .str s.type.name),
    ("obj_id_list", idsJson s.ids), ("match", .bool s.matched)]

def idsText (ids : Option IdList) : String :=
  match ids with
  | none => "None"
  | some ids =>
    "Some(" ++ Display.list (ids.map fun id => Display.list (id.map Display.optional)) ++ ")"

def display (s : Step) (base : String) : String :=
  let down := toString s.down
  let type := Display.text s.type.name
  let ids := idsText s.ids
  let matched := toString s.matched
  s!"Pattern \x7b base: {base}, child: {down}, obj_type: {type}, "
    ++ s!"obj_id_list: {ids}, matched: {matched} \x7d"

end Step

namespace Chain

def jsonOf : List Step → Json
  | [] => .null
  | s :: rest => s.json (jsonOf rest)

def json (c : Chain) : Json := jsonOf c.steps

def displayBase : List Step → String
  | [] => "None"
  | s :: rest => "Some(" ++ s.display (displayBase rest) ++ ")"

def display (c : Chain) : String := c.tip.display (displayBase c.before)

end Chain

end ObjectQuery

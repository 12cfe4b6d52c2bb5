import ObjectQuery.Shape.Linkage
import ObjectQuery.Shape.Reader

/-! Validators: a shape together with the shapes that it refers to. A reference leads to a place in
the schema that is compiled; one that leads nowhere keeps the schema from compiling. Keywords that
are not read do not count: a schema compiles whatever stands under them. -/
namespace ObjectQuery

structure Validator where
  name : String
  shape : Shape
  targets : List (String × Shape)

namespace Validator

/-- Adds the targets of references one by one, until each reference has its target. Every round
finds another reference, and the document has no more references than values. -/
def addTargets (document : Json) :
    Nat → List (String × Shape) → Option (List (String × Shape))
  | 0, known => some known
  | rounds + 1, known =>
    let names := known.map Prod.fst
    match (known.flatMap fun (_, s) => s.references).find? (fun p => !names.contains p) with
    | none => some known
    | some reference => do
      let target ← (document.at? reference).bind Shape.read?
      addTargets document rounds (known ++ [(reference, target)])

/-- Only of the schema itself its form is demanded. A target of a reference, which may stand where
no schema is expected, has only to be readable. -/
def compile? (name : String) (schema : Json) : Option Validator := do
  if Shape.Form.isSchema schema && Shape.Linkage.isClosed schema then
    let shape ← Shape.read? schema
    some ⟨name, shape, ← addTargets schema schema.count [("#", shape)]⟩
  else none

/-- Follows references at most the given number of times. -/
def follow (v : Validator) : Nat → String → Json → Option Failure
  | 0, _, _ => none
  | hops + 1, reference, value =>
    (v.targets.lookup reference).bind fun s => s.judge (v.follow hops) value

/-- The first failure of a value. Within one part of the value no target is met twice, unless the
references go round without end. -/
def judge (v : Validator) (value : Json) : Option Failure :=
  v.shape.judge (v.follow (v.targets.length * (value.depth + 1))) value

def accepts (v : Validator) (value : Json) : Bool := (v.judge value).isNone

end Validator

end ObjectQuery

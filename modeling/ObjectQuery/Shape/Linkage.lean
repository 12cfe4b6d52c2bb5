import ObjectQuery.Json.Reference
import ObjectQuery.Shape.Form

/-! The references of a JSON schema. They are looked for in the schema and in all schemas within it,
in use or not, and then in what they lead to, which may stand where no schema is expected. -/
namespace ObjectQuery.Shape.Linkage

open Form

mutual

/-- The references in a value that is taken for a schema, whatever its form. -/
def references : Json → List String
  | .obj members => referencesIn members
  | _ => []

def referencesIn : List (String × Json) → List String
  | [] => []
  | (keyword, v) :: rest =>
    (if keyword = "$ref" then v.text?.toList
      else if takesSchema keyword then references v
      else if takesFields keyword then referencesOfFields v
      else if takesOptions keyword then referencesOfOptions v
      else []) ++ referencesIn rest

def referencesOfFields : Json → List String
  | .obj members => referencesOfMembers members
  | _ => []

def referencesOfMembers : List (String × Json) → List String
  | [] => []
  | (_, v) :: rest => references v ++ referencesOfMembers rest

def referencesOfOptions : Json → List String
  | .arr items => referencesOfItems items
  | _ => []

def referencesOfItems : List Json → List String
  | [] => []
  | v :: rest => references v ++ referencesOfItems rest

end

/-- Adds the references in the targets of known ones, round by round. -/
def reached (document : Json) : (rounds : Nat) → List String → List String
  | 0, known => known
  | rounds + 1, known =>
    let targets := known.filterMap document.at?
    let new := (targets.flatMap references).eraseDups.filter fun r => !known.contains r
    if new.isEmpty then known else reached document rounds (known ++ new)

/-- No reference leads out of the document. Every round reaches another one of its references, and a
document has no more of these than values. -/
def isClosed (document : Json) : Bool :=
  (reached document document.count (references document).eraseDups).all Json.isLocal

end ObjectQuery.Shape.Linkage

import ObjectQuery.Shape.Basic

/-! The form of JSON schemas: what may stand under their keywords. It is demanded of a schema and of
all schemas within it, those that are only defined included. What stands under other keywords is no
schema, though references may lead there. Nothing is demanded under keywords that are not read. -/
namespace ObjectQuery.Shape.Form

/-- A value that is written as an integer, or as a double without a fraction. -/
def isSize : Json → Bool
  | .num n => n.nat?.isSome
  | _ => false

def isText (v : Json) : Bool := v.text?.isSome

def isNumber : Json → Bool
  | .num _ => true
  | _ => false

def isKindName (name : String) : Bool := (Kind.ofName? name).isSome

def areDistinctTexts (v : Json) : Bool :=
  (v.items?.bind fun items => items.mapM Json.text?).any fun names => names.Nodup

def isKind : Json → Bool
  | .str name => isKindName name
  | .arr items => !items.isEmpty && areDistinctTexts (.arr items)
    && items.all fun item => item.text?.any isKindName
  | _ => false

/-- The form of a value under a keyword that is not followed by schemas. -/
def isPlain (keyword : String) (v : Json) : Bool :=
  if keyword = "type" then isKind v
  else if keyword = "enum" then v.items?.isSome
  else if ["minimum", "maximum"].contains keyword then isNumber v
  else if ["minLength", "maxLength", "minItems", "maxItems"].contains keyword then isSize v
  else if keyword = "required" then areDistinctTexts v
  else if ["pattern", "title", "format", "$ref"].contains keyword then isText v
  else true

def takesSchema (keyword : String) : Bool := ["items", "additionalProperties"].contains keyword
def takesFields (keyword : String) : Bool := ["properties", "definitions", "$defs"].contains keyword
def takesOptions (keyword : String) : Bool := ["anyOf"].contains keyword

mutual

def isSchema : Json → Bool
  | .bool _ => true
  | .obj members => areContents members
  | _ => false

def areContents : List (String × Json) → Bool
  | [] => true
  | (keyword, v) :: rest =>
    (if takesSchema keyword then isSchema v
      else if takesFields keyword then areFieldsOf v
      else if takesOptions keyword then areOptionsOf v
      else isPlain keyword v) && areContents rest

def areFieldsOf : Json → Bool
  | .obj members => areFields members
  | _ => false

def areFields : List (String × Json) → Bool
  | [] => true
  | (_, v) :: rest => isSchema v && areFields rest

def areOptionsOf : Json → Bool
  | .arr items => !items.isEmpty && areOptions items
  | _ => false

def areOptions : List Json → Bool
  | [] => true
  | v :: rest => isSchema v && areOptions rest

end

end ObjectQuery.Shape.Form

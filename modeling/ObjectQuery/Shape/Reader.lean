import ObjectQuery.Regex.Reader
import ObjectQuery.Shape.Basic

/-! Shapes read from JSON schemas. The rules of a schema are put into the order in which they are
judged. A reader asks for no more than it needs: contents of another form than schemas should have
are read where they have a meaning.

The keywords that are read are `type`, `const`, `enum`, `minimum`, `maximum`, `minLength`,
`maxLength`, `minItems`, `maxItems`, `required`, `pattern`, `properties`, `additionalProperties`,
`items`, `anyOf` and `$ref`. Of a value `title`, `format`, `definitions` and `$defs` say nothing.

All other keywords are passed over too, whatever JSON Schema has them say. Left out are those that
put schemas together in other ways (`allOf`, `oneOf`, `not`, `if`, `then`, `else`,
`dependentSchemas`, `dependentRequired`, `dependencies`), that limit numbers, texts, lists and
objects in other ways (`multipleOf`, `exclusiveMinimum`, `exclusiveMaximum`, `uniqueItems`,
`prefixItems`, `contains`, `minContains`, `maxContains`, `unevaluatedItems`, `minProperties`,
`maxProperties`, `propertyNames`, `patternProperties`, `unevaluatedProperties`), that name schemas
(`$schema`, `$id`, `$anchor`, `$dynamicRef`, `$dynamicAnchor`, `$vocabulary`), and that describe
them (`description`, `default`, `examples` and the like), of which not even the form is checked. -/
namespace ObjectQuery.Shape

inductive Content where
  | value (value : Json)
  | shape (shape : Shape)
  | shapes (shapes : List Shape)
  | fields (fields : List (String × Shape))

/-- A keyword is followed by a schema, by a list of schemas, by schemas with names, or by a plain
value. Items may have one schema for all or one for each. -/
inductive Slot where
  | value
  | shape
  | shapes
  | items
  | fields

def slot (keyword : String) : Slot :=
  if keyword = "items" then .items
  else if keyword = "additionalProperties" then .shape
  else if keyword = "properties" then .fields
  else if keyword = "anyOf" then .shapes
  else .value

def isSingle : List String → Bool
  | [_] => true
  | _ => false

/-- No rule where the keyword is absent, one where its content is well formed. -/
def rule? (contents : List (String × Content)) (keyword : String)
    (read : Content → Option Shape) : Option (List Shape) :=
  match contents.lookup keyword with
  | none => some []
  | some content => (read content).map ([·])

def onValue (read : Json → Option Shape) : Content → Option Shape
  | .value v => read v
  | _ => none

def onNumber (make : Number → Shape) : Content → Option Shape := onValue fun
  | .num n => some (make n)
  | _ => none

/-- Sizes are counted up to this one, and from zero. -/
def maxSize : Nat := Nat.pow 2 64 - 1

def onSize (make : Nat → Shape) : Content → Option Shape := onValue fun
  | .num n => n.clamped?.map fun size => make (min size maxSize)
  | _ => none

def onText (make : String → Option Shape) : Content → Option Shape :=
  onValue fun v => v.text?.bind make

def names? (v : Json) : Option (List String) := v.items?.bind fun items => items.mapM Json.text?

def kinds? : Json → Option Shape
  | .str name => (Kind.ofName? name).map fun kind => .kinds [kind]
  | v => (names? v).bind fun names => (names.mapM Kind.ofName?).map .kinds

/-- So many fields are judged by another procedure than fewer. -/
def manyFields : Nat := 15

/-- Two names that are demanded beside fields are demanded together with these. That is done only
where the fields are few and no shape is set for the others; elsewhere nobody asks for the two. -/
def isDropped (names : List String) (fields : List (String × Shape)) (shaped : Bool) : Bool :=
  names.length = 2 && (shaped || manyFields ≤ fields.length)

def demanded? (contents : List (String × Content)) : Option (List (List String)) :=
  match contents.lookup "required" with
  | none => some []
  | some (.value v) => (names? v).map fun names => [names]
  | some _ => none

def listed? (contents : List (String × Content)) : Option (List (String × Shape)) :=
  match contents.lookup "properties" with
  | some (.fields fields) => some fields
  | _ => none

/-- Rules on an object's members, after those that demand their presence. Only where other members
are refused and a single one is demanded does the demand come last. -/
def memberRules (contents : List (String × Content)) (required : List (List String)) :
    List Shape :=
  let demands := required.map Shape.required
  let demandsBeside (fields : List (String × Shape)) (shaped : Bool) :=
    (required.filter fun names => !isDropped names fields shaped).map Shape.required
  match listed? contents, contents.lookup "additionalProperties" with
  | some fields, some (.shape .nothing) =>
    let rule := Shape.record fields none
    if required.any isSingle then rule :: demands else demands ++ [rule]
  | some fields, some (.shape .anything) => demandsBeside fields false ++ [.properties fields]
  | some fields, some (.shape rest) => demandsBeside fields true ++ [.record fields (some rest)]
  | none, some (.shape rest) => demands ++ [.record [] (some rest)]
  | some fields, _ => demandsBeside fields false ++ [.properties fields]
  | none, _ => demands

def pattern? (source : String) : Option Shape :=
  (Regex.read? source.toList).map (.pattern source ·)

def items? : Content → Option Shape
  | .shape s => some (.each s)
  | .shapes l => some (.tuple l)
  | _ => some .anything

def anyOf? : Content → Option Shape
  | .shapes l => some (.anyOf l)
  | _ => none

def valueRules (contents : List (String × Content)) : List (Option (List Shape)) :=
  [rule? contents "type" (onValue kinds?),
    rule? contents "const" (onValue fun v => some (.const v)),
    rule? contents "enum" (onValue fun v => v.items?.map .enum),
    rule? contents "minimum" (onNumber .minimum),
    rule? contents "maximum" (onNumber .maximum),
    rule? contents "minLength" (onSize .minLength),
    rule? contents "maxLength" (onSize .maxLength),
    rule? contents "minItems" (onSize .minItems),
    rule? contents "maxItems" (onSize .maxItems)]

/-- Rules that are judged after those on members. -/
def lastRules (contents : List (String × Content)) : List (Option (List Shape)) :=
  [rule? contents "items" items?,
    rule? contents "anyOf" anyOf?,
    rule? contents "$ref" (onText fun reference => some (.reference reference))]

def assemble? (contents : List (String × Content)) : Option Shape := do
  let first ← (valueRules contents).mapM id
  let required ← demanded? contents
  let pattern ← rule? contents "pattern" (onText pattern?)
  let last ← (lastRules contents).mapM id
  -- a demand for members comes before the pattern, but the two never speak of one value
  some (.all (first.flatten ++ pattern ++ memberRules contents required ++ last.flatten))

def isList (v : Json) : Bool := v.items?.isSome

def isReadable : Json → Bool
  | .bool _ => true
  | .obj _ => true
  | _ => false

mutual

def read? : Json → Option Shape
  | .bool true => some .anything
  | .bool false => some .nothing
  | .obj members => (readContents members).bind assemble?
  | _ => none

def readContents : List (String × Json) → Option (List (String × Content))
  | [] => some []
  | (keyword, v) :: rest => do
    let content ← match slot keyword with
      | .value => some (.value v)
      | .shape => (read? v).map .shape
      | .shapes => (readAllOf v).map .shapes
      | .items =>
        if isList v then (readAllOf v).map .shapes
        else if isReadable v then (read? v).map .shape
        else some (.value v)
      | .fields => (readFieldsOf v).map .fields
    some ((keyword, content) :: (← readContents rest))

def readFieldsOf : Json → Option (List (String × Shape))
  | .obj members => readFields members
  | _ => none

def readFields : List (String × Json) → Option (List (String × Shape))
  | [] => some []
  | (name, v) :: rest => do some ((name, ← read? v) :: (← readFields rest))

def readAllOf : Json → Option (List Shape)
  | .arr items => readAll items
  | _ => none

def readAll : List Json → Option (List Shape)
  | [] => some []
  | v :: rest => do some ((← read? v) :: (← readAll rest))

end

end ObjectQuery.Shape

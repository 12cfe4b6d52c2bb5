import ObjectQuery.Json.Compare
import ObjectQuery.Json.Printer
import ObjectQuery.Regex.Basic

/-! Shapes of JSON values, and whether a value has a shape. A shape in which nothing refers to
another is judged by recursion on it alone; references are followed by a judge given from outside.
The first failure is the one that is reported. -/
namespace ObjectQuery

inductive Kind where
  | array
  | boolean
  | integer
  | null
  | number
  | object
  | string
  deriving DecidableEq, Repr

namespace Kind

def all : List Kind := [.array, .boolean, .integer, .null, .number, .object, .string]

def name : Kind → String
  | .array => "array"
  | .boolean => "boolean"
  | .integer => "integer"
  | .null => "null"
  | .number => "number"
  | .object => "object"
  | .string => "string"

def ofName? (name : String) : Option Kind := all.find? (·.name = name)

/-- A number without fraction is also an integer, however it is written. -/
def fits : Kind → Json → Bool
  | .array, .arr _ => true
  | .boolean, .bool _ => true
  | .integer, .num n => n.isIntegral
  | .null, .null => true
  | .number, .num _ => true
  | .object, .obj _ => true
  | .string, .str _ => true
  | _, _ => false

end Kind

/-- A rule that speaks of one kind of value holds of all values of other kinds. In `record` the
names that are not listed are judged by `rest`, and refused where there is none. In `tuple` there
is a shape for each of the first items. -/
inductive Shape where
  | anything
  | nothing
  | kinds (kinds : List Kind)
  | const (value : Json)
  | enum (options : List Json)
  | minimum (limit : Number)
  | maximum (limit : Number)
  | minLength (limit : Nat)
  | maxLength (limit : Nat)
  | minItems (limit : Nat)
  | maxItems (limit : Nat)
  | required (names : List String)
  | pattern (source : String) (regex : Regex)
  | properties (fields : List (String × Shape))
  | record (fields : List (String × Shape)) (rest : Option Shape)
  | each (shape : Shape)
  | tuple (shapes : List Shape)
  | anyOf (options : List Shape)
  | reference (pointer : String)
  | all (rules : List Shape)

inductive Failure where
  | refused (value : Json)
  | kind (value : Json) (expected : List Kind)
  | const (expected : Json)
  | enum (value : Json) (options : List Json)
  | below (value : Json) (limit : Number)
  | above (value : Json) (limit : Number)
  | shorter (value : Json) (limit : Nat)
  | longer (value : Json) (limit : Nat)
  | fewer (value : Json) (limit : Nat)
  | more (value : Json) (limit : Nat)
  | missing (name : String)
  | mismatch (value : Json) (source : String)
  | unexpected (name : String)
  | noOption (value : Json)

namespace Failure

def plural (n : Nat) (word : String) : String :=
  String.ofList (Decimal.digits n) ++ " " ++ word ++ (if n = 1 then "" else "s")

/-- Up to three options are listed, of more than three the first two. -/
def options : List Json → String
  | [] => ""
  | [a] => a.line
  | [a, b] => a.line ++ " or " ++ b.line
  | [a, b, c] => a.line ++ ", " ++ b.line ++ " or " ++ c.line
  | a :: b :: rest =>
    a.line ++ ", " ++ b.line ++ " or " ++ String.ofList (Decimal.digits rest.length)
      ++ " other candidates"

def number (n : Number) : String := String.ofList n.render
def quoted (s : String) : String := String.ofList (Json.quote s)

/-- Several kinds stand in the order of their names. -/
def kinds : List Kind → String
  | [k] => "type " ++ quoted k.name
  | ks => "types " ++ ", ".intercalate ((Kind.all.filter ks.contains).map fun k => quoted k.name)

def message : Failure → String
  | .refused v => "False schema does not allow " ++ v.line
  | .kind v ks => v.line ++ " is not of " ++ kinds ks
  | .const v => v.line ++ " was expected"
  | .enum v os => v.line ++ " is not one of " ++ options os
  | .below v n => v.line ++ " is less than the minimum of " ++ number n
  | .above v n => v.line ++ " is greater than the maximum of " ++ number n
  | .shorter v n => v.line ++ " is shorter than " ++ plural n "character"
  | .longer v n => v.line ++ " is longer than " ++ plural n "character"
  | .fewer v n => v.line ++ " has less than " ++ plural n "item"
  | .more v n => v.line ++ " has more than " ++ plural n "item"
  | .missing name => quoted name ++ " is a required property"
  | .mismatch v source => v.line ++ " does not match \"" ++ source ++ "\""
  | .unexpected name => "Additional properties are not allowed ('" ++ name ++ "' was unexpected)"
  | .noOption v =>
    v.line ++ " is not valid under any of the schemas listed in the 'anyOf' keyword"

end Failure

namespace Shape

def refuseIf (bad : Bool) (failure : Failure) : Option Failure := if bad then some failure else none

def firstFailure {α : Type} (judge : α → Option Failure) : List α → Option Failure :=
  List.findSome? judge

/-- What an object's members meet, in their order. -/
def judgeMembers (value : Json) (judges : List (String × (Json → Option Failure)))
    (rest : Option (Json → Option Failure)) : Option Failure :=
  match value with
  | .obj members => firstFailure (fun (name, v) =>
      match judges.lookup name, rest with
      | some judge, _ => judge v
      | none, some judge => judge v
      | none, none => some (.unexpected name)) members
  | _ => none

def judgeProperties (value : Json) (judges : List (String × (Json → Option Failure))) :
    Option Failure :=
  firstFailure (fun (name, judge) => (value.member? name).bind judge) judges

mutual

/-- The first failure of a value against a shape. -/
def judge (follow : String → Json → Option Failure) : Shape → Json → Option Failure
  | .anything, _ => none
  | .nothing, v => some (.refused v)
  | .kinds ks, v => refuseIf (!ks.any (·.fits v)) (.kind v ks)
  | .const expected, v => refuseIf (!expected.same v) (.const expected)
  | .enum options, v => refuseIf (!options.any (·.same v)) (.enum v options)
  | .minimum limit, v => match v with
    | .num n => refuseIf (n.order limit == .lt) (.below v limit)
    | _ => none
  | .maximum limit, v => match v with
    | .num n => refuseIf (n.order limit == .gt) (.above v limit)
    | _ => none
  | .minLength limit, v => match v with
    | .str s => refuseIf (s.length < limit) (.shorter v limit)
    | _ => none
  | .maxLength limit, v => match v with
    | .str s => refuseIf (limit < s.length) (.longer v limit)
    | _ => none
  | .minItems limit, v => match v with
    | .arr l => refuseIf (l.length < limit) (.fewer v limit)
    | _ => none
  | .maxItems limit, v => match v with
    | .arr l => refuseIf (limit < l.length) (.more v limit)
    | _ => none
  | .required names, v => match v with
    | .obj _ => (names.find? fun name => (v.member? name).isNone).map .missing
    | _ => none
  | .pattern source regex, v => match v with
    | .str s => refuseIf (!regex.isFoundIn s.toList) (.mismatch v source)
    | _ => none
  | .properties fields, v => judgeProperties v (judges follow fields)
  | .record fields rest, v => judgeMembers v (judges follow fields) (judgeRest follow rest)
  | .each shape, v => match v with
    | .arr l => firstFailure (judge follow shape) l
    | _ => none
  | .tuple shapes, v => match v with
    | .arr l => judgeItems follow shapes l
    | _ => none
  | .anyOf options, v => refuseIf (!suits follow options v) (.noOption v)
  | .reference pointer, v => follow pointer v
  | .all rules, v => judgeAll follow rules v

def judgeAll (follow : String → Json → Option Failure) : List Shape → Json → Option Failure
  | [], _ => none
  | s :: rest, v => (judge follow s v).or (judgeAll follow rest v)

/-- Every item meets the shape in its place. -/
def judgeItems (follow : String → Json → Option Failure) : List Shape → List Json → Option Failure
  | s :: rest, v :: items => (judge follow s v).or (judgeItems follow rest items)
  | _, _ => none

def suits (follow : String → Json → Option Failure) : List Shape → Json → Bool
  | [], _ => false
  | s :: rest, v => (judge follow s v).isNone || suits follow rest v

def judges (follow : String → Json → Option Failure) :
    List (String × Shape) → List (String × (Json → Option Failure))
  | [] => []
  | (name, s) :: rest => (name, judge follow s) :: judges follow rest

def judgeRest (follow : String → Json → Option Failure) :
    Option Shape → Option (Json → Option Failure)
  | some s => some (judge follow s)
  | none => none

end

mutual

def references : Shape → List String
  | .reference pointer => [pointer]
  | .properties fields => referencesOfFields fields
  | .record fields (some rest) => referencesOfFields fields ++ rest.references
  | .record fields none => referencesOfFields fields
  | .each shape => shape.references
  | .tuple shapes => referencesOfAll shapes
  | .anyOf options => referencesOfAll options
  | .all rules => referencesOfAll rules
  | _ => []

def referencesOfAll : List Shape → List String
  | [] => []
  | s :: rest => s.references ++ referencesOfAll rest

def referencesOfFields : List (String × Shape) → List String
  | [] => []
  | (_, s) :: rest => s.references ++ referencesOfFields rest

end

end Shape

end ObjectQuery

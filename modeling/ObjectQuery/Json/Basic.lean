/-! JSON values. A number is an integer or a double, and a double is kept by its bits, so that two
numbers are equal exactly when they are written alike. The members of an object stand in the
order in which they are to be printed; `Json.object` puts them in the order of their names. -/
namespace ObjectQuery

inductive Number where
  | int (value : Int)
  | double (bits : UInt64)
  deriving DecidableEq, Repr

inductive Json where
  | null
  | bool (value : Bool)
  | num (value : Number)
  | str (value : String)
  | arr (items : List Json)
  | obj (members : List (String × Json))
  deriving Repr, Inhabited

namespace Json

def nat (n : Nat) : Json := .num (.int n)

/-- Puts a member at the place of its name. A member of that name gives way to it. -/
def placeMember (name : String) (value : Json) : List (String × Json) → List (String × Json)
  | [] => [(name, value)]
  | (n, v) :: rest =>
    if n = name then (n, value) :: rest
    else if name < n then (name, value) :: (n, v) :: rest
    else (n, v) :: placeMember name value rest

/-- An object with its members sorted by name, each name once, with its last value. -/
def object (members : List (String × Json)) : Json :=
  .obj (members.foldl (fun sorted m => placeMember m.1 m.2 sorted) [])

def member? (name : String) : Json → Option Json
  | .obj members => members.lookup name
  | _ => none

def items? : Json → Option (List Json)
  | .arr items => some items
  | _ => none

def text? : Json → Option String
  | .str value => some value
  | _ => none

def bool? : Json → Option Bool
  | .bool value => some value
  | _ => none

def nat? : Json → Option Nat
  | .num (.int value) => value.toNat?
  | _ => none

/-- A text, or null for a missing one. -/
def ofText? : Option String → Json
  | some value => .str value
  | none => .null

def texts (l : List String) : Json := .arr (l.map .str)

mutual

/-- How deep arrays and objects are nested. -/
def depth : Json → Nat
  | .arr items => depthItems items + 1
  | .obj members => depthMembers members + 1
  | _ => 0

def depthItems : List Json → Nat
  | [] => 0
  | v :: rest => max v.depth (depthItems rest)

def depthMembers : List (String × Json) → Nat
  | [] => 0
  | (_, v) :: rest => max v.depth (depthMembers rest)

end

mutual

/-- The number of values within a value, itself included. -/
def count : Json → Nat
  | .arr items => countItems items + 1
  | .obj members => countMembers members + 1
  | _ => 1

def countItems : List Json → Nat
  | [] => 0
  | v :: rest => v.count + countItems rest

def countMembers : List (String × Json) → Nat
  | [] => 0
  | (_, v) :: rest => v.count + countMembers rest

end

end Json

end ObjectQuery

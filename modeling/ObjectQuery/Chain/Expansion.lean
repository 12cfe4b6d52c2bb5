import ObjectQuery.Chain.Basic

/-! Expansion of chains by one specification: to a named type, or along all relations in one
direction for as long as there are new types to step into. -/
namespace ObjectQuery

inductive Target where
  | any
  | named (name : String)
  deriving DecidableEq, Repr

def Target.ofText (text : String) : Target := if text = "*" then .any else .named text

/-- Which of the traversed types a specification marks for the result. -/
inductive Scope where
  | none
  | all
  | furthest
  deriving DecidableEq, Repr

def Scope.ofMark : Option String → Scope
  | some "#" => .all
  | some "$" => .furthest
  | _ => .none

namespace Chain

def relatedType (schema : Schema) (down : Bool) (name : String) : Except PatternFault ObjectType :=
  match schema.type? name with
  | some type => .ok type
  | none => .error (.unknownType (.along down) name)

def extend (schema : Schema) (down : Bool) (ids : Option IdList) (matched : Bool) (c : Chain)
    (name : String) : Except PatternFault Chain := do
  make (some c) down (← relatedType schema down name) ids matched

/-- One step to a named type from each chain that has a relation to it. There must be one. -/
def expandName (schema : Schema) (frontier : List Chain) (down : Bool) (name : String)
    (ids : Option IdList) (matched : Bool) : Except PatternFault (List Chain) :=
  if frontier.isEmpty then
    match schema.type? name with
    | some type => return [← make none true type ids matched]
    | none => .error (.unknownType .root name)
  else do
    let bases := frontier.filter fun c => (c.tip.type.related down).contains name
    match ← bases.mapM fun c => extend schema down ids matched c name with
    | [] => .error (.unknownType (.along down) name)
    | grown => pure grown

/-- A chain that grows, and how many of its steps the expansion has added. -/
structure Branch where
  chain : Chain
  depth : Nat

namespace Branch

/-- The types seen by this expansion, the one that it started from included. -/
def visited (b : Branch) : List String :=
  (b.chain.steps.take (b.depth + 1)).map fun s => s.type.name

def exits (b : Branch) (down : Bool) : List String :=
  (b.chain.tip.type.related down).keys.filter fun name => !b.visited.contains name

/-- The branch along each of its exits, or as it is where it has none. -/
def grow (schema : Schema) (down : Bool) (ids : Option IdList) (matched : Bool) (b : Branch) :
    Except PatternFault (List Branch) :=
  match b.exits down with
  | [] => .ok [b]
  | exits => exits.mapM fun name => do
    pure ⟨← extend schema down ids matched b.chain name, b.depth + 1⟩

end Branch

def round (schema : Schema) (down : Bool) (ids : Option IdList) (matched : Bool)
    (branches : List Branch) : Except PatternFault (List Branch) := do
  pure (← branches.mapM (Branch.grow schema down ids matched)).flatten

/-- Rounds until one leaves all chains as they are. A branch never returns to a type, so there are
at most as many rounds that extend one as the schema has types, and one more that extends none. -/
def settle (schema : Schema) (down : Bool) (ids : Option IdList) (matched : Bool) :
    Nat → List Branch → Except PatternFault (List Branch)
  | 0, branches => .ok branches
  | rounds + 1, branches => do
    let grown ← round schema down ids matched branches
    if grown.map Branch.chain == branches.map Branch.chain then pure grown
    else settle schema down ids matched rounds grown

/-- Without a frontier there is a branch for each type of the schema, with its root step added. -/
def seeds (schema : Schema) (frontier : List Chain) (ids : Option IdList) (matched : Bool) :
    Except PatternFault (List Branch) :=
  if frontier.isEmpty then
    schema.types.values.mapM fun type => do pure ⟨← make none true type ids matched, 1⟩
  else .ok (frontier.map fun c => ⟨c, 0⟩)

def expandAny (schema : Schema) (frontier : List Chain) (down : Bool) (ids : Option IdList)
    (matched : Bool) : Except PatternFault (List Chain) := do
  let branches ← seeds schema frontier ids matched
  let settled ← settle schema down ids matched (schema.types.size + 1) branches
  pure (settled.map Branch.chain)

def expand (schema : Schema) (frontier : List Chain) (down : Bool) (target : Target)
    (ids : Option IdList) (scope : Scope) : Except PatternFault (List Chain) :=
  if frontier.isEmpty && !down then .error .missingParentBase
  else match target with
    | .named name => expandName schema frontier down name ids (scope != .none)
    | .any => do
      let chains ← expandAny schema frontier down ids (scope == .all)
      pure (if scope = .furthest then chains.map (·.mark true) else chains)

end Chain

end ObjectQuery

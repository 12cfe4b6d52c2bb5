import ObjectQuery.Chain.Fault
import ObjectQuery.Schema.Identity

/-! Chains of traversal steps. A chain starts at a root step, which selects objects of one type;
each further step goes to the children or to the parents of the objects selected before. A step may
be limited to a list of IDs and may be marked for the result. -/
namespace ObjectQuery

structure Step where
  down : Bool
  type : ObjectType
  ids : Option IdList
  matched : Bool

/-- What makes steps equal: types count by their names. -/
abbrev Step.Outline := Bool × String × Option IdList × Bool

def Step.outline (s : Step) : Step.Outline := (s.down, s.type.name, s.ids, s.matched)

/-- The last step and those before it, back to the root. -/
structure Chain where
  tip : Step
  before : List Step

namespace Chain

def steps (c : Chain) : List Step := c.tip :: c.before

def outline (c : Chain) : List Step.Outline := c.steps.map Step.outline

instance : BEq Chain := ⟨fun a b => a.outline == b.outline⟩

def mark (c : Chain) (matched : Bool) : Chain := ⟨{ c.tip with matched := matched }, c.before⟩

/-- A step without a base must go down, a step with one to a type that is related to the base's. -/
def checkBase (base : Option Chain) (down : Bool) (type : ObjectType) : Except PatternFault Unit :=
  match base with
  | none => if down then .ok () else .error (.rootParent type.name)
  | some c =>
    if (c.tip.type.related down).contains type.name then .ok ()
    else .error (.notRelated (.along down) type.name c.tip.type.name)

/-- Every ID has a component for each ID field of the type. -/
def checkIds (type : ObjectType) (ids : Option IdList) : Except PatternFault Unit :=
  match (ids.getD []).find? (fun id => id.length ≠ type.idFields.length) with
  | some id => .error (.idLength type.name type.idFields.length id.length)
  | none => .ok ()

def make (base : Option Chain) (down : Bool) (type : ObjectType) (ids : Option IdList)
    (matched : Bool) : Except PatternFault Chain := do
  checkBase base down type
  checkIds type ids
  pure ⟨⟨down, type, ids, matched⟩, base.elim [] Chain.steps⟩

theorem beq_iff {a b : Chain} : (a == b) = true ↔ a.outline = b.outline :=
  beq_iff_eq (a := a.outline)

instance : ReflBEq Chain := ⟨beq_iff.mpr rfl⟩

@[simp] theorem steps_mark (c : Chain) (matched : Bool) :
    (c.mark matched).steps = { c.tip with matched := matched } :: c.before := rfl

end Chain

end ObjectQuery

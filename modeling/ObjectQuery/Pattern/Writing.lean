import ObjectQuery.Pattern.Reading

/-! Writing of chains as pattern strings, a specification for each step from the root on. -/
namespace ObjectQuery

def Step.write (s : Step) : Except PatternFault (List Char) := do
  let ids ← match s.ids with
    | none => pure []
    | some ids => IdList.write ids
  pure ((if s.down then '>' else '<') :: s.type.name.toList ++ ids
    ++ if s.matched then ['#'] else [])

namespace Chain

def write (c : Chain) : Except PatternFault (List Char) := do
  pure (← c.steps.reverse.mapM Step.write).flatten

/-- The pattern string of a chain. There is none if a component of an ID cannot be written. -/
def text (c : Chain) : Except PatternFault String := do pure (String.ofList (← c.write))

/-- Whether the pattern string of a chain gives back this chain and no other. -/
def readsBack (schema : Schema) (c : Chain) : Except PatternFault Bool := do
  pure ((← parse schema (← c.text) none) == [c])

end Chain

end ObjectQuery

import ObjectQuery.Pattern.Writing

/-! Queries by pattern strings. A source answers lists of chains; a pattern string is answered by
the answer to its chains. -/
namespace ObjectQuery

/-- Something that answers lists of chains. -/
structure Source (α : Type) where
  answer : List Chain → Except PatternFault α

namespace Source

def query {α : Type} (source : Source α) (schema : Schema) (text : String)
    (lists : Option (List IdList)) : Except PatternFault α := do
  source.answer (← Chain.parse schema text lists)

/-- Puts a text at the end of the list under a name. -/
def addText (t : Table (List String)) (name text : String) : Table (List String) :=
  t.insert name ((t.get? name).getD [] ++ [text])

/-- The chains as pattern strings, listed in their order under the types that they select. -/
def texts : Source (Table (List String)) where
  answer chains := do
    let written ← chains.mapM fun c => do pure (c.tip.type.name, ← c.text)
    pure (written.foldl (fun t (name, text) => addText t name text) .empty)

end Source

end ObjectQuery

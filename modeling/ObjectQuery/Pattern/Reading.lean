import ObjectQuery.Pattern.Specification

/-! Reading of pattern strings. The specifications expand the frontier one after the other, from the
left; the frontier is empty at first. Each placeholder takes the next of the supplied ID lists. -/
namespace ObjectQuery

open Pattern

def IdSource.resolve (position : Nat) (lists : Option (List IdList)) :
    IdSource → Except PatternFault (Option IdList × Option (List IdList))
  | .absent => .ok (none, lists)
  | .placeholder =>
    match lists with
    | none => .error (.noIdLists position)
    | some [] => .error (.notEnoughIdLists position)
    | some (ids :: left) => .ok (some ids, some left)
  | .inline inner =>
    match IdList.read inner with
    | .ok ids => .ok (some ids, lists)
    | .error rest => .error (.invalidIdList (String.ofList inner) (bytes inner - bytes rest))

/-- A pattern string under way: how far it has been read, what is left of it, and what it has come
to so far. -/
structure Reading where
  position : Nat
  rest : List Char
  frontier : List Chain
  lists : Option (List IdList)

namespace Reading

def start (cs : List Char) (lists : Option (List IdList)) : Reading := ⟨0, cs, [], lists⟩

/-- Goes on by one specification, which stands at the position reached. -/
def step (schema : Schema) (r : Reading) (s : Specification) : Except PatternFault Reading := do
  let (ids, lists) ← s.ids.resolve r.position r.lists
  match Chain.expand schema r.frontier s.down s.target ids s.scope with
  | .ok frontier =>
    pure ⟨r.position + bytes s.text, r.rest.drop s.text.length, frontier, lists⟩
  | .error cause => throw (.expansion r.position (String.ofList r.rest) cause)

/-- All of the text must have been read and all of the lists must have been taken. -/
def finish (text : String) (r : Reading) : Except PatternFault (List Chain) :=
  if !r.rest.isEmpty then .error (.syntaxError text r.position (String.ofList r.rest))
  else match r.lists with
    | some (_ :: _) => .error (.tooManyIdLists text)
    | _ => .ok r.frontier

end Reading

def Chain.parse (schema : Schema) (text : String) (lists : Option (List IdList)) :
    Except PatternFault (List Chain) := do
  let specifications := (Specification.readAll text.toList).1
  (← specifications.foldlM (Reading.step schema) (.start text.toList lists)).finish text

end ObjectQuery

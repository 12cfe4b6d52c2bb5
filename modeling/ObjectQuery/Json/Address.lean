import ObjectQuery.Percent

/-! Addresses of JSON documents, as they stand before the `#` of a reference. They are relative to
the address of the document in which they stand, and that one has a path without steps; so an
address is the document's own where every step down is followed by a step up. -/
namespace ObjectQuery.Json

/-- A scheme stands before a colon and a host behind two slashes. The query starts with its question
mark. -/
structure Address where
  scheme : Option String
  authority : Option (List Char)
  path : List Char
  query : List Char

def isReferenceChar (c : Char) : Bool :=
  c.isAlphanum || "-._~!$&'()*+,;=:@/?".toList.contains c

namespace Address

def isScheme : List Char → Bool
  | c :: rest => c.isAlpha && rest.all fun d => d.isAlphanum || "+-.".toList.contains d
  | [] => false

/-- Before a slash a colon stands only behind a scheme, which may be written in capitals. -/
def scheme? (cs : List Char) : Option (Option String × List Char) :=
  let first := cs.takeWhile fun c => !"/?:".toList.contains c
  match cs.drop first.length with
  | ':' :: rest => if isScheme first then some (some (String.ofList first).toLower, rest) else none
  | _ => some (none, cs)

def splitAuthority : List Char → Option (List Char) × List Char
  | '/' :: '/' :: rest =>
    let goesOn (c : Char) := c ≠ '/' && c ≠ '?'
    (some (rest.takeWhile goesOn), rest.dropWhile goesOn)
  | cs => (none, cs)

/-- Hosts are not looked at any closer. -/
def read? (cs : List Char) : Option Address := do
  let (scheme, rest) ← scheme? cs
  let (authority, rest) := splitAuthority rest
  if Percent.isSpelled isReferenceChar rest then
    some ⟨scheme, authority, rest.takeWhile (· ≠ '?'), rest.dropWhile (· ≠ '?')⟩
  else none

/-- The steps of a path. Dots may be spelled as bytes. Nothing behind the last slash is no step. -/
def steps (path : List Char) : List String :=
  let steps := ((String.ofList path).splitOn "/").reverse
  let steps := if steps.head? = some "" then steps.tail else steps
  steps.reverse.map fun step => (Percent.decode? step.toList).getD step

/-- A step up from the root stays there. -/
def leadsHome (path : List Char) : Bool :=
  (steps path).foldl (fun depth step =>
    if step = ".." then depth - 1 else if step = "." then depth else depth + 1) 0 = 0

/-- The scheme of documents that were given no address. They have an empty host. -/
def ownScheme : String := "json-schema"

/-- Behind an empty host there may be a colon without a port. -/
def isOwnHost (authority : List Char) : Bool := authority = [] || authority = [':']

/-- Whether an address is that of the document in which it stands. -/
def isOwn (a : Address) : Bool :=
  let origin := match a.authority with
    | some authority => isOwnHost authority && !a.path.isEmpty && a.scheme.all (· = ownScheme)
    | none => a.scheme.isNone
  let path := if a.path.head? = some '/' then a.path.tail else a.path
  origin && leadsHome path && a.query.isEmpty

end Address

end ObjectQuery.Json

import ObjectQuery.Json.Address
import ObjectQuery.Json.Basic

/-! References from a place in a JSON document to another one. Behind the address of a document and
`#` stands a pointer: the steps that lead there from the root, each behind a slash. Only the
document in which a reference stands can be addressed. -/
namespace ObjectQuery.Json

/-! ### Pointers -/

/-- Undoes the escapes of a step: ~1 is a slash and ~0 a tilde. -/
def unescapeStep : List Char → List Char
  | '~' :: '1' :: rest => '/' :: unescapeStep rest
  | '~' :: '0' :: rest => '~' :: unescapeStep rest
  | c :: rest => c :: unescapeStep rest
  | [] => []

/-- The steps of a pointer. Bytes become characters before slashes are looked for. -/
def steps? : List Char → Option (List String)
  | [] => some []
  | '/' :: path => (Percent.decode? path).map fun text =>
    (text.toList.splitOn '/').map fun step => String.ofList (unescapeStep step)
  | _ => none

/-- The number of an item may have a plus before it. -/
def index? (step : String) : Option Nat :=
  Decimal.valueIn? 10 (match step.toList with
    | '+' :: ds => ds
    | ds => ds)

def child? (v : Json) (step : String) : Option Json :=
  match v with
  | .obj members => members.lookup step
  | .arr items => (index? step).bind (items[·]?)
  | _ => none

/-! ### References -/

/-- The address before the first `#`, and the pointer behind it. -/
def splitReference (reference : String) : List Char × List Char :=
  let cs := reference.toList
  (cs.takeWhile (· ≠ '#'), (cs.dropWhile (· ≠ '#')).drop 1)

/-- A reference to a place in its own document. Where an address is given the pointer has to be well
spelled, whether it is followed or not. -/
def isLocal (reference : String) : Bool :=
  let (address, pointer) := splitReference reference
  address.isEmpty
    || (Address.read? address).any Address.isOwn && Percent.isSpelled isReferenceChar pointer

/-- The value at the place to which a reference leads. -/
def at? (root : Json) (reference : String) : Option Json :=
  let pointer := (splitReference reference).2
  if isLocal reference && Percent.isSpelled isReferenceChar pointer then
    (steps? pointer).bind fun steps => steps.foldlM child? root
  else none

end ObjectQuery.Json

import ObjectQuery.Json.Token

/-! Documents as far as they could be read. A text that breaks off leaves a document whose open
lists and tables are marked as unfinished, so that whoever reads the document from its start meets
the faults of its content and the fault of its text in the order in which they stand. -/
namespace ObjectQuery

/-- A word has two readings: its text where a text is wanted, and a value elsewhere. What is
`valueless` can be read only where a text, a list or a table is wanted. -/
inductive Document where
  | atom (value : Json)
  | text (value : String)
  | word (text : String) (value : Json)
  | list (items : List Document) (finished : Bool)
  | table (members : List (String × Document)) (finished : Bool)
  | valueless (content : Document)
  | broken

namespace Document

def text? : Document → Option String
  | .text value => some value
  | .word own _ => some own
  | .valueless content => content.text?
  | _ => none

/-- An empty word also stands for an empty list. -/
def items? : Document → Option (List Document)
  | .list items true => some items
  | .word "" _ => some []
  | .valueless content => content.items?
  | _ => none

def texts? (d : Document) : Option (List String) := d.items?.bind fun items => items.mapM text?

/-- An empty word also stands for an empty table. -/
def members? : Document → Option (List (String × Document))
  | .table members true => some members
  | .word "" _ => some []
  | .valueless content => content.members?
  | _ => none

mutual

/-- The value of a document that was read to its end. -/
def json? : Document → Option Json
  | .atom value => some value
  | .text value => some (.str value)
  | .word _ value => some value
  | .list items finished => if finished then (jsonItems? items).map .arr else none
  | .table members finished => if finished then (jsonMembers? members).map Json.object else none
  | .valueless _ => none
  | .broken => none

def jsonItems? : List Document → Option (List Json)
  | [] => some []
  | d :: rest => do some ((← d.json?) :: (← jsonItems? rest))

def jsonMembers? : List (String × Document) → Option (List (String × Json))
  | [] => some []
  | (name, d) :: rest => do some ((name, ← d.json?) :: (← jsonMembers? rest))

end

/-- A list or table under way, with its parts in reverse. `member` waits for the value of a name. -/
inductive Frame where
  | list (items : List Document)
  | table (members : List (String × Document))
  | member (members : List (String × Document)) (name : String)

/-- What may come next. `first` stands behind an opening bracket, `after` behind a part, and `rest`
behind the whole document. -/
inductive Want where
  | value
  | first
  | firstName
  | name
  | colon
  | after
  | rest

/-- The document is given once the reader has come to its end or to a fault. -/
inductive Reader where
  | reading (stack : List Frame) (want : Want)
  | complete (document : Document)
  | failed (document : Document)

namespace Reader

def maxDepth : Nat := 127

/-- Hands a finished part to the innermost frame. -/
def give (d : Document) : List Frame → Reader
  | [] => .complete d
  | .list items :: stack => .reading (.list (d :: items) :: stack) .after
  | .table members :: stack => .reading (.table members :: stack) .after
  | .member members name :: stack => .reading (.table ((name, d) :: members) :: stack) .after

/-- Closes all frames as unfinished, the innermost around what it was to receive. -/
def abandon (d : Document) : List Frame → Document
  | [] => d
  | .list items :: stack => abandon (.list (d :: items).reverse false) stack
  | .table members :: stack => abandon (.table members.reverse false) stack
  | .member members name :: stack => abandon (.table ((name, d) :: members).reverse false) stack

def fail (stack : List Frame) : Reader := .failed (abandon .broken stack)

def enter (stack : List Frame) (frame : Frame) (want : Want) : Reader :=
  if stack.length < maxDepth then .reading (frame :: stack) want else fail stack

def take (stack : List Frame) : Json.Token → Reader
  | .openArray => enter stack (.list []) .first
  | .openObject => enter stack (.table []) .firstName
  | .text s => give (.text s) stack
  | .atom v => give (.atom v) stack
  | _ => fail stack

def step : Reader → Json.Token → Reader
  | .reading stack .value, t => take stack t
  | .reading (.list items :: stack) .first, .closeArray => give (.list items.reverse true) stack
  | .reading stack .first, t => take stack t
  | .reading (.table members :: stack) .firstName, .closeObject =>
    give (.table members.reverse true) stack
  | .reading (.table members :: stack) .firstName, .text s =>
    .reading (.member members s :: stack) .colon
  | .reading (.table members :: stack) .name, .text s =>
    .reading (.member members s :: stack) .colon
  | .reading stack .colon, .colon => .reading stack .value
  | .reading (.list items :: stack) .after, .closeArray => give (.list items.reverse true) stack
  | .reading (.list items :: stack) .after, .comma => .reading (.list items :: stack) .value
  | .reading (.table members :: stack) .after, .closeObject =>
    give (.table members.reverse true) stack
  | .reading (.table members :: stack) .after, .comma => .reading (.table members :: stack) .name
  | .reading stack _, _ => fail stack
  | .complete d, _ => .failed d
  | .failed d, _ => .failed d

/-- The document, and whether the text was well formed to its end. -/
def finish : Reader → Document × Bool
  | .reading stack _ => (abandon .broken stack, false)
  | .complete d => (d, true)
  | .failed d => (d, false)

end Reader

def ofTokens (ts : List Json.Token) : Document × Bool :=
  (ts.foldl Reader.step (.reading [] .value)).finish

/-- Reads JSON text. -/
def ofJsonText (cs : List Char) : Document × Bool := ofTokens (Json.Token.scan cs)

end Document

/-- The value that a JSON text stands for. -/
def Json.read? (cs : List Char) : Option Json :=
  let (d, whole) := Document.ofJsonText cs
  if whole then d.json? else none

end ObjectQuery

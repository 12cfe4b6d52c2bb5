import ObjectQuery.Percent
import ObjectQuery.Yaml.Text

/-! What may stand before a node: the name of an anchor and a tag. A tag is written with a handle,
of which a directive at the start of the document tells what it stands for. -/
namespace ObjectQuery.Yaml.Property

open Text

def isNameChar (c : Char) : Bool := c.isAlphanum || c = '_' || c = '-'

def name? (t : Text) : Option (String × Text) :=
  let name := takeRun isNameChar t
  let rest := dropRun isNameChar t
  if name.isEmpty then none
  else if isGap (peek rest) || "?:,]\x7d%@\x60".toList.contains (peek rest) then
    some (String.ofList name, rest)
  else none

/-! ### Tags -/

/-- A tag as it is written. Without a handle the suffix is the whole tag. -/
structure Tag where
  handle : String
  suffix : String
  deriving DecidableEq, Repr

def isTagChar (c : Char) : Bool := isNameChar c || ";/?:@&=+$.%!~*'()".toList.contains c

def isVerbatimChar (c : Char) : Bool := isTagChar c || ",[]".toList.contains c

def run? (allowed : Char → Bool) (t : Text) : Option (String × Text) :=
  (Percent.decode? (takeRun allowed t)).map fun run => (run, dropRun allowed t)

def nonempty? (r : String × Text) : Option (String × Text) := if r.1 = "" then none else some r

/-- Reads a tag from its exclamation mark on. What stands between two of them is its handle. A lone
one is a tag of its own. -/
def readTag? (t : Text) : Option (Tag × Text) := do
  let t := t.drop 1
  if peek t = '<' then
    let (tag, rest) ← (run? isVerbatimChar (t.drop 1)).bind nonempty?
    if peek rest = '>' then some (⟨"", tag⟩, rest.drop 1) else none
  else
    let name := String.ofList (takeRun isNameChar t)
    let rest := dropRun isNameChar t
    if peek rest = '!' then
      let (suffix, rest) ← (run? isTagChar (rest.drop 1)).bind nonempty?
      some (⟨"!" ++ name ++ "!", suffix⟩, rest)
    else
      let (more, rest) ← run? isTagChar rest
      let suffix := name ++ more
      some (if suffix = "" then ⟨"", "!"⟩ else ⟨"!", suffix⟩, rest)

/-- A tag ends before a gap, within brackets also before a comma. -/
def tag? (inside : Bool) (t : Text) : Option (Tag × Text) :=
  (readTag? t).filter fun (_, rest) => isGap (peek rest) || inside && peek rest = ','

/-! ### Directives -/

inductive Directive where
  | version (major minor : Nat)
  | handle (handle value : String)
  deriving DecidableEq, Repr

/-- At most nine digits, at least one. -/
def number? (t : Text) : Option (Nat × Text) :=
  let ds := takeRun Decimal.isDigit t
  if ds.isEmpty || 9 < ds.length then none
  else some (Decimal.value ds, dropRun Decimal.isDigit t)

def version? (t : Text) : Option (Directive × Text) := do
  let (major, rest) ← number? t
  if peek rest = '.' then
    let (minor, rest) ← number? (rest.drop 1)
    some (.version major minor, rest)
  else none

def skipBlanks (t : Text) : Text := dropRun isBlank t

def handle? (t : Text) : Option (Directive × Text) := do
  if peek t = '!' then
    let name := String.ofList (takeRun isNameChar (t.drop 1))
    let rest := dropRun isNameChar (t.drop 1)
    let (handle, rest) ←
      if peek rest = '!' then some ("!" ++ name ++ "!", rest.drop 1)
      else if name = "" then some ("!", rest)
      else none
    if isBlank (peek rest) then
      let (value, rest) ← (run? isVerbatimChar (skipBlanks rest)).bind nonempty?
      if isGap (peek rest) then some (.handle handle value, rest) else none
    else none
  else none

/-- Reads a directive from its percent sign on. Only a comment may follow on its line. -/
def directive? (t : Text) : Option (Directive × Text) := do
  let t := t.drop 1
  let name := String.ofList (takeRun isNameChar t)
  let rest := dropRun isNameChar t
  if isGap (peek rest) then
    let rest := skipBlanks rest
    let (directive, rest) ←
      if name = "YAML" then version? rest else if name = "TAG" then handle? rest else none
    let rest := skipBlanks rest
    let rest := if peek rest = '#' then dropRun (!isBreak ·) rest else rest
    if rest.isEmpty || isBreak (peek rest) then some (directive, rest) else none
  else none

/-- The first handle stands for itself, the second for the tags that the language defines. -/
def commonHandles : List (String × String) := [("!", "!"), ("!!", "tag:yaml.org,2002:")]

/-- The handles that the directives of a document set. The version is given at most once, each
handle too. -/
def handles? (directives : List Directive) : Option (List (String × String)) :=
  let versions := directives.filterMap fun
    | .version major minor => some (major, minor)
    | _ => none
  let handles := directives.filterMap fun
    | .handle handle value => some (handle, value)
    | _ => none
  if versions.length ≤ 1 && versions.all (fun v => v = (1, 1) || v = (1, 2))
      && (handles.map Prod.fst).Nodup then
    some (handles ++ commonHandles)
  else none

def Tag.full? (handles : List (String × String)) (tag : Tag) : Option String :=
  if tag.handle = "" then some tag.suffix
  else (handles.lookup tag.handle).map (· ++ tag.suffix)

end ObjectQuery.Yaml.Property

import ObjectQuery.Table
import ObjectQuery.Yaml.Paragraph
import ObjectQuery.Yaml.Property
import ObjectQuery.Yaml.Scalar

/-! Tokens of YAML texts. Outside of brackets the columns in which lines start tell where blocks
start and end. Whether a token is a key shows only when a colon follows, so signs for keys, and for
the blocks that they start, are put in behind tokens that have been read already. -/
namespace ObjectQuery.Yaml

/-- Anchors are told apart by the number of other names that were anchored before. A block ends
with `blockEnd` whatever it is. -/
inductive Token where
  | directive (directive : Property.Directive)
  | documentStart
  | documentEnd
  | blockList
  | blockTable
  | blockEnd
  | openList
  | closeList
  | openTable
  | closeTable
  | comma
  | dash
  | key
  | value
  | anchor (slot : Nat)
  | alias (slot : Nat)
  | tag (tag : Property.Tag)
  | scalar (text : String) (bare : Bool)
  deriving DecidableEq, Repr

/-- A token that becomes a key if a colon follows on its line. It stands behind `position` other
tokens. One that starts a line of a block has to become a key. -/
structure Candidate where
  position : Nat
  line : Nat
  column : Nat
  required : Bool

/-- The tokens so far, the last one first, and their number, with the columns of the open blocks,
the innermost first. `keyAllowed` tells whether the next token may be a key. `candidate` is the last
token that may be one, and `outer` holds such tokens from outside of every open bracket. -/
structure Lexer where
  tokens : List Token
  count : Nat
  blocks : List Nat
  keyAllowed : Bool
  candidate : Option Candidate
  outer : List (Option Candidate)
  names : Table Nat

namespace Lexer

open Text

def initial : Lexer := ⟨[], 0, [], true, none, [], .empty⟩

/-- Within brackets columns mean nothing. -/
def inside (s : Lexer) : Bool := !s.outer.isEmpty

def emit (s : Lexer) (t : Token) : Lexer :=
  { s with tokens := t :: s.tokens, count := s.count + 1 }

def allowKey (s : Lexer) (allowed : Bool) : Lexer := { s with keyAllowed := allowed }

/-! ### Gaps -/

/-- Goes over spaces, comments and breaks, and over a byte order mark that starts a line. A tab is
no indentation: it may stand only where no key can start. Behind a break a key can start. -/
def skip (s : Lexer) (comment : Bool) : Text → Lexer × Text
  | [] => (s, [])
  | p :: rest =>
    if isBreak p.char then skip (if s.inside then s else s.allowKey true) false rest
    else if comment then skip s true rest
    else if p.column = 0 && p.char = byteOrderMark then skip s false rest
    else if p.char = ' ' then skip s false rest
    else if p.char = '\t' && (s.inside || !s.keyAllowed) then skip s false rest
    else if p.char = '#' then skip s true rest
    else (s, p :: rest)

/-! ### Keys -/

/-- So many characters may stand between the start of a key and its colon. -/
def maxKey : Nat := 1024

def Candidate.isStale (k : Candidate) (p : Spot) : Bool :=
  k.line < p.line || k.column + maxKey < p.column

/-- Gives up a candidate, unless it has to become a key. -/
def giveUp? : Option Candidate → Option (Option Candidate)
  | some k => if k.required then none else some none
  | none => some none

def refresh? (s : Lexer) (p : Spot) : Option Lexer := do
  let check (k : Option Candidate) : Option (Option Candidate) :=
    if k.any (Candidate.isStale · p) then giveUp? k else some k
  some { s with candidate := ← check s.candidate, outer := ← s.outer.mapM check }

def dropCandidate? (s : Lexer) : Option Lexer := do
  some { s with candidate := ← giveUp? s.candidate }

/-- The next token becomes the candidate if it may be a key. -/
def mark? (s : Lexer) (p : Spot) : Option Lexer := do
  if s.keyAllowed then
    let s ← s.dropCandidate?
    let required := !s.inside && s.blocks.head? = some p.column
    some { s with candidate := some ⟨s.count, p.line, p.column, required⟩ }
  else some s

/-! ### Blocks -/

def endBlocks (s : Lexer) (column : Nat) : Lexer :=
  if s.inside then s
  else
    let ended := s.blocks.takeWhile (column < ·)
    { ended.foldl (fun s _ => s.emit .blockEnd) s with blocks := s.blocks.drop ended.length }

def endAllBlocks (s : Lexer) : Lexer :=
  if s.inside then s
  else { s.blocks.foldl (fun s _ => s.emit .blockEnd) s with blocks := [] }

/-- A block starts in a column to the right of that of the block around. -/
def startsBlock (s : Lexer) (column : Nat) : Bool :=
  !s.inside && s.blocks.head?.all (· < column)

def startBlock (s : Lexer) (column : Nat) (t : Token) : Lexer :=
  if s.startsBlock column then { (s.emit t) with blocks := column :: s.blocks } else s

def makeKey (s : Lexer) (k : Candidate) : Lexer :=
  let later := s.count - k.position
  let starts := s.startsBlock k.column
  let signs := if starts then [Token.key, .blockTable] else [.key]
  { s with
    tokens := s.tokens.take later ++ signs ++ s.tokens.drop later
    count := s.count + signs.length
    blocks := if starts then k.column :: s.blocks else s.blocks
    candidate := none
    keyAllowed := false }

/-! ### Tokens -/

def openBracket? (s : Lexer) (p : Spot) (t : Token) : Option Lexer := do
  let s ← s.mark? p
  some ({ s with outer := s.candidate :: s.outer, candidate := none, keyAllowed := true }.emit t)

def closeBracket? (s : Lexer) (t : Token) : Option Lexer := do
  let s ← s.dropCandidate?
  match s.outer with
  | candidate :: outer =>
    some ({ s with candidate := candidate, outer := outer, keyAllowed := false }.emit t)
  | [] => some ((s.allowKey false).emit t)

def comma? (s : Lexer) : Option Lexer := do
  some (((← s.dropCandidate?).allowKey true).emit .comma)

/-- Outside of brackets a sign that starts a part of a block may stand only where a key may. -/
def partStart? (s : Lexer) (p : Spot) (block : Token) : Option Lexer :=
  if s.inside then some s
  else if s.keyAllowed then some (s.startBlock p.column block)
  else none

def dash? (s : Lexer) (p : Spot) : Option Lexer := do
  let s ← s.partStart? p .blockList
  some (((← s.dropCandidate?).allowKey true).emit .dash)

def key? (s : Lexer) (p : Spot) : Option Lexer := do
  let s ← s.partStart? p .blockTable
  some (((← s.dropCandidate?).allowKey (!s.inside)).emit .key)

def value? (s : Lexer) (p : Spot) : Option Lexer :=
  match s.candidate with
  | some k => some ((s.makeKey k).emit .value)
  | none => (s.partStart? p .blockTable).map fun s => (s.allowKey (!s.inside)).emit .value

def word? (s : Lexer) (p : Spot) (t : Token) : Option Lexer :=
  (s.mark? p).map fun s => (s.allowKey false).emit t

def anchor? (s : Lexer) (p : Spot) (name : String) : Option Lexer :=
  let slot := s.names.size
  word? { s with names := s.names.insert name slot } p (.anchor slot)

def alias? (s : Lexer) (p : Spot) (name : String) : Option Lexer :=
  (s.names.get? name).bind fun slot => s.word? p (.alias slot)

/-- A bare scalar that ends behind a break leaves the place where a key can start. -/
def bare? (s : Lexer) (p : Spot) (t : Text) : Option (Lexer × Text) := do
  let indent := (s.blocks.head?.map (· + 1)).getD 0
  let scalar ← Scalar.bare? s.inside indent [] t
  let s ← s.word? p (.scalar (String.ofList scalar.text) true)
  some (if scalar.broken then s.allowKey true else s, scalar.rest)

def quoted? (s : Lexer) (p : Spot) (r : List Char × Text) : Option (Lexer × Text) := do
  some (← s.word? p (.scalar (String.ofList r.1) false), r.2)

def paragraph? (s : Lexer) (folded : Bool) (t : Text) : Option (Lexer × Text) := do
  let s ← s.dropCandidate?
  let (text, rest) ← Paragraph.read? folded s.blocks.head? t
  some ((s.allowKey true).emit (.scalar (String.ofList text) false), rest)

def outermost? (s : Lexer) (t : Token) : Option Lexer := do
  some (((← s.endAllBlocks.dropCandidate?).allowKey false).emit t)

/-- Characters that start no bare scalar. -/
def isIndicator (c : Char) : Bool :=
  "-?:,[]\x7b\x7d#&*!|>'\"%@\x60".toList.contains c

/-- A dash starts a scalar before anything but a blank. Outside of brackets a question mark and a
colon do so before anything but a gap. -/
def startsBare (inside : Bool) (c next : Char) : Bool :=
  !isGap c && !isIndicator c || c = '-' && !isBlank next
    || !inside && (c = '?' || c = ':') && !isGap next

def next? (s : Lexer) (p : Spot) (rest : Text) : Option (Lexer × Text) :=
  let t := p :: rest
  let ends := isGap (peek rest)
  let one (s : Option Lexer) : Option (Lexer × Text) := s.map (·, rest)
  if p.column = 0 && p.char = '%' then do
    let (directive, rest) ← Property.directive? t
    some (← s.outermost? (.directive directive), rest)
  else if isDivider t then
    (s.outermost? (if p.char = '-' then .documentStart else .documentEnd)).map (·, t.drop 3)
  else match p.char with
    | '[' => one (s.openBracket? p .openList)
    | '\x7b' => one (s.openBracket? p .openTable)
    | ']' => one (s.closeBracket? .closeList)
    | '\x7d' => one (s.closeBracket? .closeTable)
    | ',' => one s.comma?
    | '*' => do let (name, rest) ← Property.name? rest; some (← s.alias? p name, rest)
    | '&' => do let (name, rest) ← Property.name? rest; some (← s.anchor? p name, rest)
    | '!' => do let (tag, rest) ← Property.tag? s.inside t; some (← s.word? p (.tag tag), rest)
    | '\'' => (Scalar.single? [] rest).bind (s.quoted? p)
    | '"' => (Scalar.double? .word rest).bind (s.quoted? p)
    | c =>
      if c = '-' && ends then one (s.dash? p)
      else if c = '?' && (s.inside || ends) then one (s.key? p)
      else if c = ':' && (s.inside || ends) then one (s.value? p)
      else if c = '|' && !s.inside then s.paragraph? false rest
      else if c = '>' && !s.inside then s.paragraph? true rest
      else if startsBare s.inside c (peek rest) then s.bare? p t
      else none

/-- At the end no key may be missing. -/
def finish? (s : Lexer) : Option (List Token) :=
  s.endAllBlocks.dropCandidate?.map fun s => s.tokens.reverse

def scanFrom? (s : Lexer) : (most : Nat) → Text → Option (List Token)
  | 0, _ => none
  | most + 1, t =>
    match s.skip false t with
    | (s, []) => s.finish?
    | (s, p :: rest) => do
      let s ← s.refresh? p
      let (s, rest) ← (s.endBlocks p.column).next? p rest
      scanFrom? s most rest

end Lexer

/-- Every token takes characters, so there are not more of them than characters. -/
def Token.scan? (t : Text) : Option (List Token) := Lexer.initial.scanFrom? (t.length + 1) t

end ObjectQuery.Yaml

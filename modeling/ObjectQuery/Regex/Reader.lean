import ObjectQuery.Decimal.Digits
import ObjectQuery.Regex.Basic

/-! Regular expressions read from text, one character at a time: literals, sets, groups,
alternatives, counts, anchors and the point, which stands for any character but a line feed. Left
out are classes of Unicode (`\p`), boundaries of words (`\b`), characters by their codes (`\x`,
`\u`), references to groups, and all groups that are named or look ahead or behind. An expression
with one of these is not read. -/
namespace ObjectQuery.Regex

/-- Alternatives and the items of the last one, in reverse. -/
structure Group where
  alternatives : List Regex
  items : List Regex

def Group.close (g : Group) : Regex :=
  let last := g.items.foldl (fun r item => mkSeq item r) .empty
  g.alternatives.foldl (fun r a => .alt a r) last

inductive Mode where
  | plain
  | escape
  | group (marked : Bool)
  | set (seen : List (Char × Bool))
  | setEscape (seen : List (Char × Bool))
  | count (seen : List Char)

structure Reader where
  mode : Mode
  top : Group
  outer : List Group

def digitRanges : List (Char × Char) := [('0', '9')]
def wordRanges : List (Char × Char) := [('0', '9'), ('A', 'Z'), ('_', '_'), ('a', 'z')]
def blankRanges : List (Char × Char) := [('\t', '\r'), (' ', ' ')]

/-- The characters that an escape stands for. -/
def escaped? (c : Char) : Option CharSet :=
  if c = 'd' then some ⟨digitRanges, false⟩
  else if c = 'D' then some ⟨digitRanges, true⟩
  else if c = 'w' then some ⟨wordRanges, false⟩
  else if c = 'W' then some ⟨wordRanges, true⟩
  else if c = 's' then some ⟨blankRanges, false⟩
  else if c = 'S' then some ⟨blankRanges, true⟩
  else if c = 'n' then some (.single '\n')
  else if c = 'r' then some (.single '\r')
  else if c = 't' then some (.single '\t')
  else if c.isAlphanum then none
  else some (.single c)

/-- The ranges between brackets. A dash at either end stands for itself. -/
def ranges? : List (Char × Bool) → Option (List (Char × Char))
  | [] => some []
  | (a, false) :: ('-', false) :: (b, false) :: rest =>
    if a ≤ b then (ranges? rest).map ((a, b) :: ·) else none
  | (a, false) :: rest => (ranges? rest).map ((a, a) :: ·)
  | (a, true) :: rest => do
    let set ← escaped? a
    if set.negated then none else some (set.ranges ++ (← ranges? rest))

def set? : List (Char × Bool) → Option CharSet
  | ('^', false) :: rest => if rest.isEmpty then none else (ranges? rest).map (⟨·, true⟩)
  | seen => if seen.isEmpty then none else (ranges? seen).map (⟨·, false⟩)

def number? (cs : List Char) : Option Nat :=
  if !cs.isEmpty && cs.all Decimal.isDigit then some (Decimal.value cs) else none

def bounds? (cs : List Char) : Option (Nat × Option Nat) := do
  let least ← number? (cs.takeWhile (· ≠ ','))
  match cs.dropWhile (· ≠ ',') with
  | [] => some (least, some least)
  | [_] => some (least, none)
  | _ :: most =>
    let most ← number? most
    if least ≤ most then some (least, some most) else none

namespace Reader

def start : Reader := ⟨.plain, ⟨[], []⟩, []⟩

def push (s : Reader) (r : Regex) : Reader :=
  { s with mode := .plain, top := { s.top with items := r :: s.top.items } }

/-- A count needs an item before it. -/
def repeatLast? (s : Reader) (least : Nat) (most : Option Nat) : Option Reader :=
  match s.top.items with
  | [] => none
  | r :: rest =>
    some { s with mode := .plain, top := { s.top with items := .repeated r least most :: rest } }

def plain? (s : Reader) (c : Char) : Option Reader :=
  if c = '\\' then some { s with mode := .escape }
  else if c = '(' then some ⟨.group false, ⟨[], []⟩, s.top :: s.outer⟩
  else if c = ')' then match s.outer with
    | [] => none
    | g :: outer => some ⟨.plain, { g with items := s.top.close :: g.items }, outer⟩
  else if c = '|' then
    some { s with top := ⟨Group.close ⟨[], s.top.items⟩ :: s.top.alternatives, []⟩ }
  else if c = '[' then some { s with mode := .set [] }
  else if c = '\x7b' then some { s with mode := .count [] }
  else if c = '*' then s.repeatLast? 0 none
  else if c = '+' then s.repeatLast? 1 none
  else if c = '?' then s.repeatLast? 0 (some 1)
  else if c = '^' then some (s.push .start)
  else if c = '$' then some (s.push .stop)
  else if c = '.' then some (s.push (.one .lineChar))
  else some (s.push (.one (.single c)))

def step? (s : Reader) (c : Char) : Option Reader :=
  match s.mode with
  | .plain => s.plain? c
  | .escape => (escaped? c).map fun set => s.push (.one set)
  | .group false =>
    if c = '?' then some { s with mode := .group true } else plain? { s with mode := .plain } c
  | .group true => if c = ':' then some { s with mode := .plain } else none
  | .set seen =>
    if c = ']' then (set? seen.reverse).map fun set => s.push (.one set)
    else if c = '\\' then some { s with mode := .setEscape seen }
    else some { s with mode := .set ((c, false) :: seen) }
  | .setEscape seen => some { s with mode := .set ((c, true) :: seen) }
  | .count seen =>
    if c = '\x7d' then (bounds? seen.reverse).bind fun (least, most) => s.repeatLast? least most
    else some { s with mode := .count (c :: seen) }

def finish? (s : Reader) : Option Regex :=
  match s.mode, s.outer with
  | .plain, [] => some s.top.close
  | _, _ => none

end Reader

def read? (cs : List Char) : Option Regex := do (← cs.foldlM Reader.step? .start).finish?

end ObjectQuery.Regex

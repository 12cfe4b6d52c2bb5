import ObjectQuery.Decimal.Digits
import ObjectQuery.Yaml.Text

/-! Scalars that are written as a block of lines below their sign, with an indentation that is no
part of them. Either every break is kept, or lines are folded: a break between two lines that start
with words counts as a space. -/
namespace ObjectQuery.Yaml.Paragraph

open Text

inductive Tail where
  | clip
  | strip
  | keep
  deriving DecidableEq, Repr

/-- What may follow the sign. The indentation is counted from that of the block around. -/
structure Header where
  tail : Tail
  indent : Option Nat

def tail? (c : Char) : Option Tail :=
  if c = '+' then some .keep else if c = '-' then some .strip else none

/-- The two indicators stand in either order. No indentation is zero. -/
def header? (t : Text) : Option (Header × Text) :=
  let readIndent (t : Text) : Option (Option Nat × Text) :=
    match t with
    | p :: rest =>
      if p.char = '0' then none
      else if Decimal.isDigit p.char then some (some (Decimal.digitValue p.char), rest)
      else some (none, t)
    | [] => some (none, [])
  match tail? (peek t) with
  | some tail => (readIndent (t.drop 1)).map fun (indent, rest) => (⟨tail, indent⟩, rest)
  | none => (readIndent t).map fun (indent, rest) =>
    match indent, tail? (peek rest) with
    | some _, some tail => (⟨tail, indent⟩, rest.drop 1)
    | _, _ => (⟨.clip, indent⟩, rest)

/-- The text below the line of the sign, on which only a comment may follow. -/
def below? (t : Text) : Option Text :=
  let t := dropRun isBlank t
  let t := if peek t = '#' then dropRun (!isBreak ·) t else t
  match t with
  | [] => some []
  | p :: rest => if isBreak p.char then some rest else none

/-- The most spaces before the first character of a line, up to the first line that holds more than
spaces. No tab may stand there. -/
def deepest? (most : Nat) : Text → Option Nat
  | [] => some most
  | p :: rest =>
    if p.char = ' ' then deepest? (max most (p.column + 1)) rest
    else if isBreak p.char then deepest? most rest
    else if p.char = '\t' then none
    else some most

/-- The lines read so far, their last character first, with the break behind the last one and those
of the empty lines that follow it. `blank` tells whether the last line starts with a blank. -/
structure Lines where
  text : List Char
  ending : List Char
  empties : List Char
  blank : Bool

namespace Lines

def empty : Lines := ⟨[], [], [], false⟩

def start (s : Lines) (folded : Bool) (c : Char) : Lines :=
  let ending :=
    if folded && s.ending = ['\n'] && !s.blank && !isBlank c then
      if s.empties.isEmpty then [' '] else []
    else s.ending
  ⟨c :: (s.empties.reverse ++ (ending ++ s.text)), [], [], isBlank c⟩

def finish (s : Lines) : Tail → List Char
  | .strip => s.text.reverse
  | .clip => s.text.reverse ++ s.ending
  | .keep => s.text.reverse ++ s.ending ++ s.empties

end Lines

/-- Reads on within a line, or before one. Every line starts in the column `indent`; the first one
that starts further to the left ends the scalar. -/
def lines? (folded : Bool) (indent : Nat) (within : Bool) (s : Lines) : Text → Option (Lines × Text)
  | [] => some (s, [])
  | p :: rest =>
    if within then
      if isBreak p.char then lines? folded indent false { s with ending := [p.char] } rest
      else lines? folded indent true { s with text := p.char :: s.text } rest
    else if p.column < indent && p.char = ' ' then lines? folded indent false s rest
    else if isBreak p.char then
      lines? folded indent false { s with empties := s.empties ++ [p.char] } rest
    else if p.column < indent then if p.char = '\t' then none else some (s, p :: rest)
    else lines? folded indent true (s.start folded p.char) rest

/-- The scalar below its sign and the text behind it. `outer` is the column of the block around. -/
def read? (folded : Bool) (outer : Option Nat) (t : Text) : Option (List Char × Text) := do
  let (header, t) ← header? t
  let t ← below? t
  let least := (outer.map (· + 1)).getD 0
  let indent ← match header.indent with
    | some n => some ((outer.getD 0) + n)
    | none => (deepest? 0 t).map fun most => max (max most least) 1
  let (s, rest) ← lines? folded indent false .empty t
  some (s.finish header.tail, rest)

end ObjectQuery.Yaml.Paragraph

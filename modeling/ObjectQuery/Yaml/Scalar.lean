import ObjectQuery.Decimal.Radix
import ObjectQuery.Yaml.Text

/-! Scalars on one or more lines: bare ones and those in quotes. A gap between two words is kept as
it is if it lies within a line. Otherwise one break counts as a space, and of several the first
counts for nothing. -/
namespace ObjectQuery.Yaml.Scalar

open Text

/-! ### Gaps -/

def isBroken (gap : List Char) : Bool := gap.any isBreak

/-- What a gap between two words stands for. -/
def fold (gap : List Char) : List Char :=
  match gap.filter isBreak with
  | [] => gap
  | ['\n'] => [' ']
  | '\n' :: breaks => breaks
  | breaks => breaks

/-! ### Bare scalars -/

/-- A bare scalar with what follows it. A gap at its end is no part of it; `broken` tells whether a
line ended there. -/
structure Bare where
  text : List Char
  broken : Bool
  rest : Text

/-- Within brackets a colon may not touch any of these. -/
def clashes (next : Char) : Bool := [',', '?', '[', ']', '\x7b', '\x7d'].contains next

def isBracket (c : Char) : Bool := [',', '[', ']', '\x7b', '\x7d'].contains c

def endsWord (inside : Bool) (c next : Char) : Bool :=
  c = ':' && isGap next || inside && isBracket c

/-- Behind a gap the scalar ends before a comment, before a divider, and outside of brackets where
a line starts too far to the left. -/
def endsBehindGap (inside : Bool) (indent : Nat) : Text → Bool
  | [] => true
  | p :: rest => !inside && p.column < indent || p.char = '#' || isDivider (p :: rest)

/-- Reads on behind a gap, which is empty within a word. Lines go on from the column `indent`, and
before it no tab may stand. -/
def bare? (inside : Bool) (indent : Nat) (gap : List Char) : Text → Option Bare
  | [] => some ⟨[], isBroken gap, []⟩
  | p :: rest =>
    if isSpace p.char then
      if isBroken gap && p.char = '\t' && p.column < indent then none
      else bare? inside indent (gap ++ [p.char]) rest
    else if !gap.isEmpty && endsBehindGap inside indent (p :: rest) then
      some ⟨[], isBroken gap, p :: rest⟩
    else if inside && p.char = ':' && clashes (peek rest) then none
    else if endsWord inside p.char (peek rest) then some ⟨[], isBroken gap, p :: rest⟩
    else (bare? inside indent [] rest).map fun s => { s with text := fold gap ++ p.char :: s.text }

/-! ### Quoted scalars -/

def before (cs : List Char) (r : List Char × Text) : List Char × Text := (cs ++ r.1, r.2)

/-- Reads on behind a gap. A quote that is written twice does not end the scalar. -/
def single? (gap : List Char) : Text → Option (List Char × Text)
  | [] => none
  | p :: rest =>
    if isSpace p.char then single? (gap ++ [p.char]) rest
    else if isDivider (p :: rest) then none
    else if p.char = '\'' then
      match rest with
      | [] => some (fold gap, [])
      | q :: rest =>
        if q.char = '\'' then (single? [] rest).map (before (fold gap ++ ['\'']))
        else some (fold gap, q :: rest)
    else (single? [] rest).map (before (fold gap ++ [p.char]))

def escaped? (c : Char) : Option Char :=
  if ['"', '\\', '/', ' ', '\t'].contains c then some c
  else match c with
    | '0' => some '\x00'
    | 'a' => some '\x07'
    | 'b' => some '\x08'
    | 't' => some '\t'
    | 'n' => some '\n'
    | 'v' => some '\x0b'
    | 'f' => some '\x0c'
    | 'r' => some '\r'
    | 'e' => some '\x1b'
    | 'N' => some '\u0085'
    | '_' => some '\u00a0'
    | 'L' => some '\u2028'
    | 'P' => some '\u2029'
    | _ => none

def codeLength? : Char → Option Nat
  | 'x' => some 2
  | 'u' => some 4
  | 'U' => some 8
  | _ => none

/-- What has been read last. In a gap behind an escaped break the blanks count for nothing and the
further breaks for themselves. -/
inductive Progress where
  | gap (escaped : Bool) (gap : List Char)
  | code (missing value : Nat)

def Progress.word : Progress := .gap false []

def foldAll (escaped : Bool) (gap : List Char) : List Char :=
  if escaped then gap.filter isBreak else fold gap

def double? : Progress → Text → Option (List Char × Text)
  | _, [] => none
  | .code missing value, p :: rest => do
    let value := 16 * value + (← Decimal.hexValue? p.char)
    match missing with
    | m + 1 => double? (.code m value) rest
    | 0 =>
      if value.isValidChar then (double? .word rest).map (before [Char.ofNat value]) else none
  | .gap escaped gap, p :: rest =>
    if isSpace p.char then double? (.gap escaped (gap ++ [p.char])) rest
    else if isDivider (p :: rest) then none
    else if p.char = '"' then some (foldAll escaped gap, rest)
    else if p.char = '\\' then
      match rest with
      | [] => none
      | e :: rest =>
        if isBreak e.char then (double? (.gap true []) rest).map (before (foldAll escaped gap))
        else match escaped? e.char, codeLength? e.char with
          | some c, _ => (double? .word rest).map (before (foldAll escaped gap ++ [c]))
          | none, some n => (double? (.code (n - 1) 0) rest).map (before (foldAll escaped gap))
          | none, none => none
    else (double? .word rest).map (before (foldAll escaped gap ++ [p.char]))

end ObjectQuery.Yaml.Scalar

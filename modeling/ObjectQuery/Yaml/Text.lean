/-! YAML texts as lists of characters that know their places. Line breaks of most kinds are read as
one and the same character; the line and the paragraph separator stay as they are. -/
namespace ObjectQuery.Yaml

/-- A character with the number of its line and of its column, both counted from zero. -/
structure Spot where
  char : Char
  line : Nat
  column : Nat
  deriving DecidableEq, Repr

abbrev Text := List Spot

def isBreak (c : Char) : Bool := c = '\n' || c = '\u2028' || c = '\u2029'
def isBlank (c : Char) : Bool := c = ' ' || c = '\t'
def isSpace (c : Char) : Bool := isBlank c || isBreak c

/-- Stands for what follows the last character. No text contains it. -/
def beyond : Char := '\x00'

/-- What a word ends before: a blank, a break or the end of the text. -/
def isGap (c : Char) : Bool := isSpace c || c = beyond

def byteOrderMark : Char := '\ufeff'

/-- Control characters other than the tab and the breaks may not stand in a text, nor may the two
code points that are no characters. -/
def isAllowed (c : Char) : Bool :=
  c = '\t' || c = '\n' || c = '\r' || c = '\u0085' || ' ' ≤ c && c ≤ '~'
    || '\u00a0' ≤ c && c ≠ '\ufffe' && c ≠ '\uffff'

def Spot.next (c : Char) (p : Spot) : Spot :=
  if isBreak p.char then ⟨c, p.line + 1, 0⟩ else ⟨c, p.line, p.column + 1⟩

namespace Text

/-- A return and the newline behind it are one break. -/
def unifyBreaks (cs : List Char) : List Char :=
  (cs.zip (beyond :: cs)).filterMap fun (c, previous) =>
    if c = '\n' && previous = '\r' then none
    else some (if c = '\r' || c = '\u0085' then '\n' else c)

/-- Every character stands behind the one before, or at the start of the next line. -/
def place (cs : List Char) : Text :=
  (cs.foldl (fun (t : Text) c => (t.head?.elim ⟨c, 0, 0⟩ (Spot.next c)) :: t) []).reverse

/-- A byte order mark is a character like others and has a column. -/
def ofChars? (cs : List Char) : Option Text :=
  if cs.all isAllowed then some (place (unifyBreaks cs)) else none

def peek (t : Text) : Char :=
  match t with
  | p :: _ => p.char
  | [] => beyond

def takeRun (allowed : Char → Bool) (t : Text) : List Char :=
  (t.takeWhile (allowed ·.char)).map Spot.char

def dropRun (allowed : Char → Bool) (t : Text) : Text := t.dropWhile (allowed ·.char)

def isDivider : Text → Bool
  | a :: b :: c :: rest =>
    a.column = 0 && (a.char = '-' || a.char = '.') && b.char = a.char && c.char = a.char
      && isGap (peek rest)
  | _ => false

end Text

end ObjectQuery.Yaml

/-! Regular expressions and their derivatives. The anchors look at the place and not at a
character: `start` holds before the first character of the whole text, `stop` behind the last. -/
namespace ObjectQuery

structure CharSet where
  ranges : List (Char × Char)
  negated : Bool
  deriving DecidableEq, Repr

namespace CharSet

def contains (s : CharSet) (c : Char) : Bool :=
  s.ranges.any (fun r => r.1 ≤ c && c ≤ r.2) != s.negated

def single (c : Char) : CharSet := ⟨[(c, c)], false⟩
def every : CharSet := ⟨[], true⟩
def lineChar : CharSet := ⟨[('\n', '\n')], true⟩

end CharSet

inductive Regex where
  | fail
  | empty
  | one (set : CharSet)
  | start
  | stop
  | seq (a b : Regex)
  | alt (a b : Regex)
  | repeated (a : Regex) (least : Nat) (most : Option Nat)
  deriving DecidableEq, Repr

namespace Regex

def mkSeq : Regex → Regex → Regex
  | .fail, _ => .fail
  | _, .fail => .fail
  | .empty, b => b
  | a, .empty => a
  | a, b => .seq a b

def mkAlt : Regex → Regex → Regex
  | .fail, b => b
  | a, .fail => a
  | a, b => if a = b then a else .alt a b

/-- At a place of the text, the expression holds of the empty text there. -/
def nullable (atStart atStop : Bool) : Regex → Bool
  | .fail => false
  | .empty => true
  | .one _ => false
  | .start => atStart
  | .stop => atStop
  | .seq a b => a.nullable atStart atStop && b.nullable atStart atStop
  | .alt a b => a.nullable atStart atStop || b.nullable atStart atStop
  | .repeated a least _ => least == 0 || a.nullable atStart atStop

/-- What has to follow once the character has been read. -/
def derivative (atStart : Bool) (c : Char) : Regex → Regex
  | .one set => if set.contains c then .empty else .fail
  | .seq a b =>
    let first := mkSeq (a.derivative atStart c) b
    if a.nullable atStart false then mkAlt first (b.derivative atStart c) else first
  | .alt a b => mkAlt (a.derivative atStart c) (b.derivative atStart c)
  | .repeated a least most =>
    match most with
    | some 0 => .fail
    | _ => mkSeq (a.derivative atStart c) (.repeated a (least - 1) (most.map (· - 1)))
  | _ => .fail

def matchesFrom (atStart : Bool) (r : Regex) : List Char → Bool
  | [] => r.nullable atStart true
  | c :: rest => matchesFrom false (r.derivative atStart c) rest

def anything : Regex := .repeated (.one .every) 0 none

/-- The expression holds of some part of the text. -/
def isFoundIn (r : Regex) (cs : List Char) : Bool :=
  matchesFrom true (mkSeq anything (mkSeq r anything)) cs

end Regex

end ObjectQuery

import ObjectQuery.Chain.Expansion
import ObjectQuery.Pattern.IdText
import ObjectQuery.Schema.Build

/-! The specifications of a pattern string. A specification keeps every piece of its text, blanks
included, so that the specifications and what is left behind them give back the text. An ID list
that does not come to its end is left behind together with its bracket. -/
namespace ObjectQuery

open Pattern

namespace Bracket

/-- Where in a bracketed ID list a character stands: before a field, within one, or behind it. -/
inductive Place where
  | before
  | bare
  | quoted
  | escaped
  | behind
  deriving DecidableEq, Repr

namespace Place

def separated (c : Char) : Option Place :=
  if c = ',' ∨ c = ';' then some .before
  else if isBlank c then some .behind
  else none

def next? : Place → Char → Option Place
  | .before, c =>
    if isBlank c then some .before
    else if isBare c then some .bare
    else if c = '"' then some .quoted
    else none
  | .bare, c => if isBare c then some .bare else separated c
  | .quoted, c =>
    if c = '"' then some .behind
    else if c = '\\' then some .escaped
    else if isPlain c then some .quoted
    else none
  | .escaped, c => if isEscaped c then some .quoted else none
  | .behind, c => separated c

def mayClose : Place → Bool
  | .bare => true
  | .behind => true
  | _ => false

end Place

/-- The text up to the closing bracket, and what follows the bracket. -/
def close? (p : Place) : List Char → Option (List Char × List Char)
  | [] => none
  | c :: rest =>
    if c = ']' ∧ p.mayClose then some ([], rest)
    else (p.next? c).bind fun q => (close? q rest).map fun (inner, after) => (c :: inner, after)

theorem close?_text {p : Place} {cs inner after : List Char}
    (h : close? p cs = some (inner, after)) : inner ++ ']' :: after = cs := by
  induction cs generalizing p inner with
  | nil => simp [close?] at h
  | cons c rest ih =>
    rw [close?] at h
    split at h
    · next closes =>
      obtain ⟨rfl, _⟩ := closes
      obtain ⟨rfl, rfl⟩ := Prod.mk.inj (Option.some.inj h)
      rfl
    · obtain ⟨q, _, h⟩ := Option.bind_eq_some_iff.mp h
      obtain ⟨⟨tail, left⟩, found, eq⟩ := Option.map_eq_some_iff.mp h
      obtain ⟨rfl, rfl⟩ := Prod.mk.inj eq
      rw [List.cons_append, ih found]

end Bracket

inductive IdSource where
  | absent
  | placeholder
  | inline (inner : List Char)
  deriving DecidableEq, Repr

structure Specification where
  lead : List Char
  down : Bool
  typeGap : List Char
  type : List Char
  idsGap : List Char
  ids : IdSource
  markGap : List Char
  mark : Option Char
  trail : List Char

def IdSource.text : IdSource → List Char
  | .absent => []
  | .placeholder => ['%']
  | .inline inner => '[' :: inner ++ [']']

def IdSource.read : List Char → IdSource × List Char
  | '%' :: rest => (.placeholder, rest)
  | '[' :: rest =>
    match Bracket.close? .before rest with
    | some (inner, rest) => (.inline inner, rest)
    | none => (.absent, '[' :: rest)
  | cs => (.absent, cs)

theorem IdSource.read_text (cs : List Char) : (read cs).1.text ++ (read cs).2 = cs := by
  fun_cases read cs with
  | case1 rest => rfl
  | case2 rest inner after closed => simpa [text] using Bracket.close?_text closed
  | case3 => rfl
  | case4 => rfl

namespace Specification

def relation (s : Specification) : Char := if s.down then '>' else '<'

def text (s : Specification) : List Char :=
  s.lead ++ s.relation :: s.typeGap ++ s.type ++ s.idsGap ++ s.ids.text ++ s.markGap
    ++ s.mark.toList ++ s.trail

def target (s : Specification) : Target := .ofText (String.ofList s.type)
def scope (s : Specification) : Scope := .ofMark (s.mark.map String.singleton)

def blanks (cs : List Char) : List Char := cs.takeWhile isBlank

theorem blanks_skipBlanks (cs : List Char) : blanks cs ++ skipBlanks cs = cs :=
  List.takeWhile_append_dropWhile

def relation? : List Char → Option (Bool × List Char)
  | '>' :: rest => some (true, rest)
  | '<' :: rest => some (false, rest)
  | _ => none

def type? : List Char → Option (List Char × List Char)
  | [] => none
  | c :: rest =>
    if c = '*' then some (['*'], rest)
    else if Schema.isNameChar c then
      some (c :: rest.takeWhile Schema.isNameChar, rest.dropWhile Schema.isNameChar)
    else none

def mark? : List Char → Option Char × List Char
  | [] => (none, [])
  | c :: rest => if c = '#' ∨ c = '$' then (some c, rest) else (none, c :: rest)

theorem relation?_text {cs rest : List Char} {down : Bool} (h : relation? cs = some (down, rest)) :
    (if down then '>' else '<') :: rest = cs := by
  unfold relation? at h
  split at h
  · obtain ⟨rfl, rfl⟩ := Prod.mk.inj (Option.some.inj h); rfl
  · obtain ⟨rfl, rfl⟩ := Prod.mk.inj (Option.some.inj h); rfl
  · cases h

theorem type?_text {cs type rest : List Char} (h : type? cs = some (type, rest)) :
    type ++ rest = cs := by
  cases cs with
  | nil => cases h
  | cons c tail =>
    rw [type?] at h
    split at h
    · next any => obtain ⟨rfl, rfl⟩ := Prod.mk.inj (Option.some.inj h); simp [any]
    · split at h
      · obtain ⟨rfl, rfl⟩ := Prod.mk.inj (Option.some.inj h); simp
      · cases h

theorem mark?_text (cs : List Char) : (mark? cs).1.toList ++ (mark? cs).2 = cs := by
  fun_cases mark? cs <;> rfl

/-- The specification at the start of a text, and what follows it. -/
def read? (cs : List Char) : Option (Specification × List Char) :=
  (relation? (skipBlanks cs)).bind fun (down, afterRelation) =>
    (type? (skipBlanks afterRelation)).map fun (type, afterType) =>
      let source := IdSource.read (skipBlanks afterType)
      let marked := mark? (skipBlanks source.2)
      (⟨blanks cs, down, blanks afterRelation, type, blanks afterType, source.1, blanks source.2,
        marked.1, blanks marked.2⟩, skipBlanks marked.2)

/-- Nothing of the text is lost. -/
theorem read?_text {cs rest : List Char} {s : Specification} (h : read? cs = some (s, rest)) :
    s.text ++ rest = cs := by
  obtain ⟨⟨down, afterRelation⟩, hRelation, h⟩ := Option.bind_eq_some_iff.mp h
  obtain ⟨⟨type, afterType⟩, hType, h⟩ := Option.map_eq_some_iff.mp h
  obtain ⟨rfl, rfl⟩ := Prod.mk.inj h
  have source := IdSource.read_text (skipBlanks afterType)
  have marked := mark?_text (skipBlanks (IdSource.read (skipBlanks afterType)).2)
  simp only [text, Specification.relation, List.append_assoc, List.cons_append]
  rw [blanks_skipBlanks, marked, blanks_skipBlanks, source, blanks_skipBlanks, type?_text hType,
    blanks_skipBlanks, relation?_text hRelation, blanks_skipBlanks]

theorem text_ne_nil (s : Specification) : s.text ≠ [] := by simp [text]

theorem read?_shorter {cs rest : List Char} {s : Specification} (h : read? cs = some (s, rest)) :
    rest.length < cs.length := by
  have size := congrArg List.length (read?_text h)
  have some := List.length_pos_iff.mpr s.text_ne_nil
  simp at size
  omega

/-- All specifications from the start of a text on, and what is left behind them. -/
def readAll (cs : List Char) : List Specification × List Char :=
  match _found : read? cs with
  | none => ([], cs)
  | some (s, rest) => (s :: (readAll rest).1, (readAll rest).2)
termination_by cs.length
decreasing_by all_goals exact read?_shorter _found

theorem readAll_text (cs : List Char) : (readAll cs).1.flatMap text ++ (readAll cs).2 = cs := by
  fun_induction readAll cs with
  | case1 => rfl
  | case2 cs s rest found ih => simp [ih, read?_text found]

end Specification

end ObjectQuery

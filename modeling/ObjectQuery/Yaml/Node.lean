import ObjectQuery.Yaml.Token

/-! Nodes of YAML texts: scalars, lists, tables, and aliases of anchored nodes. `Node.ofTokens?`
reads the single document of a text. -/
namespace ObjectQuery.Yaml

structure Properties where
  anchor : Option Nat
  tag : Option String

inductive Node where
  | alias (slot : Nat)
  | scalar (properties : Properties) (text : String) (bare : Bool)
  | list (properties : Properties) (items : List Node)
  | table (properties : Properties) (members : List (Node × Node))

namespace Node

def absent : Node := .scalar ⟨none, none⟩ "" true

/-! ### Reading

A reader gives the tokens that it leaves, which are fewer than it was given, or not more where a
part may be absent. -/

abbrev Fewer (ts : List Token) := { rest : List Token // rest.length < ts.length }
abbrev NotMore (ts : List Token) := { rest : List Token // rest.length ≤ ts.length }

def Fewer.notMore {ts : List Token} (rest : Fewer ts) : NotMore ts := ⟨rest.1, Nat.le_of_lt rest.2⟩

abbrev Handles := List (String × String)

/-- An anchor and a tag may stand before a node, in either order. -/
def properties? (handles : Handles) : (ts : List Token) → Option (Properties × NotMore ts)
  | .anchor slot :: .tag tag :: rest =>
    (tag.full? handles).map fun tag => (⟨some slot, some tag⟩, ⟨rest, by simp; omega⟩)
  | .tag tag :: .anchor slot :: rest =>
    (tag.full? handles).map fun tag => (⟨some slot, some tag⟩, ⟨rest, by simp; omega⟩)
  | .anchor slot :: rest => some (⟨some slot, none⟩, ⟨rest, by simp⟩)
  | .tag tag :: rest => (tag.full? handles).map fun tag => (⟨none, some tag⟩, ⟨rest, by simp⟩)
  | ts => some (⟨none, none⟩, ⟨ts, Nat.le_refl _⟩)

/-- Where a node stands: within brackets, as a part of a block list, or beside the colon or the sign
of a key. Only in the last place a list may start in the column of the table around it. -/
inductive Place where
  | bracket
  | part
  | beside
  deriving DecidableEq

def isAbsent (ends : List Token) (ts : List Token) : Bool := ts.head?.any ends.contains

def itemEnds (indented : Bool) : List Token :=
  if indented then [.dash, .blockEnd] else [.dash, .key, .value, .blockEnd]

def sideEnds : List Token := [.key, .value, .blockEnd]
def itemSideEnds : List Token := [.comma, .closeList]
def memberSideEnds : List Token := [.comma, .closeTable]

/-- An anchor or a tag alone stands before an absent scalar. -/
def bare? {ts : List Token} (p : Properties) (own : NotMore ts) : Option (Node × Fewer ts) :=
  if h : own.1.length < ts.length then some (.scalar p "" true, ⟨own.1, h⟩) else none

mutual

def node? (handles : Handles) (place : Place) (ts : List Token) : Option (Node × Fewer ts) :=
  match ts with
  | .alias slot :: rest => some (.alias slot, ⟨rest, by simp⟩)
  | ts => (properties? handles ts).bind fun (p, own) =>
    match own with
    | ⟨.scalar text bare :: rest, h⟩ => some (.scalar p text bare, ⟨rest, h⟩)
    | ⟨.openList :: rest, h⟩ => (bracketItems? handles rest).map fun (items, left) =>
      (.list p items, ⟨left.1, by have := left.2; simp at h; omega⟩)
    | ⟨.openTable :: rest, h⟩ => (bracketMembers? handles rest).map fun (members, left) =>
      (.table p members, ⟨left.1, by have := left.2; simp at h; omega⟩)
    | ⟨.dash :: rest, h⟩ =>
      if place = .beside then (items? handles false rest).map fun (items, left) =>
        (.list p items, ⟨left.1, by have := left.2; simp at h; omega⟩)
      else bare? p ⟨.dash :: rest, h⟩
    | ⟨.blockList :: .dash :: rest, h⟩ =>
      if place = .bracket then bare? p ⟨.blockList :: .dash :: rest, h⟩
      else (items? handles true rest).map fun (items, left) =>
        (.list p items, ⟨left.1, by have := left.2; simp at h; omega⟩)
    | ⟨.blockTable :: .key :: rest, h⟩ =>
      if place = .bracket then bare? p ⟨.blockTable :: .key :: rest, h⟩
      else (members? handles rest).map fun (members, left) =>
        (.table p members, ⟨left.1, by have := left.2; simp at h; omega⟩)
    | own => bare? p own
termination_by (ts.length, 0)
decreasing_by all_goals (simp at h; omega)

/-- What stands before one of the tokens that end it, which may be nothing. -/
def side? (handles : Handles) (place : Place) (ends ts : List Token) :
    Option (Node × NotMore ts) :=
  if isAbsent ends ts then some (absent, ⟨ts, Nat.le_refl _⟩)
  else (node? handles place ts).map fun (node, rest) => (node, rest.notMore)
termination_by (ts.length, 1)

def value? (handles : Handles) (place : Place) (ends ts : List Token) :
    Option (Node × NotMore ts) :=
  match ts with
  | .value :: rest => (side? handles place ends rest).map fun (node, left) =>
    (node, ⟨left.1, by have := left.2; simp; omega⟩)
  | ts => some (absent, ⟨ts, Nat.le_refl _⟩)
termination_by (ts.length, 0)

/-- The items of a block list behind a dash. One that is not indented ends where none follows. -/
def items? (handles : Handles) (indented : Bool) (ts : List Token) :
    Option (List Node × NotMore ts) :=
  (side? handles .part (itemEnds indented) ts).bind fun (item, rest) =>
    match rest with
    | ⟨.dash :: rest, h⟩ => (items? handles indented rest).map fun (items, left) =>
      (item :: items, ⟨left.1, by have := left.2; simp at h; omega⟩)
    | ⟨.blockEnd :: rest, h⟩ =>
      some ([item], if indented then ⟨rest, by simp at h; omega⟩ else ⟨.blockEnd :: rest, h⟩)
    | rest => if indented then none else some ([item], rest)
termination_by (ts.length, 2)
decreasing_by all_goals (try simp at h); omega

def members? (handles : Handles) (ts : List Token) : Option (List (Node × Node) × NotMore ts) :=
  (side? handles .beside sideEnds ts).bind fun (key, own) =>
  (value? handles .beside sideEnds own.1).bind fun (value, rest) =>
    match rest with
    | ⟨.key :: rest, h⟩ => (members? handles rest).map fun (members, left) =>
      ((key, value) :: members,
        ⟨left.1, by have := left.2; have := own.2; simp at h; omega⟩)
    | ⟨.blockEnd :: rest, h⟩ =>
      some ([(key, value)], ⟨rest, by have := own.2; simp at h; omega⟩)
    | _ => none
termination_by (ts.length, 2)
decreasing_by all_goals (try have := own.2); (try simp at h); omega

/-- A key and its value as an item between brackets. A token that stands in the place of the key is
passed over. -/
def pair? (handles : Handles) (ts : List Token) : Option (Node × NotMore ts) :=
  (side? handles .bracket (.value :: itemSideEnds) ts).bind fun (key, own) =>
    let rest := if isAbsent (.value :: itemSideEnds) ts then own.1.tail else own.1
    have fewer : rest.length ≤ ts.length := by
      have := own.2
      have := List.length_tail (l := own.1)
      dsimp only [rest]; split <;> omega
    (value? handles .bracket itemSideEnds rest).map fun (value, left) =>
      (.table ⟨none, none⟩ [(key, value)], ⟨left.1, Nat.le_trans left.2 fewer⟩)
termination_by (ts.length, 2)
decreasing_by
  · exact Prod.Lex.right _ (by omega)
  · rcases Nat.lt_or_eq_of_le fewer with less | same
    · exact Prod.Lex.left _ _ less
    · rw [same]; exact Prod.Lex.right _ (by omega)

def bracketItems? (handles : Handles) (ts : List Token) : Option (List Node × Fewer ts) :=
  match ts with
  | .closeList :: rest => some ([], ⟨rest, by simp⟩)
  | .key :: rest => (pair? handles rest).bind fun (item, own) =>
    (moreItems? handles own.1).map fun (items, left) =>
      (item :: items, ⟨left.1, by have := left.2; have := own.2; simp; omega⟩)
  | ts => (node? handles .bracket ts).bind fun (item, own) =>
    (moreItems? handles own.1).map fun (items, left) =>
      (item :: items, ⟨left.1, by have := left.2; have := own.2; omega⟩)
termination_by (ts.length, 1)
decreasing_by all_goals (try have := own.2); simp_wf; omega

def moreItems? (handles : Handles) (ts : List Token) : Option (List Node × Fewer ts) :=
  match ts with
  | .closeList :: rest => some ([], ⟨rest, by simp⟩)
  | .comma :: rest => (bracketItems? handles rest).map fun (items, left) =>
    (items, ⟨left.1, by have := left.2; simp; omega⟩)
  | _ => none
termination_by (ts.length, 0)

def bracketMembers? (handles : Handles) (ts : List Token) :
    Option (List (Node × Node) × Fewer ts) :=
  match ts with
  | .closeTable :: rest => some ([], ⟨rest, by simp⟩)
  | .key :: rest =>
    (side? handles .bracket (.value :: memberSideEnds) rest).bind fun (key, own) =>
    (value? handles .bracket memberSideEnds own.1).bind fun (value, more) =>
    (moreMembers? handles more.1).map fun (members, left) =>
      ((key, value) :: members,
        ⟨left.1, by have := left.2; have := more.2; have := own.2; simp; omega⟩)
  | ts => (node? handles .bracket ts).bind fun (key, own) =>
    (moreMembers? handles own.1).map fun (members, left) =>
      ((key, absent) :: members, ⟨left.1, by have := left.2; have := own.2; omega⟩)
termination_by (ts.length, 1)
decreasing_by all_goals (try have := own.2); (try have := more.2); simp_wf; omega

def moreMembers? (handles : Handles) (ts : List Token) : Option (List (Node × Node) × Fewer ts) :=
  match ts with
  | .closeTable :: rest => some ([], ⟨rest, by simp⟩)
  | .comma :: rest => (bracketMembers? handles rest).map fun (members, left) =>
    (members, ⟨left.1, by have := left.2; simp; omega⟩)
  | _ => none
termination_by (ts.length, 0)

end

/-! ### Documents -/

def isDirective : Token → Bool
  | .directive _ => true
  | _ => false

def directives (ts : List Token) : List Property.Directive :=
  (ts.takeWhile isDirective).filterMap fun
    | .directive d => some d
    | _ => none

/-- Behind the sign that starts a document there may be nothing. -/
def endsDocument : List Token → Bool
  | .directive _ :: _ => true
  | .documentStart :: _ => true
  | .documentEnd :: _ => true
  | [] => true
  | _ => false

/-- The document with what follows it. Only one that starts with a sign may have directives. -/
def document? (ts : List Token) : Option (Node × List Token) :=
  if ts.head?.any fun t => isDirective t || t = .documentStart then
    match ts.dropWhile isDirective with
    | .documentStart :: rest => do
      let handles ← Property.handles? (directives ts)
      if endsDocument rest then some (absent, rest)
      else (node? handles .part rest).map fun (node, rest) => (node, rest.1)
    | _ => none
  else (node? Property.commonHandles .part ts).map fun (node, rest) => (node, rest.1)

/-- A text without tokens holds nothing. Any other holds one document, behind which only signs for
its end may stand. -/
def ofTokens? (ts : List Token) : Option Node :=
  if ts.isEmpty then some absent
  else (document? ts).bind fun (node, rest) =>
    if rest.all (· = .documentEnd) then some node else none

end Node

end ObjectQuery.Yaml

import ObjectQuery.Document
import ObjectQuery.Yaml.Node
import ObjectQuery.Yaml.Word

/-! Documents of YAML texts. Every alias gives way to the node that it stands for, which may hold
further aliases, of itself too; so there are limits to the depth of a document and to the number of
aliases that are followed. -/
namespace ObjectQuery.Yaml.Node

/-! ### Anchored nodes -/

def anchoredBy (p : Properties) (node : Node) : List (Nat × Node) :=
  match p.anchor with
  | some slot => [(slot, node)]
  | none => []

mutual

/-- The anchored nodes with their anchors, in the order in which they start. -/
def anchored : Node → List (Nat × Node)
  | .alias _ => []
  | .scalar p text bare => anchoredBy p (.scalar p text bare)
  | .list p items => anchoredBy p (.list p items) ++ anchoredItems items
  | .table p members => anchoredBy p (.table p members) ++ anchoredMembers members

def anchoredItems : List Node → List (Nat × Node)
  | [] => []
  | item :: rest => item.anchored ++ anchoredItems rest

def anchoredMembers : List (Node × Node) → List (Nat × Node)
  | [] => []
  | (key, value) :: rest => key.anchored ++ (value.anchored ++ anchoredMembers rest)

end

/-- The nodes that aliases stand for. Where an anchor is used again its last node counts. -/
def targets (node : Node) : List (Nat × Node) := node.anchored.reverse

/-! ### Limits -/

mutual

/-- A measure of a text: a list or a table counts where it starts and where it ends. -/
def size : Node → Nat
  | .alias _ => 1
  | .scalar _ _ _ => 1
  | .list _ items => sizeOfItems items + 2
  | .table _ members => sizeOfMembers members + 2

def sizeOfItems : List Node → Nat
  | [] => 0
  | item :: rest => item.size + sizeOfItems rest

def sizeOfMembers : List (Node × Node) → Nat
  | [] => 0
  | (key, value) :: rest => key.size + value.size + sizeOfMembers rest

end

def maxJumps (node : Node) : Nat := 100 * node.size

def maxDepth : Nat := 128

/-! ### Expansion -/

/-- A result that depends on the number of aliases that may still be followed. -/
abbrev Jumping := StateT Nat Option

def jump : Jumping Unit
  | 0 => none
  | left + 1 => some ((), left)

def follow (targets : List (Nat × Node)) : Node → Jumping Node
  | .alias slot => do
    jump
    match targets.lookup slot with
    | some node => pure node
    | none => failure
  | node => pure node

/-- Only a scalar without quotes can stand for an empty list or table. -/
def wordDocument (text : String) (bare : Bool) (value : Json) : Document :=
  if bare || text ≠ "" then .word text value else .text text

/-- A scalar in quotes stands for its text, unless it has a tag. -/
def scalarDocument (tag : Option String) (text : String) (bare : Bool) : Document :=
  let meaning := match tag with
    | some tag => Word.meaningUnder tag text
    | none => if bare then Word.meaning text else .value (.str text)
  match meaning with
  | .value value => wordDocument text bare value
  | .nothing => .valueless (wordDocument text bare .null)

/-- Only tags of the author's own say anything about a list or a table. -/
def tagged (tag : Option String) (content : Document) : Document :=
  if tag.any Word.isLocal then .valueless content else content

/-- A key is a scalar, whatever its tag. -/
def key (targets : List (Nat × Node)) (node : Node) : Jumping String := do
  match ← follow targets node with
  | .scalar _ text _ => pure text
  | _ => failure

/-- The document of a node, in which lists and tables are nested at most `depth` times. -/
def expand (targets : List (Nat × Node)) : (depth : Nat) → Node → Jumping Document
  | 0, node => do
    match ← follow targets node with
    | .scalar p text bare => pure (scalarDocument p.tag text bare)
    | _ => failure
  | depth + 1, node => do
    match ← follow targets node with
    | .scalar p text bare => pure (scalarDocument p.tag text bare)
    | .list p items =>
      let items ← items.mapM (expand targets depth)
      pure (tagged p.tag (.list items true))
    | .table p members =>
      let members ← members.mapM fun (name, value) => do
        let name ← key targets name
        pure (name, ← expand targets depth value)
      pure (tagged p.tag (.table members true))
    | .alias _ => failure

def toDocument? (node : Node) : Option Document :=
  ((expand node.targets maxDepth node).run node.maxJumps).map Prod.fst

end ObjectQuery.Yaml.Node

namespace ObjectQuery

def Document.ofYamlText? (cs : List Char) : Option Document := do
  let tokens ← Yaml.Token.scan? (← Yaml.Text.ofChars? cs)
  (← Yaml.Node.ofTokens? tokens).toDocument?

end ObjectQuery

import ObjectQuery.Document
import ObjectQuery.Proofs.Json.Members
import ObjectQuery.Proofs.Json.Scanning

/-! Documents of printed values. The tokens of a value that is not nested too deep are read as a
document of the same structure, in which lists and tables keep their order and are closed. The
value of that document is the value that was printed, if its objects have their members in the
order of their names. -/
namespace ObjectQuery

open Json

namespace Document

mutual

/-- The document that the text of a value is read as. -/
def ofJson : Json → Document
  | .str s => .text s
  | .arr items => .list (ofItems items) true
  | .obj members => .table (ofMembers members) true
  | v => .atom v

def ofItems : List Json → List Document
  | [] => []
  | v :: rest => ofJson v :: ofItems rest

def ofMembers : List (String × Json) → List (String × Document)
  | [] => []
  | (name, v) :: rest => (name, ofJson v) :: ofMembers rest

end

theorem ofItems_eq (items : List Json) : ofItems items = items.map ofJson := by
  induction items with
  | nil => rfl
  | cons v rest ih => rw [ofItems, ih, List.map_cons]

theorem ofMembers_eq (members : List (String × Json)) :
    ofMembers members = members.map fun m => (m.1, ofJson m.2) := by
  induction members with
  | nil => rfl
  | cons m rest ih => rw [ofMembers, ih, List.map_cons]

namespace Reader

/-- No value starts with a closing bracket, so a first item is read like any other. -/
theorem foldl_first (v : Json) (items : List Document) (stack : List Frame) (ts : List Token) :
    (v.tokens ++ ts).foldl step (.reading (.list items :: stack) .first) =
      (v.tokens ++ ts).foldl step (.reading (.list items :: stack) .value) := by
  match v with
  | .null => rfl
  | .bool _ => rfl
  | .num _ => rfl
  | .str _ => rfl
  | .arr [] => rfl
  | .arr (_ :: _) => rfl
  | .obj [] => rfl
  | .obj ((_, _) :: _) => rfl

mutual

/-- The tokens of a value are read as its document, which goes to the innermost frame. -/
theorem foldl_tokens (v : Json) (stack : List Frame) (fits : stack.length + v.depth ≤ maxDepth)
    (ts : List Token) :
    (v.tokens ++ ts).foldl step (.reading stack .value) =
      ts.foldl step (give (ofJson v) stack) := by
  match v with
  | .null => rfl
  | .bool _ => rfl
  | .num _ => rfl
  | .str _ => rfl
  | .arr [] =>
    simp only [depth, depthItems] at fits
    have opened : enter stack (.list []) .first = _ := if_pos (by omega)
    simp [tokens, step, take, opened, ofJson, ofItems]
  | .arr (v :: items) =>
    simp only [depth, depthItems] at fits
    have opened : enter stack (.list []) .first = _ := if_pos (by omega)
    have first := foldl_tokens v (.list [] :: stack) (by simp; omega) (tokensOfItems items ++ ts)
    have others := foldl_items items [ofJson v] stack (by omega) ts
    simp only [tokens, List.cons_append, List.append_assoc, List.foldl_cons, step, take, opened]
    rw [foldl_first, first, give, others, ofJson, ofItems]
    rfl
  | .obj [] =>
    simp only [depth, depthMembers] at fits
    have opened : enter stack (.table []) .firstName = _ := if_pos (by omega)
    simp [tokens, step, take, opened, ofJson, ofMembers]
  | .obj ((name, v) :: members) =>
    simp only [depth, depthMembers] at fits
    have opened : enter stack (.table []) .firstName = _ := if_pos (by omega)
    have first := foldl_tokens v (.member [] name :: stack) (by simp; omega)
      (tokensOfMembers members ++ ts)
    have others := foldl_members members [(name, ofJson v)] stack (by omega) ts
    simp only [tokens, List.cons_append, List.append_assoc, List.foldl_cons, step, take, opened]
    rw [first, give, others, ofJson, ofMembers]
    rfl

theorem foldl_items (items : List Json) (seen : List Document) (stack : List Frame)
    (fits : stack.length + 1 + depthItems items ≤ maxDepth) (ts : List Token) :
    (tokensOfItems items ++ ts).foldl step (.reading (.list seen :: stack) .after) =
      ts.foldl step (give (.list (seen.reverse ++ ofItems items) true) stack) := by
  match items with
  | [] => simp [tokensOfItems, step, ofItems]
  | v :: items =>
    simp only [depthItems] at fits
    have first := foldl_tokens v (.list seen :: stack) (by simp; omega) (tokensOfItems items ++ ts)
    have others := foldl_items items (ofJson v :: seen) stack (by omega) ts
    simp only [tokensOfItems, List.cons_append, List.append_assoc, List.foldl_cons, step]
    rw [first, give, others, ofItems]
    simp

theorem foldl_members (members : List (String × Json)) (seen : List (String × Document))
    (stack : List Frame) (fits : stack.length + 1 + depthMembers members ≤ maxDepth)
    (ts : List Token) :
    (tokensOfMembers members ++ ts).foldl step (.reading (.table seen :: stack) .after) =
      ts.foldl step (give (.table (seen.reverse ++ ofMembers members) true) stack) := by
  match members with
  | [] => simp [tokensOfMembers, step, ofMembers]
  | (name, v) :: members =>
    simp only [depthMembers] at fits
    have first := foldl_tokens v (.member seen name :: stack) (by simp; omega)
      (tokensOfMembers members ++ ts)
    have others := foldl_members members ((name, ofJson v) :: seen) stack (by omega) ts
    simp only [tokensOfMembers, List.cons_append, List.append_assoc, List.foldl_cons, step]
    rw [first, give, others, ofMembers]
    simp

end

end Reader

/-- The text of a value is read to its end. -/
theorem ofJsonText_compact {v : Json} (exact : ∀ w ∈ v :: v.within, w.Exact)
    (fits : v.depth ≤ Reader.maxDepth) : ofJsonText v.compact = (ofJson v, true) := by
  have whole := Reader.foldl_tokens v [] (by simpa using fits) []
  rw [List.append_nil] at whole
  rw [ofJsonText, scan_compact v exact, ofTokens, whole]
  rfl

end Document

namespace Json

/-- The members of an object stand in the order of their names. -/
def Ordered : Json → Prop
  | .obj members => (members.map Prod.fst).Pairwise (· < ·)
  | _ => True

end Json

namespace Document

mutual

theorem json?_ofJson (v : Json) (ordered : ∀ w ∈ v :: v.within, w.Ordered) :
    (ofJson v).json? = some v := by
  obtain ⟨own, below⟩ := List.forall_mem_cons.mp ordered
  match v with
  | .null => rfl
  | .bool _ => rfl
  | .num _ => rfl
  | .str _ => rfl
  | .arr items =>
    simp [ofJson, json?, jsonItems?_ofItems items below]
  | .obj members =>
    have same : placed members = members := placed_of_ordered own
    simp [ofJson, json?, jsonMembers?_ofMembers members below, object_eq, same]

theorem jsonItems?_ofItems (items : List Json) (ordered : ∀ w ∈ withinItems items, w.Ordered) :
    jsonItems? (ofItems items) = some items := by
  match items with
  | [] => rfl
  | v :: items =>
    obtain ⟨first, others⟩ := List.forall_mem_append.mp ordered
    simp [ofItems, jsonItems?, json?_ofJson v first, jsonItems?_ofItems items others]

theorem jsonMembers?_ofMembers (members : List (String × Json))
    (ordered : ∀ w ∈ withinMembers members, w.Ordered) :
    jsonMembers? (ofMembers members) = some members := by
  match members with
  | [] => rfl
  | (name, v) :: members =>
    obtain ⟨first, others⟩ := List.forall_mem_append.mp ordered
    simp [ofMembers, jsonMembers?, json?_ofJson v first, jsonMembers?_ofMembers members others]

end

end Document

end ObjectQuery

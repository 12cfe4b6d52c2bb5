import ObjectQuery.Proofs.Shape.Resolution
import ObjectQuery.Proofs.Shape.Vocabulary

/-! Which documents the validator understands. JSON schemas have more keywords than the validator
knows, and it passes over the others. What it says of a document can be relied on where everything
that is taken for a schema keeps to the keywords that it knows, patterns are such as it can read,
and references stay within the document. Such a document compiles exactly if it has the form of a
schema and its references lead to schemas. -/
namespace ObjectQuery.Shape.Linkage

open Form

mutual

/-- A schema and what is taken for a schema below it, in use or not. -/
def parts : Json → List Json
  | .obj members => .obj members :: partsIn members
  | v => [v]

def partsIn : List (String × Json) → List Json
  | [] => []
  | (keyword, v) :: rest =>
    (if takesSchema keyword then parts v ++ partsOfItems v
      else if takesFields keyword then partsOfFields v
      else if takesOptions keyword then partsOfItems v
      else []) ++ partsIn rest

def partsOfFields : Json → List Json
  | .obj members => partsOfMembers members
  | _ => []

def partsOfMembers : List (String × Json) → List Json
  | [] => []
  | (_, v) :: rest => parts v ++ partsOfMembers rest

def partsOfItems : Json → List Json
  | .arr items => partsOfAll items
  | _ => []

def partsOfAll : List Json → List Json
  | [] => []
  | v :: rest => parts v ++ partsOfAll rest

end

/-- What is taken for a schema when a document is compiled: the parts of the document, and the parts
of what they refer to. -/
inductive Taken (document : Json) : Json → Prop
  | here {v : Json} : v ∈ parts document → Taken document v
  | onward {members : List (String × Json)} {reference : String} {target v : Json} :
    Taken document (.obj members) → ("$ref", .str reference) ∈ members →
    document.at? reference = some target → v ∈ parts target → Taken document v

/-- The validator knows the keyword, and goes by what stands under it. -/
def isKnown (keyword : String) (v : Json) : Bool :=
  if keyword = "$ref" then v.text?.any Json.isLocal
  else if keyword = "pattern" then v.text?.any fun source => (Regex.read? source.toList).isSome
  else (vocabulary ++ ["definitions", "$defs"]).contains keyword

def isKnownPart : Json → Bool
  | .obj members => members.all fun m => isKnown m.1 m.2
  | _ => true

/-- All that is taken for a schema is known to the validator. -/
def Understood (document : Json) : Prop := ∀ v, Taken document v → isKnownPart v = true

/-- The references of a schema that is an object, if it has any. -/
def directly : Json → List String
  | .obj members => members.filterMap fun m => if m.1 = "$ref" then m.2.text? else none
  | _ => []

theorem mem_directly {members : List (String × Json)} {reference : String}
    (member : ("$ref", .str reference) ∈ members) : reference ∈ directly (.obj members) :=
  List.mem_filterMap.mpr ⟨_, member, rfl⟩

/-- The parts of the document and of the targets of some references have no other references. -/
def Closed (document : Json) (known : List String) : Prop :=
  ∀ root ∈ document :: known.filterMap document.at?, ∀ v ∈ parts root,
    isKnownPart v = true ∧ directly v ⊆ known

instance (document : Json) (known : List String) : Decidable (Closed document known) :=
  inferInstanceAs (Decidable (∀ root ∈ _, ∀ v ∈ parts root,
    isKnownPart v = true ∧ ∀ r ∈ directly v, r ∈ known))

theorem understood_of_closed {document : Json} (known : List String)
    (closed : Closed document known) : Understood document := by
  have both (v : Json) (taken : Taken document v) :
      isKnownPart v = true ∧ directly v ⊆ known := by
    induction taken with
    | here inside => exact closed _ List.mem_cons_self _ inside
    | onward _ member found inside ih =>
      have target := List.mem_filterMap.mpr ⟨_, ih.2 (mem_directly member), found⟩
      exact closed _ (List.mem_cons_of_mem _ target) _ inside
  exact fun v taken => (both v taken).1

theorem partsOfMembers_eq (members : List (String × Json)) :
    partsOfMembers members = members.flatMap fun m => parts m.2 := by
  induction members with
  | nil => rfl
  | cons m rest ih => rw [partsOfMembers, ih, List.flatMap_cons]

theorem partsOfAll_eq (items : List Json) : partsOfAll items = items.flatMap parts := by
  induction items with
  | nil => rfl
  | cons v rest ih => rw [partsOfAll, ih, List.flatMap_cons]

/-- Under a keyword there are the schemas that the form asks for, and items that have a schema
each. -/
theorem partsIn_eq (members : List (String × Json)) :
    partsIn members = members.flatMap fun m => (schemas m.1 m.2).flatMap parts ++
      if takesSchema m.1 then (m.2.items?.getD []).flatMap parts else [] := by
  induction members with
  | nil => rfl
  | cons m rest ih =>
    obtain ⟨keyword, v⟩ := m
    rw [partsIn, ih, List.flatMap_cons]
    congr 1
    unfold schemas
    by_cases one : takesSchema keyword = true
    · cases v <;> simp [one, partsOfItems, partsOfAll_eq, Json.items?]
    · by_cases fields : takesFields keyword = true
      · cases v <;> simp [one, fields, partsOfFields, partsOfMembers_eq, List.flatMap_map]
      · by_cases options : takesOptions keyword = true
        · cases v <;> simp [one, fields, options, partsOfItems, partsOfAll_eq]
        · simp [one, fields, options]

/-- A reference stands in one of the parts that it is a reference of. -/
theorem part_of_references {v : Json} {reference : String} (inside : reference ∈ references v) :
    ∃ members, .obj members ∈ parts v ∧ ("$ref", .str reference) ∈ members := by
  match v with
  | .obj members =>
    rcases mem_references.mp inside with own | ⟨m, member, w, below, here⟩
    · exact ⟨members, List.mem_cons_self, own⟩
    · obtain ⟨part, listed, own⟩ := part_of_references here
      refine ⟨part, List.mem_cons_of_mem _ ?_, own⟩
      rw [partsIn_eq]
      refine List.mem_flatMap.mpr ⟨m, member, List.mem_append_left _ ?_⟩
      exact List.mem_flatMap.mpr ⟨w, below, listed⟩
termination_by sizeOf v
decreasing_by exact Json.sizeOf_within (Json.within_of_member member (within_of_schema below))

theorem taken_of_mentioned {document : Json} {reference : String}
    (mentioned : Mentioned document reference) :
    ∃ members, Taken document (.obj members) ∧ ("$ref", .str reference) ∈ members := by
  induction mentioned with
  | here inside =>
    obtain ⟨members, part, own⟩ := part_of_references inside
    exact ⟨members, .here part, own⟩
  | onward _ found inside ih =>
    obtain ⟨_, taken, direct⟩ := ih
    obtain ⟨members, part, own⟩ := part_of_references inside
    exact ⟨members, .onward taken direct found part, own⟩

/-- No reference leads out of a document that is understood. -/
theorem Understood.inside {document : Json} (understood : Understood document) {reference : String}
    (mentioned : Mentioned document reference) : Json.isLocal reference = true := by
  obtain ⟨members, taken, member⟩ := taken_of_mentioned mentioned
  exact List.all_eq_true.mp (understood _ taken) _ member

theorem Understood.resolves_iff {document : Json} (understood : Understood document) :
    Resolves document ↔ ∀ r, Followed document r → Leads document r :=
  ⟨Resolves.leading, fun leading => ⟨fun _ => understood.inside, leading⟩⟩

end ObjectQuery.Shape.Linkage

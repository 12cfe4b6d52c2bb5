import ObjectQuery.Proofs.Shape.Reading

/-! The vocabulary of JSON schemas. It is told by the keywords of a schema and of all schemas in it
whether the schema stands for itself: without the keyword for references it refers to nothing. -/
namespace ObjectQuery.Shape

mutual

/-- The keywords of a schema and of the schemas in it. -/
def keywords : Json → List String
  | .obj members => keywordsIn members
  | _ => []

def keywordsIn : List (String × Json) → List String
  | [] => []
  | (keyword, v) :: rest =>
    keyword :: (match slot keyword with
      | .value => []
      | .shape => keywords v
      | .shapes => keywordsOfItems v
      | .items => keywordsOfItems v ++ keywords v
      | .fields => keywordsOfFields v) ++ keywordsIn rest

def keywordsOfFields : Json → List String
  | .obj members => keywordsOfMembers members
  | _ => []

def keywordsOfMembers : List (String × Json) → List String
  | [] => []
  | (_, v) :: rest => keywords v ++ keywordsOfMembers rest

def keywordsOfItems : Json → List String
  | .arr items => keywordsOfAll items
  | _ => []

def keywordsOfAll : List Json → List String
  | [] => []
  | v :: rest => keywords v ++ keywordsOfAll rest

end

theorem keywordsOfMembers_eq (members : List (String × Json)) :
    keywordsOfMembers members = members.flatMap fun m => keywords m.2 := by
  induction members with
  | nil => rfl
  | cons m rest ih => rw [keywordsOfMembers, ih, List.flatMap_cons]

theorem keywordsOfAll_eq (items : List Json) : keywordsOfAll items = items.flatMap keywords := by
  induction items with
  | nil => rfl
  | cons v rest ih => rw [keywordsOfAll, ih, List.flatMap_cons]

/-- The keywords of an object are its own and those of the schemas under them. -/
theorem keywordsIn_eq (members : List (String × Json)) :
    keywordsIn members =
      members.flatMap fun m => m.1 :: (subschemas m.1 m.2).flatMap keywords := by
  induction members with
  | nil => rfl
  | cons m rest ih =>
    obtain ⟨keyword, v⟩ := m
    rw [keywordsIn, ih, List.flatMap_cons]
    congr 2
    unfold subschemas
    cases slot keyword with
    | value => simp
    | shape => simp
    | shapes => cases v <;> simp [keywordsOfItems, keywordsOfAll_eq]
    | items => cases v <;> simp [keywordsOfItems, keywordsOfAll_eq, keywords]
    | fields => cases v <;> simp [keywordsOfFields, keywordsOfMembers_eq, List.flatMap_map]

theorem Refers.keyword {v : Json} {reference : String} (refers : Refers v reference) :
    "$ref" ∈ keywords v := by
  induction refers with
  | here member =>
    rw [keywords, keywordsIn_eq]
    exact List.mem_flatMap.mpr ⟨_, member, List.mem_cons_self⟩
  | within member below _ ih =>
    rw [keywords, keywordsIn_eq]
    exact List.mem_flatMap.mpr ⟨_, member,
      List.mem_cons_of_mem _ (List.mem_flatMap.mpr ⟨_, below, ih⟩)⟩

/-- The keywords that say something of a value, or that may be passed over. -/
def vocabulary : List String :=
  ["type", "const", "enum", "minimum", "maximum", "minLength", "maxLength", "minItems", "maxItems",
    "required", "pattern", "items", "properties", "additionalProperties", "anyOf", "format",
    "title"]

/-- A schema in the vocabulary, with all the schemas in it. References are not part of it. -/
def IsPlain (v : Json) : Prop := keywords v ⊆ vocabulary

instance (v : Json) : Decidable (IsPlain v) :=
  inferInstanceAs (Decidable (∀ keyword ∈ keywords v, keyword ∈ vocabulary))

theorem IsPlain.not_refers {v : Json} (plain : IsPlain v) (reference : String) :
    ¬ Refers v reference := by
  intro refers
  have known := plain refers.keyword
  revert known
  decide

end ObjectQuery.Shape

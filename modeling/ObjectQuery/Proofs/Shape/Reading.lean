import ObjectQuery.Proofs.Json.Within
import ObjectQuery.Proofs.Shape.Judgement

/-! What the shape that is read from a JSON schema refers to. A reference gets into the shape only
from a place where the reader takes a value for a schema: the schema itself, or what stands under a
keyword that is followed by schemas. -/
namespace ObjectQuery.Shape

open Outcome

/-- What stands under a keyword and is read as a schema. -/
def subschemas (keyword : String) (v : Json) : List Json :=
  match slot keyword, v with
  | .shape, v => [v]
  | .shapes, .arr items => items
  | .items, .arr items => items
  | .items, v => [v]
  | .fields, .obj members => members.map Prod.snd
  | _, _ => []

/-- A reference that stands in a schema, or in one of the schemas in it. -/
inductive Refers : Json → String → Prop
  | here {members : List (String × Json)} {reference : String} :
    ("$ref", .str reference) ∈ members → Refers (.obj members) reference
  | within {members : List (String × Json)} {keyword : String} {v w : Json} {reference : String} :
    (keyword, v) ∈ members → w ∈ subschemas keyword v → Refers w reference →
    Refers (.obj members) reference

theorem refers_obj {members : List (String × Json)} {reference : String} :
    Refers (.obj members) reference ↔ ("$ref", .str reference) ∈ members ∨
      ∃ m ∈ members, ∃ w ∈ subschemas m.1 m.2, Refers w reference := by
  constructor
  · intro refers
    cases refers with
    | here member => exact .inl member
    | within member below inner => exact .inr ⟨_, member, _, below, inner⟩
  · rintro (member | ⟨m, member, w, below, inner⟩)
    · exact .here member
    · exact .within member below inner

/-- The references in what is read under a keyword. -/
def Content.references : Content → List String
  | .value _ => []
  | .shape s => s.references
  | .shapes l => referencesOfAll l
  | .fields l => referencesOfFields l

/-- The reference comes from what stands under a keyword, or it stands there for itself. -/
def Sourced (contents : List (String × Content)) (reference : String) : Prop :=
  (∃ c ∈ contents, reference ∈ c.2.references) ∨
    ("$ref", .value (.str reference)) ∈ contents

theorem mem_of_lookup {α : Type} {l : List (String × α)} {key : String} {value : α}
    (found : l.lookup key = some value) : (key, value) ∈ l := by
  obtain ⟨front, back, rfl, _⟩ := List.lookup_eq_some_iff.mp found
  exact List.mem_append_right front List.mem_cons_self

section Assembly

variable {contents : List (String × Content)} {keyword reference : String} {rules : List Shape}
  {rule : Shape}

theorem sourced_of_lookup {content : Content} (found : contents.lookup keyword = some content)
    (member : reference ∈ content.references) : Sourced contents reference :=
  .inl ⟨(keyword, content), mem_of_lookup found, member⟩

/-- A rule is read from what stands under its keyword. -/
theorem rule?_eq_some {read : Content → Option Shape}
    (done : rule? contents keyword read = some rules) (member : rule ∈ rules) :
    ∃ content, contents.lookup keyword = some content ∧ read content = some rule := by
  unfold rule? at done
  split at done
  · cases done
    cases member
  · next content found =>
    obtain ⟨s, made, rfl⟩ := Option.map_eq_some_iff.mp done
    obtain rfl := List.mem_singleton.mp member
    exact ⟨content, found, made⟩

theorem references_onValue {read : Json → Option Shape}
    (plain : ∀ v s, read v = some s → s.references = []) {content : Content} {s : Shape}
    (done : onValue read content = some s) : s.references = [] := by
  cases content with
  | value v => exact plain v s done
  | shape _ => cases done
  | shapes _ => cases done
  | fields _ => cases done

theorem references_onNumber {make : Number → Shape} (plain : ∀ n, (make n).references = [])
    {content : Content} {s : Shape} (done : onNumber make content = some s) :
    s.references = [] := by
  refine references_onValue (fun v s made => ?_) done
  split at made
  · next n =>
    obtain rfl := Option.some.inj made
    exact plain n
  · cases made

theorem references_onSize {make : Nat → Shape} (plain : ∀ n, (make n).references = [])
    {content : Content} {s : Shape} (done : onSize make content = some s) :
    s.references = [] := by
  refine references_onValue (fun v s made => ?_) done
  split at made
  · obtain ⟨n, _, rfl⟩ := Option.map_eq_some_iff.mp made
    exact plain _
  · cases made

theorem references_kinds {v : Json} {s : Shape} (done : kinds? v = some s) : s.references = [] := by
  unfold kinds? at done
  split at done
  · obtain ⟨_, _, rfl⟩ := Option.map_eq_some_iff.mp done
    rfl
  · obtain ⟨_, _, made⟩ := Option.bind_eq_some_iff.mp done
    obtain ⟨_, _, rfl⟩ := Option.map_eq_some_iff.mp made
    rfl

theorem references_pattern {content : Content} {s : Shape}
    (done : onText pattern? content = some s) : s.references = [] := by
  refine references_onValue (fun v s made => ?_) done
  obtain ⟨source, _, made⟩ := Option.bind_eq_some_iff.mp made
  obtain ⟨_, _, rfl⟩ := Option.map_eq_some_iff.mp made
  rfl

/-- Rules that have no shapes in them refer to nothing. -/
theorem references_valueRules (listed : some rules ∈ valueRules contents) (member : rule ∈ rules) :
    rule.references = [] := by
  simp only [valueRules, List.mem_cons, List.not_mem_nil, or_false,
    eq_comm (a := some rules)] at listed
  rcases listed with type | const | enum | minimum | maximum | minLength | maxLength | minItems |
    maxItems
  · obtain ⟨_, _, made⟩ := rule?_eq_some type member
    exact references_onValue (fun v s => references_kinds) made
  · obtain ⟨_, _, made⟩ := rule?_eq_some const member
    refine references_onValue (fun v s same => ?_) made
    obtain rfl := Option.some.inj same
    rfl
  · obtain ⟨_, _, made⟩ := rule?_eq_some enum member
    refine references_onValue (fun v s same => ?_) made
    obtain ⟨_, _, rfl⟩ := Option.map_eq_some_iff.mp same
    rfl
  · obtain ⟨_, _, made⟩ := rule?_eq_some minimum member
    exact references_onNumber (fun _ => rfl) made
  · obtain ⟨_, _, made⟩ := rule?_eq_some maximum member
    exact references_onNumber (fun _ => rfl) made
  · obtain ⟨_, _, made⟩ := rule?_eq_some minLength member
    exact references_onSize (fun _ => rfl) made
  · obtain ⟨_, _, made⟩ := rule?_eq_some maxLength member
    exact references_onSize (fun _ => rfl) made
  · obtain ⟨_, _, made⟩ := rule?_eq_some minItems member
    exact references_onSize (fun _ => rfl) made
  · obtain ⟨_, _, made⟩ := rule?_eq_some maxItems member
    exact references_onSize (fun _ => rfl) made

theorem sourced_listed {l : List (String × Shape)} (listed : listed? contents = some l)
    (member : reference ∈ referencesOfFields l) : Sourced contents reference := by
  unfold listed? at listed
  split at listed
  · next found =>
    obtain rfl := Option.some.inj listed
    exact sourced_of_lookup found member
  · cases listed

theorem sourced_memberRules {required : List (List String)}
    (member : rule ∈ memberRules contents required) (inside : reference ∈ rule.references) :
    Sourced contents reference := by
  have demand {names : List (List String)} (demanded : rule ∈ names.map Shape.required) :
      Sourced contents reference := by
    obtain ⟨_, _, rfl⟩ := List.mem_map.mp demanded
    cases inside
  unfold memberRules at member
  dsimp only at member
  split at member
  · next l listed _ =>
    have cases : rule = .record l none ∨ rule ∈ required.map Shape.required := by
      split at member <;> simpa [or_comm] using member
    rcases cases with rfl | demanded
    · exact sourced_listed listed inside
    · exact demand demanded
  · next l listed _ =>
    rcases List.mem_append.mp member with demanded | one
    · exact demand demanded
    · obtain rfl := List.mem_singleton.mp one
      exact sourced_listed listed inside
  · next l rest _ _ listed found =>
    rcases List.mem_append.mp member with demanded | one
    · exact demand demanded
    · obtain rfl := List.mem_singleton.mp one
      rcases List.mem_append.mp inside with field | other
      · exact sourced_listed listed field
      · exact sourced_of_lookup found other
  · next rest _ found =>
    rcases List.mem_append.mp member with demanded | one
    · exact demand demanded
    · obtain rfl := List.mem_singleton.mp one
      exact sourced_of_lookup found inside
  · next l listed _ _ _ =>
    rcases List.mem_append.mp member with demanded | one
    · exact demand demanded
    · obtain rfl := List.mem_singleton.mp one
      exact sourced_listed listed inside
  · exact demand member

theorem sourced_lastRules (listed : some rules ∈ lastRules contents) (member : rule ∈ rules)
    (inside : reference ∈ rule.references) : Sourced contents reference := by
  simp only [lastRules, List.mem_cons, List.not_mem_nil, or_false,
    eq_comm (a := some rules)] at listed
  rcases listed with items | anyOf | direct
  · obtain ⟨content, found, made⟩ := rule?_eq_some items member
    refine sourced_of_lookup found ?_
    cases content with
    | shape _ => cases made; exact inside
    | shapes _ => cases made; exact inside
    | value _ => cases made; cases inside
    | fields _ => cases made; cases inside
  · obtain ⟨content, found, made⟩ := rule?_eq_some anyOf member
    refine sourced_of_lookup found ?_
    cases content with
    | shapes _ => cases made; exact inside
    | shape _ => cases made
    | value _ => cases made
    | fields _ => cases made
  · obtain ⟨content, found, made⟩ := rule?_eq_some direct member
    cases content with
    | value v =>
      obtain ⟨text, spelled, same⟩ := Option.bind_eq_some_iff.mp made
      obtain rfl := Option.some.inj same
      obtain rfl : reference = text := List.mem_singleton.mp inside
      cases v with
      | str s =>
        obtain rfl := Option.some.inj spelled
        exact .inr (mem_of_lookup found)
      | _ => cases spelled
    | shape _ => cases made
    | shapes _ => cases made
    | fields _ => cases made

/-- The references of a shape come from the contents that it is assembled from. -/
theorem sourced_of_assemble {s : Shape} (done : assemble? contents = some s)
    (inside : reference ∈ s.references) : Sourced contents reference := by
  simp only [assemble?, Option.bind_eq_bind, Option.bind_eq_some_iff, Option.some.injEq] at done
  obtain ⟨first, values, required, _, pattern, matched, last, others, rfl⟩ := done
  obtain ⟨rule, member, inside⟩ := mem_referencesOfAll.mp inside
  simp only [List.mem_append, List.mem_flatten] at member
  rcases member with ((⟨rules, listed, here⟩ | here) | here) | ⟨rules, listed, here⟩
  · obtain ⟨_, given, rfl⟩ := some_of_mapM values listed
    rw [references_valueRules given here] at inside
    cases inside
  · obtain ⟨_, _, made⟩ := rule?_eq_some matched here
    rw [references_pattern made] at inside
    cases inside
  · exact sourced_memberRules here inside
  · obtain ⟨_, given, rfl⟩ := some_of_mapM others listed
    exact sourced_lastRules given here inside

end Assembly

section Contents

variable {keyword reference : String} {v : Json} {content : Content}

/-- What is read under a keyword. -/
def readContent (keyword : String) (v : Json) : Option Content :=
  match slot keyword with
  | .value => some (.value v)
  | .shape => (read? v).map .shape
  | .shapes => (readAllOf v).map .shapes
  | .items =>
    if isList v then (readAllOf v).map .shapes
    else if isReadable v then (read? v).map .shape
    else some (.value v)
  | .fields => (readFieldsOf v).map .fields

theorem readAll_eq (items : List Json) : readAll items = items.mapM read? := by
  induction items with
  | nil => rfl
  | cons v rest ih =>
    rw [readAll, ih, List.mapM_cons]
    rfl

theorem readFields_eq (members : List (String × Json)) :
    readFields members = members.mapM fun m => (read? m.2).map (m.1, ·) := by
  induction members with
  | nil => rfl
  | cons m rest ih =>
    obtain ⟨name, v⟩ := m
    rw [readFields, ih, List.mapM_cons]
    cases read? v <;> rfl

theorem readContents_eq (members : List (String × Json)) :
    readContents members = members.mapM fun m => (readContent m.1 m.2).map (m.1, ·) := by
  induction members with
  | nil => rfl
  | cons m rest ih =>
    obtain ⟨keyword, v⟩ := m
    have first (content : Option Content) : (do
        let content ← content
        some ((keyword, content) :: (← readContents rest))) = (do
        let b ← content.map (keyword, ·)
        let bs ← readContents rest
        pure (b :: bs)) := by cases content <;> rfl
    rw [List.mapM_cons, ← ih, ← first, readContents, readContent]
    cases slot keyword with
    | items =>
      by_cases list : isList v = true
      · simp only [list, if_true]
      · by_cases readable : isReadable v = true <;> simp only [list, readable] <;> rfl
    | _ => rfl

theorem value_of_readContent {u : Json} (done : readContent keyword v = some (.value u)) :
    u = v := by
  unfold readContent at done
  split at done
  · exact (Content.value.inj (Option.some.inj done)).symm
  · obtain ⟨_, _, other⟩ := Option.map_eq_some_iff.mp done
    cases other
  · obtain ⟨_, _, other⟩ := Option.map_eq_some_iff.mp done
    cases other
  · split at done
    · obtain ⟨_, _, other⟩ := Option.map_eq_some_iff.mp done
      cases other
    · split at done
      · obtain ⟨_, _, other⟩ := Option.map_eq_some_iff.mp done
        cases other
      · exact (Content.value.inj (Option.some.inj done)).symm
  · obtain ⟨_, _, other⟩ := Option.map_eq_some_iff.mp done
    cases other

/-- The references under a keyword are those of the shapes that are read there. -/
theorem references_of_readContent (done : readContent keyword v = some content)
    (inside : reference ∈ content.references) :
    ∃ w ∈ subschemas keyword v, ∃ s, read? w = some s ∧ reference ∈ s.references := by
  have ofShape (under : subschemas keyword v = [v])
      (made : (read? v).map .shape = some content) :
      ∃ w ∈ subschemas keyword v, ∃ s, read? w = some s ∧ reference ∈ s.references := by
    obtain ⟨s, read, rfl⟩ := Option.map_eq_some_iff.mp made
    exact ⟨v, by simp [under], s, read, inside⟩
  have ofShapes (under : ∀ items, v = .arr items → subschemas keyword v = items)
      (made : (readAllOf v).map .shapes = some content) :
      ∃ w ∈ subschemas keyword v, ∃ s, read? w = some s ∧ reference ∈ s.references := by
    obtain ⟨shapes, read, rfl⟩ := Option.map_eq_some_iff.mp made
    cases v with
    | arr items =>
      rw [readAllOf, readAll_eq] at read
      obtain ⟨s, member, here⟩ := mem_referencesOfAll.mp inside
      obtain ⟨w, below, same⟩ := some_of_mapM read member
      exact ⟨w, by rwa [under items rfl], s, same, here⟩
    | _ => cases read
  unfold readContent at done
  split at done
  · next place =>
    obtain rfl := Option.some.inj done
    cases inside
  · next place => exact ofShape (by simp [subschemas, place]) done
  · next place => exact ofShapes (fun items same => by simp [subschemas, place, same]) done
  · next place =>
    split at done
    · exact ofShapes (fun items same => by simp [subschemas, place, same]) done
    · next single =>
      split at done
      · refine ofShape ?_ done
        cases v with
        | arr items => exact absurd rfl single
        | _ => simp [subschemas, place]
      · obtain rfl := Option.some.inj done
        cases inside
  · next place =>
    obtain ⟨l, read, rfl⟩ := Option.map_eq_some_iff.mp done
    cases v with
    | obj members =>
      rw [readFieldsOf, readFields_eq] at read
      obtain ⟨f, member, here⟩ := mem_referencesOfFields.mp inside
      obtain ⟨m, below, same⟩ := some_of_mapM read member
      obtain ⟨s, shape, rfl⟩ := Option.map_eq_some_iff.mp same
      exact ⟨m.2, by simpa [subschemas, place] using ⟨m.1, below⟩, s, shape, here⟩
    | _ => cases read

end Contents

theorem within_of_subschema {keyword : String} {v w : Json} (below : w ∈ subschemas keyword v) :
    w = v ∨ w ∈ v.within := by
  unfold subschemas at below
  split at below
  · exact .inl (List.mem_singleton.mp below)
  · exact .inr (Json.mem_withinItems.mpr ⟨w, below, .inl rfl⟩)
  · exact .inr (Json.mem_withinItems.mpr ⟨w, below, .inl rfl⟩)
  · exact .inl (List.mem_singleton.mp below)
  · obtain ⟨m, inside, rfl⟩ := List.mem_map.mp below
    exact .inr (Json.mem_withinMembers.mpr ⟨m, inside, .inl rfl⟩)
  · cases below

/-- Every reference of a shape stands in the schema that the shape is read from. -/
theorem refers_of_read? {v : Json} {s : Shape} (done : read? v = some s) {reference : String}
    (inside : reference ∈ s.references) : Refers v reference := by
  match v with
  | .bool true | .bool false =>
    obtain rfl := Option.some.inj done
    cases inside
  | .obj members =>
    obtain ⟨contents, read, assembled⟩ := Option.bind_eq_some_iff.mp done
    rw [readContents_eq] at read
    rcases sourced_of_assemble assembled inside with ⟨c, listed, here⟩ | direct
    · obtain ⟨m, member, same⟩ := some_of_mapM read listed
      obtain ⟨content, under, rfl⟩ := Option.map_eq_some_iff.mp same
      obtain ⟨w, below, t, shape, here⟩ := references_of_readContent under here
      exact .within member below (refers_of_read? shape here)
    · obtain ⟨m, member, same⟩ := some_of_mapM read direct
      obtain ⟨content, under, same⟩ := Option.map_eq_some_iff.mp same
      obtain ⟨named, rfl⟩ := Prod.mk.inj same
      have value := value_of_readContent under
      refine .here ?_
      rw [← named, value]
      exact member
termination_by sizeOf v
decreasing_by
  exact Json.sizeOf_within (Json.within_of_member member (within_of_subschema below))

theorem Refers.text_within {v : Json} {reference : String} (refers : Refers v reference) :
    .str reference ∈ v.within := by
  induction refers with
  | here member => exact Json.within_of_member member (.inl rfl)
  | within member below _ ih =>
    exact Json.within_subset (Json.within_of_member member (within_of_subschema below)) ih

end ObjectQuery.Shape

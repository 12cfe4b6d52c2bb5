import ObjectQuery.Proofs.Schema.Connection
import ObjectQuery.Report

/-! The graph of an accepted schema is the one that its description declares. A declared pair of a
parent and a child is one relation, and the two types hold it under each other's names. -/
namespace ObjectQuery

open Outcome

namespace Table

variable {α : Type}

/-- A key that is there stands in one entry. -/
theorem filter_key {l : List (String × α)} (distinct : (l.map Prod.fst).Nodup) {key : String}
    {value : α} (member : (key, value) ∈ l) : (l.filter fun e => e.1 = key) = [(key, value)] := by
  induction l with
  | nil => cases member
  | cons e rest ih =>
    obtain ⟨fresh, distinct⟩ := List.nodup_cons.mp distinct
    rcases List.mem_cons.mp member with rfl | later
    · have others : (rest.filter fun e => e.1 = key) = [] := by
        refine List.filter_eq_nil_iff.mpr fun other inside => ?_
        have apart : other.1 ≠ key := fun same => fresh (List.mem_map.mpr ⟨other, inside, same⟩)
        simpa using apart
      simp [others]
    · have apart : e.1 ≠ key := fun same => fresh (same ▸ List.mem_map.mpr ⟨_, later, rfl⟩)
      simp [apart, ih distinct later]

end Table

namespace Schema

variable {description : Description} {schema : Schema}

/-- What a schema has to hold if its graph is the declared one. -/
structure Depicts (schema : Schema) (description : Description) : Prop where
  types : schema.types.entries.map (fun (name, t) => (name, t.name, t.idFields)) =
    description.entries.map fun (name, d) => (name, name, d.idFields)
  relations : schema.edges.map Edge.relation = description.entries.flatMap fun (name, d) =>
    d.children.entries.map fun (child, refFields) => ⟨name, child, refFields⟩
  once : (schema.edges.map fun e => (e.relation.parent, e.relation.child)).Nodup
  numbered : (schema.edges.map Edge.serial).Nodup
  standing : ∀ t ∈ schema.types.values, t.edges =
    schema.edges.filter fun e => e.relation.parent = t.name ∨ e.relation.child = t.name
  children : ∀ name d t, (name, d) ∈ description.entries → schema.type? name = some t →
    t.children.keys = d.children.keys
  parents : ∀ t ∈ schema.types.values, t.parents.keys =
    (description.entries.filter fun (_, d) => t.name ∈ d.children.keys).map Prod.fst
  childEntry : ∀ t ∈ schema.types.values, ∀ child e, t.children.get? child = some e ↔
    e ∈ schema.edges ∧ e.relation.parent = t.name ∧ e.relation.child = child
  parentEntry : ∀ t ∈ schema.types.values, ∀ parent e, t.parents.get? parent = some e ↔
    e ∈ schema.edges ∧ e.relation.child = t.name ∧ e.relation.parent = parent
  paired : ∀ p ∈ schema.types.values, ∀ c ∈ schema.types.values, ∀ e,
    p.children.get? c.name = some e ↔ c.parents.get? p.name = some e

/-- The types of a schema are those made of the description, with the schema's edges. -/
theorem ofDescription_joined (accepted : ofDescription description = .ok schema) :
    ∃ made : List (String × ObjectType),
      schema.types.entries = made.map (fun e => (e.1, e.2.joined schema.edges)) ∧
      made.map (fun e => (e.1, e.2.name, e.2.idFields)) =
        description.entries.map (fun e => (e.1, e.1, e.2.idFields)) ∧
      (∀ e ∈ made, e.2.name = e.1 ∧ e.2.edges = [] ∧ ∀ down, e.2.related down = .empty) ∧
      schema.edges = number ((declared description).map fun r =>
        ⟨r.parent, r.child, r.refFields⟩) := by
  obtain ⟨made, relations, types, related, numbered, connected⟩ := ofDescription_eq_ok accepted
  have blank := made_blank types
  refine ⟨made, ?_, ?_, blank, ?_⟩
  · have joined := connect_number (fun e member => (blank e member).2.1) relations
    rw [← numbered] at joined
    exact Except.ok.inj (connected.symm.trans joined)
  · exact map_made types fun _ _ _ => rfl
  · have same : relations.map id = _ := map_of_mapM (fun r _ relation step =>
      makeRelation_eq_ok (fun e member => (blank e member).1) step) related
    rw [numbered, ← same, List.map_id]

/-- What a description declares, with the types in their order and then their children. -/
def declaredRelations (types : List (String × TypeDescription)) : List Relation :=
  types.flatMap fun (name, d) =>
    d.children.entries.map fun (child, refFields) => ⟨name, child, refFields⟩

theorem declaredRelations_eq (description : Description) :
    ((declared description).map fun r => (⟨r.parent, r.child, r.refFields⟩ : Relation)) =
      declaredRelations description.entries := by
  simp [declared, declaredRelations, List.map_flatMap, Function.comp_def]

/-- A child is declared once by a parent, and a parent is described once. -/
theorem pairs_distinct (description : Description) :
    ((declaredRelations description.entries).map fun r => (r.parent, r.child)).Nodup := by
  have pairs : ((declaredRelations description.entries).map fun r => (r.parent, r.child)) =
      description.entries.flatMap fun e => e.2.children.keys.map fun child => (e.1, child) := by
    simp [declaredRelations, List.map_flatMap, Table.keys, Function.comp_def]
  rw [pairs]
  refine List.pairwise_flatMap.mpr ⟨fun e _ => ?_, ?_⟩
  · exact List.pairwise_map.mpr (e.2.children.distinct.imp fun other => by simpa using other)
  · refine (List.pairwise_map.mp description.distinct).imp fun other x insideX y insideY => ?_
    obtain ⟨_, _, rfl⟩ := List.mem_map.mp insideX
    obtain ⟨_, _, rfl⟩ := List.mem_map.mp insideY
    exact fun same => other (Prod.mk.inj same).1

theorem childNames {types : List (String × TypeDescription)}
    (distinct : (types.map Prod.fst).Nodup) {name : String} {d : TypeDescription}
    (member : (name, d) ∈ types) :
    ((declaredRelations types).filter fun r => r.parent = name).map Relation.child =
      d.children.keys := by
  have own : ∀ l : List (String × TypeDescription),
      ((declaredRelations l).filter fun r => r.parent = name) =
        declaredRelations (l.filter fun e => e.1 = name) := by
    intro l
    induction l with
    | nil => rfl
    | cons e l ih =>
      rw [declaredRelations, List.flatMap_cons, List.filter_append, ← declaredRelations, ih]
      by_cases same : e.1 = name
      · have all : (e.2.children.entries.filter fun _ => true) = e.2.children.entries :=
          List.filter_eq_self.mpr fun _ _ => rfl
        simp [same, declaredRelations, List.filter_map, Function.comp_def, all]
      · simp [same, List.filter_map, Function.comp_def]
  rw [own, Table.filter_key distinct member]
  simp [declaredRelations, Table.keys, Function.comp_def]

theorem parentNames (types : List (String × TypeDescription)) (name : String) :
    ((declaredRelations types).filter fun r => r.child = name).map Relation.parent =
      (types.filter fun (_, d) => name ∈ d.children.keys).map Prod.fst := by
  induction types with
  | nil => rfl
  | cons e types ih =>
    rw [declaredRelations, List.flatMap_cons, List.filter_append, List.map_append,
      ← declaredRelations, ih, List.filter_map, List.map_map]
    by_cases declares : name ∈ e.2.children.keys
    · obtain ⟨⟨_, refFields⟩, member, rfl⟩ := List.mem_map.mp declares
      have one := Table.filter_key e.2.children.distinct member
      simp [Function.comp_def, one, declares]
    · have none : (e.2.children.entries.filter fun c => c.1 = name) = [] := by
        refine List.filter_eq_nil_iff.mpr fun c inside => ?_
        have other : c.1 ≠ name := fun same => declares (List.mem_map.mpr ⟨c, inside, same⟩)
        simpa using other
      simp [Function.comp_def, none, declares]

/-- In one direction a type has one edge for each name. -/
theorem entries_related {t : ObjectType} {edges : List Edge} {down : Bool}
    (blank : t.related down = .empty)
    (once : (edges.map fun e => (e.relation.parent, e.relation.child)).Nodup) :
    ((t.joined edges).related down).entries =
      (edges.filter fun e => e.relation.near down = t.name).map
        fun e => (e.relation.far down, e) := by
  have listed : (t.joined edges).related down = Table.ofList
      ((edges.filter fun e => e.relation.near down = t.name).map
        fun e => (e.relation.far down, e)) := by
    rw [ObjectType.related_joined, blank, Table.ofList, List.foldl_map]
  rw [listed, Table.entries_ofList]
  rw [List.map_map]
  refine List.pairwise_map.mpr (List.Pairwise.imp_of_mem ?_
    ((List.pairwise_map.mp once).sublist List.filter_sublist))
  intro a b insideA insideB other same
  have nearA := (List.mem_filter.mp insideA).2
  have nearB := (List.mem_filter.mp insideB).2
  cases down <;> simp_all [Relation.near, Relation.far]

section Accepted

variable (accepted : ofDescription description = .ok schema)
include accepted

theorem edges_declared :
    schema.edges.map Edge.relation = declaredRelations description.entries ∧
      (schema.edges.map Edge.serial).Nodup := by
  obtain ⟨_, _, _, _, numbered⟩ := ofDescription_joined accepted
  rw [declaredRelations_eq] at numbered
  rw [numbered, relations_number, serials_number]
  exact ⟨rfl, List.nodup_range⟩

theorem edges_once : (schema.edges.map fun e => (e.relation.parent, e.relation.child)).Nodup := by
  have pairs := pairs_distinct description
  rw [← (edges_declared accepted).1, List.map_map] at pairs
  exact pairs

theorem types_described :
    schema.types.entries.map (fun (name, t) => (name, t.name, t.idFields)) =
      description.entries.map fun (name, d) => (name, name, d.idFields) := by
  obtain ⟨_, entries, described, _, _⟩ := ofDescription_joined accepted
  rw [entries, List.map_map]
  simpa [Function.comp_def, ObjectType.joined_keeps] using described

/-- At both ends of a relation there is a described type. -/
theorem far_described {r : Relation} (declares : r ∈ declaredRelations description.entries)
    (down : Bool) : r.far down ∈ description.keys := by
  obtain ⟨⟨parent, d⟩, described, inside⟩ := List.mem_flatMap.mp declares
  obtain ⟨⟨child, refFields⟩, entry, rfl⟩ := List.mem_map.mp inside
  cases down with
  | false => exact List.mem_map.mpr ⟨_, described, rfl⟩
  | true =>
    obtain ⟨_, _, _, related, _, _⟩ := ofDescription_eq_ok accepted
    have declared : (⟨parent, child, refFields⟩ : Declared) ∈ declared description :=
      List.mem_flatMap.mpr ⟨_, described, List.mem_map.mpr ⟨_, entry, rfl⟩⟩
    obtain ⟨_, _, made⟩ := ok_of_mapM related declared
    unfold makeRelation at made
    split at made
    · next found _ _ => exact List.mem_map.mpr ⟨_, Table.get?_eq_some.mp found, rfl⟩
    · cases made

section OfType

variable {t : ObjectType} (member : t ∈ schema.types.values)
include member

/-- A type is made without relations and then joined to the edges of the schema. -/
theorem exists_joined : ∃ made : ObjectType, made.joined schema.edges = t ∧ made.name = t.name ∧
    made.edges = [] ∧ ∀ down, made.related down = .empty := by
  obtain ⟨made, entries, _, blank, _⟩ := ofDescription_joined accepted
  rw [Table.values, entries, List.map_map] at member
  obtain ⟨e, inside, rfl⟩ := List.mem_map.mp member
  exact ⟨e.2, rfl, (e.2.joined_keeps schema.edges).1.symm, (blank e inside).2⟩

theorem entries_of_edges (down : Bool) :
    (t.related down).entries = (schema.edges.filter fun e => e.relation.near down = t.name).map
      fun e => (e.relation.far down, e) := by
  obtain ⟨made, rfl, same, _, blank⟩ := exists_joined accepted member
  rw [entries_related (blank down) (edges_once accepted), same]

theorem keys_of_declared (down : Bool) :
    (t.related down).keys = ((declaredRelations description.entries).filter
      fun r => r.near down = t.name).map fun r => r.far down := by
  rw [Table.keys, entries_of_edges accepted member down, ← (edges_declared accepted).1,
    List.filter_map, List.map_map, List.map_map]
  rfl

/-- Every relation of a type leads to a type of the schema. -/
theorem type?_related {down : Bool} {name : String} (key : name ∈ (t.related down).keys) :
    ∃ next, schema.type? name = some next := by
  rw [keys_of_declared accepted member down] at key
  obtain ⟨r, inside, rfl⟩ := List.mem_map.mp key
  have known := far_described accepted (List.mem_filter.mp inside).1 down
  rw [← ofDescription_keys accepted] at known
  obtain ⟨⟨_, next⟩, entry, same⟩ := List.mem_map.mp known
  exact ⟨next, Table.get?_eq_some.mpr (same ▸ entry)⟩

theorem get?_related (down : Bool) (other : String) (e : Edge) :
    (t.related down).get? other = some e ↔
      e ∈ schema.edges ∧ e.relation.near down = t.name ∧ e.relation.far down = other := by
  rw [Table.get?_eq_some, entries_of_edges accepted member down, List.mem_map]
  constructor
  · rintro ⟨_, inside, same⟩
    obtain ⟨rfl, rfl⟩ := Prod.mk.inj same
    exact ⟨(List.mem_filter.mp inside).1, by simpa using (List.mem_filter.mp inside).2, rfl⟩
  · rintro ⟨inside, near, rfl⟩
    exact ⟨e, List.mem_filter.mpr ⟨inside, by simpa using near⟩, rfl⟩

theorem keys_parents : t.parents.keys =
    (description.entries.filter fun (_, d) => t.name ∈ d.children.keys).map Prod.fst :=
  (keys_of_declared accepted member false).trans (parentNames description.entries t.name)

theorem keys_children {d : TypeDescription} (described : (t.name, d) ∈ description.entries) :
    t.children.keys = d.children.keys :=
  (keys_of_declared accepted member true).trans (childNames description.distinct described)

end OfType

/-- The graph of an accepted schema is the declared one. -/
theorem ofDescription_depicts : schema.Depicts description where
  types := types_described accepted
  relations := (edges_declared accepted).1
  once := edges_once accepted
  numbered := (edges_declared accepted).2
  standing := by
    intro t member
    obtain ⟨made, rfl, same, none, _⟩ := exists_joined accepted member
    rw [ObjectType.edges_joined, none, List.nil_append]
    refine List.filter_congr fun edge _ => ?_
    rw [← same, Bool.eq_iff_iff, ObjectType.isEndpoint_iff, decide_eq_true_iff]
  children := by
    intro name d t described found
    obtain rfl := (ofDescription_sound accepted).name_of_type? found
    exact keys_children accepted (type?_mem found) described
  parents := fun t member => keys_parents accepted member
  childEntry := fun t member => get?_related accepted member true
  parentEntry := fun t member => get?_related accepted member false
  paired := by
    intro p insideP c insideC e
    rw [show p.children = p.related true from rfl, show c.parents = c.related false from rfl,
      get?_related accepted insideP, get?_related accepted insideC]
    exact and_congr_right fun _ => and_comm

end Accepted

/-- Files with copies, a folder for each file and within each folder, and covers of folders. Both
types are their own children, and each is the other's. -/
def drive : Description :=
  .ofList [
    ("file", Report.describe
      [("name", Report.text), ("folder", Report.text), ("disk", Report.text),
        ("original", Report.text)]
      ["name"] ["name"] [("file", ["original"]), ("folder", ["cover"])]),
    ("folder", Report.describe
      [("path", Report.text), ("disk", Report.text), ("above", Report.text),
        ("cover", Report.text)]
      ["disk"] ["path", "disk"] [("folder", ["above", "disk"]), ("file", ["folder", "disk"])])]

theorem ofDescription_depicts_drive : ∃ schema, ofDescription drive = .ok schema ∧
    schema.types.values.map (fun t => t.edges.map fun e => (e.relation.parent, e.relation.child)) =
      [[("file", "file"), ("file", "folder"), ("folder", "file")],
        [("file", "folder"), ("folder", "folder"), ("folder", "file")]] ∧
    schema.types.values.map (fun t => (t.children.keys, t.parents.keys)) =
      [(["file", "folder"], ["file", "folder"]), (["folder", "file"], ["file", "folder"])] ∧
    schema.Depicts drive := by
  have run : (do
      let schema ← (ofDescription drive).toOption
      pure (schema.types.values.map fun t => t.edges.map fun e =>
          (e.relation.parent, e.relation.child),
        schema.types.values.map fun t => (t.children.keys, t.parents.keys))) = some
      ([[("file", "file"), ("file", "folder"), ("folder", "file")],
          [("file", "folder"), ("folder", "folder"), ("folder", "file")]],
        [(["file", "folder"], ["file", "folder"]), (["folder", "file"], ["file", "folder"])]) := by
    decide +kernel
  simp only [Option.bind_eq_bind, Option.pure_def, Option.bind_eq_some_iff, toOption_eq_some,
    Option.some.injEq, Prod.mk.injEq] at run
  obtain ⟨schema, accepted, edges, tables⟩ := run
  exact ⟨schema, accepted, edges, tables, ofDescription_depicts accepted⟩

end Schema

end ObjectQuery

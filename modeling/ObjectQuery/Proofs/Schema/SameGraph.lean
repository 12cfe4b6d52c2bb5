import ObjectQuery.Proofs.Correspondence
import ObjectQuery.Proofs.Schema.Graph

/-! Descriptions that declare the same graph of types, in whatever order and with whatever fields.
Their schemas have the same types with relations to the same types. If the order of declarations is
the same as well, these relations stand in the same order. -/
namespace ObjectQuery

namespace Description

/-- The types, each with the number of its ID fields. -/
def idCounts (description : Description) : List (String × Nat) :=
  description.entries.map fun (name, d) => (name, d.idFields.length)

/-- The pairs of a parent and one of its children. -/
def families (description : Description) : List (String × String) :=
  description.entries.flatMap fun (parent, d) => d.children.keys.map fun child => (parent, child)

/-- The same type names with the same numbers of ID fields, and the same pairs of a parent and a
child. Nothing is said of fields, of their schemas, or of the order of anything. -/
structure SameGraph (x y : Description) : Prop where
  types : ∀ e, e ∈ x.idCounts ↔ e ∈ y.idCounts
  pairs : ∀ e, e ∈ x.families ↔ e ∈ y.families

/-- The types are declared in the same order, and the children of each type too. -/
def SameOrder (x y : Description) : Prop :=
  (x.entries.map fun (name, d) => (name, d.children.keys)) =
    y.entries.map fun (name, d) => (name, d.children.keys)

theorem mem_idCounts {description : Description} {name : String} {count : Nat} :
    (name, count) ∈ description.idCounts ↔
      ∃ d, (name, d) ∈ description.entries ∧ d.idFields.length = count := by
  simp [idCounts]

theorem mem_families {description : Description} {parent child : String} :
    (parent, child) ∈ description.families ↔
      ∃ d, (parent, d) ∈ description.entries ∧ child ∈ d.children.keys := by
  simp [families]

theorem mem_keys {description : Description} {name : String} :
    name ∈ description.keys ↔ ∃ count, (name, count) ∈ description.idCounts := by
  simp [idCounts, Table.keys]

theorem SameOrder.keys {x y : Description} (order : x.SameOrder y) : x.keys = y.keys := by
  have names := congrArg (List.map Prod.fst) order
  simpa [Table.keys, Function.comp_def] using names

end Description

/-- Types of one name with as many ID fields and with relations to the same types. -/
structure ObjectType.Alike (ordered : Prop) (t u : ObjectType) : Prop where
  name : t.name = u.name
  count : t.idFields.length = u.idFields.length
  related : ∀ down, Matched ordered Eq (t.related down).keys (u.related down).keys

theorem Matched.ofPerm {α : Type} {ordered : Prop} {l m : List α} (perm : l.Perm m)
    (same : ordered → l = m) : Matched ordered Eq l m :=
  ⟨l, List.forall₂_same.mpr fun _ _ => rfl, perm, same⟩

namespace Schema

variable {description : Description} {schema : Schema}

/-- What a type has from its description. -/
structure Described (description : Description) (t : ObjectType) (d : TypeDescription) : Prop where
  entry : (t.name, d) ∈ description.entries
  idFields : t.idFields = d.idFields
  children : t.children.keys = d.children.keys
  parents : t.parents.keys =
    (description.entries.filter fun (_, d) => t.name ∈ d.children.keys).map Prod.fst

theorem exists_described (accepted : ofDescription description = .ok schema) {t : ObjectType}
    (member : t ∈ schema.types.values) : ∃ d, Described description t d := by
  obtain ⟨⟨name, u⟩, inside, rfl⟩ := List.mem_map.mp member
  obtain rfl : u.name = name := (ofDescription_sound accepted).named _ inside
  have listed : (u.name, u.name, u.idFields) ∈
      description.entries.map fun (name, d) => (name, name, d.idFields) := by
    rw [← types_described accepted]
    exact List.mem_map.mpr ⟨_, inside, rfl⟩
  obtain ⟨⟨name, d⟩, entry, same⟩ := List.mem_map.mp listed
  obtain ⟨rfl, same⟩ := Prod.mk.inj same
  exact ⟨d, entry, (Prod.mk.inj same).2.symm, keys_children accepted member entry,
    keys_parents accepted member⟩

theorem Described.mem_parents {t : ObjectType} {d : TypeDescription}
    (described : Described description t d) {parent : String} :
    parent ∈ t.parents.keys ↔ (parent, t.name) ∈ description.families := by
  rw [described.parents, List.mem_map, Description.mem_families]
  constructor
  · rintro ⟨⟨_, p⟩, inside, rfl⟩
    obtain ⟨entry, declared⟩ := List.mem_filter.mp inside
    exact ⟨p, entry, by simpa using declared⟩
  · rintro ⟨p, entry, declared⟩
    exact ⟨(parent, p), List.mem_filter.mpr ⟨entry, by simpa using declared⟩, rfl⟩

theorem Described.mem_children {t : ObjectType} {d : TypeDescription}
    (described : Described description t d) {child : String} :
    child ∈ t.children.keys ↔ (t.name, child) ∈ description.families := by
  rw [described.children, Description.mem_families]
  constructor
  · intro declared
    exact ⟨d, described.entry, declared⟩
  · rintro ⟨e, entry, declared⟩
    have one : some e = some d :=
      (Table.get?_eq_some.mpr entry).symm.trans (Table.get?_eq_some.mpr described.entry)
    exact Option.some.inj one ▸ declared

section TwoDescriptions

variable {x y : Description} {ordered : Prop} (graph : x.SameGraph y)
  (order : ordered → x.SameOrder y)
include graph order

/-- Types of one name come out alike. -/
theorem Described.alike {t u : ObjectType} {d e : TypeDescription} (left : Described x t d)
    (right : Described y u e) (named : t.name = u.name) : t.Alike ordered u where
  name := named
  count := by
    have counted : (t.name, t.idFields.length) ∈ x.idCounts :=
      Description.mem_idCounts.mpr ⟨d, left.entry, by rw [left.idFields]⟩
    obtain ⟨e', entry, count⟩ := Description.mem_idCounts.mp ((graph.types _).mp counted)
    have one : some e' = some e := by
      rw [named] at entry
      exact (Table.get?_eq_some.mpr entry).symm.trans (Table.get?_eq_some.mpr right.entry)
    rw [right.idFields, ← Option.some.inj one, count]
  related := by
    intro down
    cases down with
    | true =>
      refine .ofPerm
        ((List.perm_ext_iff_of_nodup t.children.distinct u.children.distinct).mpr ?_) ?_
      · intro child
        have declared := graph.pairs (t.name, child)
        rw [← left.mem_children, named, ← right.mem_children] at declared
        exact declared
      · intro exact
        have listed : (u.name, d.children.keys) ∈
            y.entries.map fun (name, d) => (name, d.children.keys) := by
          rw [← order exact, ← named]
          exact List.mem_map.mpr ⟨_, left.entry, rfl⟩
        obtain ⟨⟨_, e'⟩, entry, same⟩ := List.mem_map.mp listed
        obtain ⟨rfl, declared⟩ := Prod.mk.inj same
        have one : some e' = some e :=
          (Table.get?_eq_some.mpr entry).symm.trans (Table.get?_eq_some.mpr right.entry)
        have keys : t.children.keys = u.children.keys := by
          rw [left.children, right.children, ← Option.some.inj one, ← declared]
        exact keys
    | false =>
      refine .ofPerm ((List.perm_ext_iff_of_nodup t.parents.distinct u.parents.distinct).mpr ?_) ?_
      · intro parent
        have declared := graph.pairs (parent, t.name)
        rw [← left.mem_parents, named, ← right.mem_parents] at declared
        exact declared
      · intro exact
        have names (z : Description) (name : String) :
            (z.entries.filter fun (_, d) => name ∈ d.children.keys).map Prod.fst =
              ((z.entries.map fun (name, d) => (name, d.children.keys)).filter
                fun e => name ∈ e.2).map Prod.fst := by
          simp [List.filter_map, Function.comp_def]
        have keys : t.parents.keys = u.parents.keys := by
          rw [left.parents, right.parents, names, names, order exact, named]
        exact keys

end TwoDescriptions

/-- Schemas over the same graph of types. -/
structure Alike (ordered : Prop) (s t : Schema) : Prop where
  left : s.Sound
  right : t.Sound
  types : Matched ordered (ObjectType.Alike ordered) s.types.values t.types.values

theorem alike_of_sameGraph {x y : Description} {s t : Schema} {ordered : Prop}
    (acceptedX : ofDescription x = .ok s) (acceptedY : ofDescription y = .ok t)
    (graph : x.SameGraph y) (order : ordered → x.SameOrder y) : s.Alike ordered t := by
  have left := ofDescription_sound acceptedX
  have right := ofDescription_sound acceptedY
  refine ⟨left, right, Matched.imp (R := fun a b => a.name = b.name) (.ofMarks ?_ ?_) ?_⟩
  · rw [left.names, right.names, ofDescription_keys acceptedX, ofDescription_keys acceptedY]
    refine (List.perm_ext_iff_of_nodup x.distinct y.distinct).mpr ?_
    intro name
    have counts := exists_congr fun count => graph.types (name, count)
    rw [← Description.mem_keys, ← Description.mem_keys] at counts
    exact counts
  · intro exact
    rw [left.names, right.names, ofDescription_keys acceptedX, ofDescription_keys acceptedY]
    exact (order exact).keys
  · intro a insideA b insideB named
    obtain ⟨_, describedA⟩ := exists_described acceptedX insideA
    obtain ⟨_, describedB⟩ := exists_described acceptedY insideB
    exact describedA.alike graph order describedB named

namespace Alike

variable {s t : Schema} {ordered : Prop} (alike : s.Alike ordered t)
include alike

theorem size_eq : s.types.size = t.types.size := by
  have lengths := alike.types.length_eq
  simpa [Table.values, Table.size] using lengths

/-- A name is looked up with alike results. -/
theorem type? (name : String) : (s.type? name = none ∧ t.type? name = none) ∨
    ∃ a b, s.type? name = some a ∧ t.type? name = some b ∧ a.Alike ordered b := by
  cases foundS : s.type? name with
  | some a =>
    obtain ⟨b, inside, related⟩ := alike.types.exists_right (type?_mem foundS)
    have foundT := alike.right.type?_name inside
    rw [← related.name, alike.left.name_of_type? foundS] at foundT
    exact .inr ⟨a, b, rfl, foundT, related⟩
  | none =>
    cases foundT : t.type? name with
    | none => exact .inl ⟨rfl, rfl⟩
    | some b =>
      obtain ⟨a, inside, related⟩ := alike.types.exists_left (type?_mem foundT)
      have missed := alike.left.type?_name inside
      rw [related.name, alike.right.name_of_type? foundT, foundS] at missed
      cases missed

end Alike

end Schema

end ObjectQuery

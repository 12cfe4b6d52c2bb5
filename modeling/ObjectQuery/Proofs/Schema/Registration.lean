import ObjectQuery.Proofs.Schema.Connection

/-! Registration of relations one at a time. A relation is checked against the types as they are by
then, and registered at its two ends before the next one is looked at. That comes to the same schema
or to the same fault as checking all relations first and connecting each type with its edges. -/
namespace ObjectQuery

open Outcome

namespace Table

variable {α β : Type}

theorem lookup_map_keyed (f : String → α → β) (l : List (String × α)) (key : String) :
    (l.map fun e => (e.1, f e.1 e.2)).lookup key = (l.lookup key).map (f key) := by
  induction l with
  | nil => rfl
  | cons e l ih =>
    rw [List.map_cons, List.lookup_cons, List.lookup_cons, ih]
    cases same : key == e.1 with
    | true => rw [eq_of_beq same, Option.map_some]
    | false => rfl

theorem lookup_map (f : α → β) (l : List (String × α)) (key : String) :
    (l.map fun e => (e.1, f e.2)).lookup key = (l.lookup key).map f :=
  lookup_map_keyed (fun _ => f) l key

theorem map_congr {t : Table α} {f g : α → β} (same : ∀ e ∈ t.entries, f e.2 = g e.2) :
    t.map f = t.map g := by
  ext1
  exact List.map_congr_left fun e member => by rw [same e member]

theorem map_ofList (f : α → β) {l : List (String × α)} (distinct : (l.map Prod.fst).Nodup) :
    (ofList l).map f = ofList (l.map fun e => (e.1, f e.2)) := by
  have kept : ((l.map fun e => (e.1, f e.2)).map Prod.fst).Nodup := by
    simpa [Function.comp_def] using distinct
  ext1
  rw [entries_ofList kept]
  exact congrArg (List.map fun e => (e.1, f e.2)) (entries_ofList distinct)

/-- A write under a known key changes one value of a mapped table. -/
theorem insert_map {t : Table α} {f g : α → β} {key : String} {value : α}
    (member : (key, value) ∈ t.entries) (others : ∀ e ∈ t.entries, e.1 ≠ key → f e.2 = g e.2) :
    (t.map f).insert key (g value) = t.map g := by
  have written : ∀ l : List (String × α), (l.map Prod.fst).Nodup → (key, value) ∈ l →
      (∀ e ∈ l, e.1 ≠ key → f e.2 = g e.2) →
      write key (g value) (l.map fun e => (e.1, f e.2)) = l.map fun e => (e.1, g e.2) := by
    intro l distinct member others
    induction l with
    | nil => cases member
    | cons e l ih =>
      obtain ⟨fresh, distinct⟩ := List.nodup_cons.mp distinct
      rcases List.mem_cons.mp member with rfl | inside
      · have same : (l.map fun e => (e.1, f e.2)) = l.map fun e => (e.1, g e.2) := by
          refine List.map_congr_left fun e inside => ?_
          have apart : e.1 ≠ key := fun same => fresh (List.mem_map.mpr ⟨e, inside, same⟩)
          rw [others e (List.mem_cons_of_mem _ inside) apart]
        simp [write, same]
      · have apart : e.1 ≠ key := fun same => fresh (same ▸ List.mem_map.mpr ⟨_, inside, rfl⟩)
        rw [List.map_cons, List.map_cons, write, if_neg apart,
          ih distinct inside fun other within => others other (List.mem_cons_of_mem e within),
          others e List.mem_cons_self apart]
  ext1
  exact written t.entries t.distinct member others

end Table

/-- The types on the way to a schema, and the edges that they have so far. -/
structure Registry where
  types : Table ObjectType
  edges : List Edge

namespace Registry

open Schema

/-- Registers an edge with the type of a name. -/
def register (e : Edge) (name : String) (types : Table ObjectType) :
    Except SchemaFault (Table ObjectType) :=
  match types.get? name with
  | some t => do pure (types.insert name (← t.register e))
  | none => .ok types

/-- Takes up a declared relation. A type that is its own child has the relation registered once. -/
def enter (description : Description) (r : Registry) (d : Declared) :
    Except SchemaFault Registry := do
  let relation ← makeRelation description r.types.entries d
  let e : Edge := ⟨r.edges.length, relation⟩
  let atParent ← register e d.parent r.types
  let types ← if d.child = d.parent then pure atParent else register e d.child atParent
  pure ⟨types, r.edges ++ [e]⟩

end Registry

namespace Schema

def ofRegistrations (description : Description) : Except SchemaFault Schema := do
  let types ← description.entries.mapM fun (name, d) => do pure (name, ← makeType name d)
  let shape := collectionShape (types.map fun (name, t) => (name, t.shape))
  let some validator := Validator.compile? "schema" shape | throw (.invalidShape "schema")
  let r ← (declared description).foldlM (Registry.enter description) ⟨.ofList types, []⟩
  pure ⟨r.types, r.edges, shape, validator⟩

/-- A relation is made of the names and the ID fields of its types alone. -/
theorem makeRelation_map (description : Description) {f : ObjectType → ObjectType}
    (keeps : ∀ t, (f t).name = t.name ∧ (f t).idFields = t.idFields)
    (types : List (String × ObjectType)) (d : Declared) :
    makeRelation description (types.map fun e => (e.1, f e.2)) d =
      makeRelation description types d := by
  unfold makeRelation
  rw [Table.lookup_map, Table.lookup_map]
  cases description.get? d.child with
  | none => rfl
  | some _ =>
    cases types.lookup d.parent with
    | none => rfl
    | some parent =>
      cases types.lookup d.child with
      | none => rfl
      | some child => simp [Relation.make, keeps]

theorem makeRelation_known {description : Description} {types : List (String × ObjectType)}
    {d : Declared} {relation : Relation} (done : makeRelation description types d = .ok relation) :
    ∃ parent child, types.lookup d.parent = some parent ∧ types.lookup d.child = some child := by
  unfold makeRelation at done
  split at done
  · next parent child _ foundParent foundChild => exact ⟨parent, child, foundParent, foundChild⟩
  · cases done

end Schema

namespace Registry

open Schema

section Loop

variable {description : Description} {types : Table ObjectType}
  (named : ∀ e ∈ types.entries, e.2.name = e.1) (blank : ∀ e ∈ types.entries, e.2.edges = [])

/-- The registry after some relations. -/
def reached (types : Table ObjectType) (relations : List Relation) : Registry :=
  ⟨types.map (·.joined (number relations)), number relations⟩

/-- A type while an edge is registered, when it is known at some of its ends. -/
def touched (edges : List Edge) (e : Edge) (ends : List String) (t : ObjectType) : ObjectType :=
  if t.name ∈ ends then (t.joined edges).attach e else t.joined edges

include named blank in
theorem register_touched {relations : List Relation} {r : Relation} {name : String}
    {ends : List String} {t : ObjectType} (found : types.get? name = some t)
    (stands : r.parent = name ∨ r.child = name) (new : name ∉ ends) :
    let e : Edge := ⟨relations.length, r⟩
    register e name (types.map (touched (number relations) e ends)) =
      .ok (types.map (touched (number relations) e (name :: ends))) := by
  intro e
  have member := Table.get?_eq_some.mp found
  obtain rfl : t.name = name := named _ member
  have untouched : (types.map (touched (number relations) e ends)).get? t.name =
      some (t.joined (number relations)) := by
    have mapped := Table.lookup_map (touched (number relations) e ends) types.entries t.name
    rw [show types.entries.lookup t.name = some t from found] at mapped
    exact mapped.trans (by simp [touched, new])
  have registered : (t.joined (number relations)).register e =
      .ok (touched (number relations) e (t.name :: ends) t) := by
    have attached : touched (number relations) e (t.name :: ends) t =
        (t.joined (number relations)).attach e := if_pos List.mem_cons_self
    rw [attached]
    refine ObjectType.register_eq_attach ?_ fun known inside => ?_
    · rw [ObjectType.isEndpoint_iff, (t.joined_keeps _).1]
      exact stands
    · -- an edge that the type has by then was numbered before this one
      rw [ObjectType.edges_joined, blank _ member, List.nil_append] at inside
      have serial : known.serial ∈ (number relations).map Edge.serial :=
        List.mem_map_of_mem (List.mem_filter.mp inside).1
      rw [serials_number, List.mem_range] at serial
      exact Nat.ne_of_lt serial
  rw [register, untouched]
  dsimp only
  rw [registered]
  refine congrArg Except.ok (Table.insert_map member fun other inside apart => ?_)
  have elsewhere : other.2.name ≠ t.name := by rwa [named other inside]
  simp [touched, elsewhere]

include named blank in
/-- One relation is registered with both its types, or refused before that. -/
theorem enter_reached (relations : List Relation) (d : Declared) :
    enter description (reached types relations) d =
      (makeRelation description types.entries d).map
        fun r => reached types (relations ++ [r]) := by
  have checked : makeRelation description (reached types relations).types.entries d =
      makeRelation description types.entries d :=
    makeRelation_map description (fun t => t.joined_keeps _) types.entries d
  rw [enter, checked]
  cases made : makeRelation description types.entries d with
  | error => rfl
  | ok r =>
    obtain ⟨parent, child, foundParent, foundChild⟩ := makeRelation_known made
    have ends := makeRelation_eq_ok named made
    have size : (number relations).length = relations.length := by simp [number]
    let e : Edge := ⟨relations.length, r⟩
    have atNone : types.map (·.joined (number relations)) =
        types.map (touched (number relations) e []) := rfl
    have atParent : register e d.parent (types.map (·.joined (number relations))) =
        .ok (types.map (touched (number relations) e [d.parent])) := by
      rw [atNone]
      exact register_touched named blank foundParent (.inl (by rw [ends])) (by simp)
    have atBoth (names : List String)
        (all : ∀ name, name ∈ names ↔ r.parent = name ∨ r.child = name) :
        types.map (touched (number relations) e names) =
          types.map (·.joined (number (relations ++ [r]))) := by
      refine Table.map_congr fun entry _ => ?_
      rw [number_snoc, ObjectType.joined_snoc, touched, ObjectType.join]
      simp only [all, ObjectType.isEndpoint_iff, (entry.2.joined_keeps _).1]
      rfl
    have added : number relations ++ [e] = number (relations ++ [r]) :=
      (number_snoc relations r).symm
    have edge : (⟨(number relations).length, r⟩ : Edge) = e := by rw [size]
    -- a type that is its own child stands at both ends, and is written once
    by_cases itself : d.child = d.parent
    · have both := atBoth [d.parent] (by simp [ends, itself, eq_comm])
      simp [reached, edge, atParent, itself, both, added, Except.map]
    · have atChild : register e d.child (types.map (touched (number relations) e [d.parent])) =
          .ok (types.map (touched (number relations) e [d.child, d.parent])) :=
        register_touched named blank foundChild (.inr (by rw [ends])) (by simpa using itself)
      have both := atBoth [d.child, d.parent] (by simp [ends, eq_comm, or_comm])
      simp [reached, edge, atParent, itself, atChild, both, added, Except.map]

include named blank in
theorem foldlM_enter (relations : List Relation) (ds : List Declared) :
    ds.foldlM (enter description) (reached types relations) =
      (ds.mapM (makeRelation description types.entries)).map
        fun new => reached types (relations ++ new) := by
  induction ds generalizing relations with
  | nil => simp [Except.map, pure, Except.pure]
  | cons d ds ih =>
    rw [List.foldlM_cons, List.mapM_cons, enter_reached named blank]
    cases makeRelation description types.entries d with
    | error => rfl
    | ok r =>
      refine (ih (relations ++ [r])).trans ?_
      cases ds.mapM (makeRelation description types.entries) with
      | error => rfl
      | ok new => exact congrArg (fun all => Except.ok (reached types all)) (by simp)

end Loop

end Registry

namespace Schema

theorem ofRegistrations_eq_ofDescription (description : Description) :
    ofRegistrations description = ofDescription description := by
  rw [ofDescription_eq, ofRegistrations]
  cases types : description.entries.mapM fun e => do pure (e.1, ← makeType e.1 e.2) with
  | error => rfl
  | ok made =>
    have blank := made_blank types
    have distinct : (made.map Prod.fst).Nodup := mapM_keys types ▸ description.distinct
    have entries : (Table.ofList made).entries = made := Table.entries_ofList distinct
    have start : (⟨.ofList made, []⟩ : Registry) = Registry.reached (.ofList made) [] := by
      refine congrArg (Registry.mk · []) (Table.ext ?_)
      simp [Table.map, number]
    have named : ∀ e ∈ (Table.ofList made).entries, e.2.name = e.1 := by
      rw [entries]
      exact fun e member => (blank e member).1
    have free : ∀ e ∈ (Table.ofList made).entries, e.2.edges = [] := by
      rw [entries]
      exact fun e member => (blank e member).2.1
    have loop := @Registry.foldlM_enter description _ named free [] (declared description)
    rw [← start, entries] at loop
    dsimp only [bind, Except.bind]
    rw [loop]
    cases Validator.compile? "schema" (collectionShape (made.map fun e => (e.1, e.2.shape))) with
    | none => rfl
    | some validator =>
      cases (declared description).mapM (makeRelation description made) with
      | error => rfl
      | ok relations => simp [Except.map, Registry.reached, Table.map_ofList _ distinct]

end Schema

end ObjectQuery

import ObjectQuery.Chain.Expansion
import ObjectQuery.Proofs.Schema.Accepted

/-! Walks over the graph of types in one direction, as long as there are new types to step into.
From every type they can be listed completely, each once, in the order of a depth-first search. -/
namespace ObjectQuery

/-- The types that a walk steps into. Each is related to the one before it and has not been seen,
and a walk stops only where all related types have been. -/
inductive Walk (schema : Schema) (down : Bool) :
    ObjectType → List String → List ObjectType → Prop
  | stop {type : ObjectType} {seen : List String} :
      (∀ name ∈ (type.related down).keys, name ∈ seen) → Walk schema down type seen []
  | step {type next : ObjectType} {seen : List String} {rest : List ObjectType} :
      next.name ∈ (type.related down).keys → next.name ∉ seen →
      schema.type? next.name = some next → Walk schema down next (next.name :: seen) rest →
      Walk schema down type seen (next :: rest)

namespace Walk

/-- Where two walks part, the first takes the relation that stands before the other's. -/
inductive Before (down : Bool) : ObjectType → List ObjectType → List ObjectType → Prop
  | parted {type a b : ObjectType} {as bs : List ObjectType} :
      [a.name, b.name].Sublist (type.related down).keys → Before down type (a :: as) (b :: bs)
  | along {type a : ObjectType} {as bs : List ObjectType} :
      Before down a as bs → Before down type (a :: as) (a :: bs)

theorem Before.ne {down : Bool} {type : ObjectType} {as bs : List ObjectType}
    (before : Before down type as bs) : as ≠ bs := by
  induction before with
  | @parted type a b as bs first =>
    intro same
    obtain rfl := (List.cons.inj same).1
    have distinct : (type.related down).keys.Pairwise (· ≠ ·) := (type.related down).distinct
    exact List.pairwise_iff_forall_sublist.mp distinct first rfl
  | along _ ih => exact fun same => ih (List.cons.inj same).2

/-- All walks from a type, each once, in the order of a depth-first search. -/
structure Listing (schema : Schema) (down : Bool) (type : ObjectType) (seen : List String)
    (walks : List (List ObjectType)) : Prop where
  complete : ∀ walk, walk ∈ walks ↔ Walk schema down type seen walk
  once : walks.Nodup
  ordered : walks.Pairwise (Before down type)

end Walk

/-- The names one step away that have not been seen. -/
def ObjectType.exits (type : ObjectType) (down : Bool) (seen : List String) : List String :=
  (type.related down).keys.filter fun name => !seen.contains name

theorem mem_exits {type : ObjectType} {down : Bool} {seen : List String} {name : String} :
    name ∈ type.exits down seen ↔ name ∈ (type.related down).keys ∧ name ∉ seen := by
  simp [ObjectType.exits]

theorem exits_eq_nil {type : ObjectType} {down : Bool} {seen : List String} :
    type.exits down seen = [] ↔ ∀ name ∈ (type.related down).keys, name ∈ seen := by
  simp [ObjectType.exits, List.filter_eq_nil_iff]

/-- The walks from a type that take at most the given number of steps; longer ones are cut. -/
def walksWithin (schema : Schema) (down : Bool) :
    Nat → ObjectType → List String → List (List ObjectType)
  | 0, _, _ => [[]]
  | steps + 1, type, seen =>
    if type.exits down seen = [] then [[]]
    else ((type.exits down seen).filterMap schema.type?).flatMap fun next =>
      (walksWithin schema down steps next (next.name :: seen)).map (next :: ·)

/-- The number of types of a schema that have not been seen. -/
def room (schema : Schema) (seen : List String) : Nat :=
  (schema.types.keys.filter fun name => !seen.contains name).length

theorem room_le_size (schema : Schema) (seen : List String) :
    room schema seen ≤ schema.types.size := by
  have bound := List.length_filter_le (fun name => !seen.contains name) schema.types.keys
  simpa [room, Table.keys, Table.size] using bound

theorem room_step {schema : Schema} {seen : List String} {name : String}
    (known : name ∈ schema.types.keys) (new : name ∉ seen) :
    room schema (name :: seen) < room schema seen := by
  have split : (schema.types.keys.filter fun n => !(name :: seen).contains n) =
      (schema.types.keys.filter fun n => !seen.contains n).filter fun n => n != name := by
    rw [List.filter_filter]
    congr 1
    funext n
    by_cases same : n = name <;> simp [same]
  unfold room
  rw [split, List.length_filter_lt_length_iff_exists]
  exact ⟨name, by simp [known, new], by simp⟩

section Listing

variable {schema : Schema} {down : Bool} (sound : schema.Sound)
include sound

theorem mem_nexts {type next : ObjectType} {seen : List String} :
    next ∈ (type.exits down seen).filterMap schema.type? ↔
      next.name ∈ (type.related down).keys ∧ next.name ∉ seen ∧
        schema.type? next.name = some next := by
  rw [List.mem_filterMap]
  constructor
  · rintro ⟨name, exit, found⟩
    obtain rfl := sound.name_of_type? found
    exact ⟨(mem_exits.mp exit).1, (mem_exits.mp exit).2, found⟩
  · rintro ⟨related, new, found⟩
    exact ⟨next.name, mem_exits.mpr ⟨related, new⟩, found⟩

theorem mem_walksWithin {steps : Nat} {type : ObjectType} {seen : List String}
    (enough : room schema seen < steps) {walk : List ObjectType} :
    walk ∈ walksWithin schema down steps type seen ↔ Walk schema down type seen walk := by
  induction steps generalizing type seen walk with
  | zero => omega
  | succ steps ih =>
    rw [walksWithin]
    split
    · next closed =>
      constructor
      · intro member
        rw [List.mem_singleton.mp member]
        exact .stop (exits_eq_nil.mp closed)
      · intro walks
        cases walks with
        | stop => simp
        | step related new => exact absurd (exits_eq_nil.mp closed _ related) new
    · next opened =>
      have later {next : ObjectType}
          (member : next ∈ (type.exits down seen).filterMap schema.type?) :
          room schema (next.name :: seen) < steps := by
        obtain ⟨_, new, found⟩ := (mem_nexts sound).mp member
        have known : next.name ∈ schema.types.keys :=
          List.mem_map.mpr ⟨_, Table.get?_eq_some.mp found, rfl⟩
        have smaller := room_step known new
        omega
      rw [List.mem_flatMap]
      constructor
      · rintro ⟨next, member, inside⟩
        obtain ⟨rest, walks, rfl⟩ := List.mem_map.mp inside
        obtain ⟨related, new, found⟩ := (mem_nexts sound).mp member
        exact .step related new found ((ih (later member)).mp walks)
      · intro walks
        cases walks with
        | stop closed => exact absurd (exits_eq_nil.mpr closed) opened
        | step related new found rest =>
          have member := (mem_nexts sound).mpr ⟨related, new, found⟩
          exact ⟨_, member, List.mem_map_of_mem ((ih (later member)).mpr rest)⟩

/-- The types one step away come in the order of the relations to them. -/
theorem nexts_ordered (type : ObjectType) (seen : List String) :
    ((type.exits down seen).filterMap schema.type?).Pairwise fun a b =>
      [a.name, b.name].Sublist (type.related down).keys := by
  rw [List.pairwise_filterMap, List.pairwise_iff_forall_sublist]
  intro m n sublist a foundA b foundB
  rw [sound.name_of_type? foundA, sound.name_of_type? foundB]
  exact sublist.trans List.filter_sublist

theorem walksWithin_ordered (steps : Nat) (type : ObjectType) (seen : List String) :
    (walksWithin schema down steps type seen).Pairwise (Walk.Before down type) := by
  induction steps generalizing type seen with
  | zero => simp [walksWithin]
  | succ steps ih =>
    rw [walksWithin]
    split
    · simp
    · rw [List.pairwise_flatMap]
      constructor
      · intro next _
        exact List.pairwise_map.mpr ((ih next (next.name :: seen)).imp .along)
      · refine (nexts_ordered sound type seen).imp fun {a b} first => ?_
        intro x insideX y insideY
        obtain ⟨as, _, rfl⟩ := List.mem_map.mp insideX
        obtain ⟨bs, _, rfl⟩ := List.mem_map.mp insideY
        exact .parted first

theorem walksWithin_listing {steps : Nat} {type : ObjectType} {seen : List String}
    (enough : room schema seen < steps) :
    Walk.Listing schema down type seen (walksWithin schema down steps type seen) where
  complete _ := mem_walksWithin sound enough
  once := (walksWithin_ordered sound steps type seen).imp Walk.Before.ne
  ordered := walksWithin_ordered sound steps type seen

end Listing

end ObjectQuery

import ObjectQuery.Schema.Build
import ObjectQuery.Proofs.Outcome

/-! What holds of every schema that a description is accepted for: its types stand under their own
names, which are names of the pattern language, and each of them has ID fields. -/
namespace ObjectQuery

open Outcome

namespace Table

variable {α : Type}

theorem lookup_iff {l : List (String × α)} (distinct : (l.map Prod.fst).Nodup) {key : String}
    {value : α} : l.lookup key = some value ↔ (key, value) ∈ l := by
  induction l with
  | nil => simp
  | cons e rest ih =>
    obtain ⟨k, v⟩ := e
    obtain ⟨fresh, distinct⟩ := List.nodup_cons.mp distinct
    rw [List.lookup_cons]
    by_cases same : key = k
    · subst same
      have absent : (key, value) ∉ rest := fun member =>
        fresh (List.mem_map.mpr ⟨_, member, rfl⟩)
      simp [absent, eq_comm]
    · have other : (key == k) = false := by simpa using same
      simp [other, same, ih distinct]

theorem lookup_cons_if (name key : String) (value : α) (rest : List (String × α)) :
    ((name, value) :: rest).lookup key = if key = name then some value else rest.lookup key := by
  rw [List.lookup_cons]
  by_cases same : key = name
  · rw [if_pos same, beq_iff_eq.mpr same]
  · rw [if_neg same, beq_eq_false_iff_ne.mpr same]

theorem get?_eq_some {t : Table α} {key : String} {value : α} :
    t.get? key = some value ↔ (key, value) ∈ t.entries := lookup_iff t.distinct

theorem write_fresh {key : String} {value : α} {l : List (String × α)}
    (fresh : key ∉ l.map Prod.fst) : write key value l = l ++ [(key, value)] := by
  induction l with
  | nil => rfl
  | cons e rest ih =>
    obtain ⟨k, v⟩ := e
    obtain ⟨apart, fresh⟩ : key ≠ k ∧ key ∉ rest.map Prod.fst := by simpa using fresh
    rw [write, if_neg (Ne.symm apart), ih fresh, List.cons_append]

theorem entries_ofList {l : List (String × α)} (distinct : (l.map Prod.fst).Nodup) :
    (ofList l).entries = l := by
  have filled : ∀ (rest : List (String × α)) (t : Table α),
      ((t.entries ++ rest).map Prod.fst).Nodup →
      (rest.foldl (fun t e => t.insert e.1 e.2) t).entries = t.entries ++ rest := by
    intro rest
    induction rest with
    | nil => simp
    | cons e rest ih =>
      intro t distinct
      have fresh : e.1 ∉ t.entries.map Prod.fst := by
        simp only [List.map_append, List.map_cons, List.nodup_append] at distinct
        exact fun member => distinct.2.2 e.1 member e.1 List.mem_cons_self rfl
      have placed : (t.insert e.1 e.2).entries = t.entries ++ [e] := write_fresh fresh
      rw [List.foldl_cons, ih _ (by simpa [placed] using distinct), placed]
      simp
  exact filled l empty (by simpa [empty] using distinct)

end Table

theorem ObjectType.make_eq_ok {name : String} {shape : Json} {idFields : List String}
    {t : ObjectType} (made : make name shape idFields = .ok t) : ∃ validator,
      Validator.compile? name shape = some validator ∧
      t = ⟨name, shape, validator, idFields, [], .empty, .empty⟩ := by
  unfold make at made
  split at made
  · cases made
  · split at made
    · cases made
    · next validator compiled => exact ⟨validator, compiled, (Except.ok.inj made).symm⟩

namespace Schema

theorem type?_mem {schema : Schema} {name : String} {type : ObjectType}
    (found : schema.type? name = some type) : type ∈ schema.types.values := by
  obtain ⟨front, back, split, _⟩ := List.lookup_eq_some_iff.mp found
  simp [Table.values, split]

/-- What descriptions are checked for, as far as it concerns patterns. -/
structure Sound (schema : Schema) : Prop where
  named : ∀ e ∈ schema.types.entries, e.2.name = e.1
  spelled : ∀ type ∈ schema.types.values, isTypeName type.name = true
  identified : ∀ type ∈ schema.types.values, type.idFields ≠ []

/-- Registration of relations leaves a type's name and its ID fields as they are. -/
theorem register_keeps {t grown : ObjectType} {e : Edge} (done : t.register e = .ok grown) :
    grown.name = t.name ∧ grown.idFields = t.idFields := by
  simp only [ObjectType.register] at done
  split at done
  · cases done
  · split at done
    · cases done
    · obtain rfl := Except.ok.inj done
      exact ⟨rfl, rfl⟩

theorem connect_keeps {edges : List Edge} {t grown : ObjectType}
    (done : connect edges t = .ok grown) : grown.name = t.name ∧ grown.idFields = t.idFields :=
  foldlM_invariant (fun u : ObjectType => u.name = t.name ∧ u.idFields = t.idFields)
    (fun _ _ _ same step =>
      ⟨(register_keeps step).1.trans same.1, (register_keeps step).2.trans same.2⟩)
    ⟨rfl, rfl⟩ done

theorem checkType_passed {name : String} {d : TypeDescription} {u : Unit}
    (done : checkType name d = .ok u) : isTypeName name = true ∧ d.idFields ≠ [] := by
  by_cases spelled : isTypeName name = true
  · by_cases none : d.idFields = []
    · simp [checkType, spelled, none] at done
    · exact ⟨spelled, none⟩
  · simp [checkType, spelled] at done

theorem makeType_passed {name : String} {d : TypeDescription} {type : ObjectType}
    (done : makeType name d = .ok type) :
    type.name = name ∧ isTypeName name = true ∧ type.idFields = d.idFields ∧ d.idFields ≠ [] := by
  obtain ⟨_, checked, made⟩ := bind_eq_ok.mp done
  obtain ⟨spelled, identified⟩ := checkType_passed checked
  obtain ⟨_, _, rfl⟩ := ObjectType.make_eq_ok made
  exact ⟨rfl, spelled, rfl, identified⟩

/-- What is made entry by entry stands under the same keys. -/
theorem mapM_keys {ε α β : Type} {f : String × α → Except ε β} {l : List (String × α)}
    {bs : List (String × β)} (done : l.mapM (fun e => do pure (e.1, ← f e)) = .ok bs) :
    bs.map Prod.fst = l.map Prod.fst :=
  map_of_mapM (fun e _ b step => by
    obtain ⟨_, _, rfl⟩ : ∃ made, f e = .ok made ∧ (e.1, made) = b := by simpa using step
    rfl) done

/-- The types are made one for each entry of the description, then the relations, and then each
type is connected. -/
theorem ofDescription_eq_ok {description : Description} {schema : Schema}
    (accepted : ofDescription description = .ok schema) : ∃ made relations,
      description.entries.mapM (fun e => do pure (e.1, ← makeType e.1 e.2)) = .ok made ∧
      (declared description).mapM (makeRelation description made) = .ok relations ∧
      schema.edges = number relations ∧
      made.mapM (fun e => do pure (e.1, ← connect schema.edges e.2)) =
        .ok schema.types.entries := by
  unfold ofDescription at accepted
  obtain ⟨made, types, accepted⟩ := bind_eq_ok.mp accepted
  dsimp only at accepted
  split at accepted
  · obtain ⟨relations, related, accepted⟩ := bind_eq_ok.mp accepted
    obtain ⟨connected, joined, accepted⟩ := bind_eq_ok.mp accepted
    obtain rfl := pure_eq_ok.mp accepted
    have distinct : (connected.map Prod.fst).Nodup := by
      rw [mapM_keys joined, mapM_keys types]
      exact description.distinct
    refine ⟨made, relations, types, related, rfl, ?_⟩
    rw [Table.entries_ofList distinct]
    exact joined
  · exact absurd accepted throw_ne_ok

/-- The types of a schema are in the order of their description. -/
theorem ofDescription_keys {description : Description} {schema : Schema}
    (accepted : ofDescription description = .ok schema) :
    schema.types.keys = description.keys := by
  obtain ⟨_, _, types, _, _, connected⟩ := ofDescription_eq_ok accepted
  exact (mapM_keys connected).trans (mapM_keys types)

theorem ofDescription_sound {description : Description} {schema : Schema}
    (accepted : ofDescription description = .ok schema) : schema.Sound := by
  obtain ⟨made, _, types, _, _, connected⟩ := ofDescription_eq_ok accepted
  have origin : ∀ e ∈ schema.types.entries, e.2.name = e.1 ∧ isTypeName e.1 = true ∧
      e.2.idFields ≠ [] := by
    intro e member
    obtain ⟨m, inside, step⟩ := mem_of_mapM connected member
    obtain ⟨grown, joined, rfl⟩ : ∃ grown, connect schema.edges m.2 = .ok grown ∧
        (m.1, grown) = e := by simpa using step
    obtain ⟨d, _, step⟩ := mem_of_mapM types inside
    obtain ⟨type, passed, rfl⟩ : ∃ type, makeType d.1 d.2 = .ok type ∧ (d.1, type) = m := by
      simpa using step
    obtain ⟨named, spelled, sameFields, identified⟩ := makeType_passed passed
    obtain ⟨sameName, kept⟩ := connect_keeps joined
    exact ⟨sameName.trans named, spelled, by rw [kept, sameFields]; exact identified⟩
  constructor
  · exact fun e member => (origin e member).1
  · intro type member
    obtain ⟨e, inside, rfl⟩ := List.mem_map.mp member
    rw [(origin e inside).1]
    exact (origin e inside).2.1
  · intro type member
    obtain ⟨e, inside, rfl⟩ := List.mem_map.mp member
    exact (origin e inside).2.2

namespace Sound

variable {schema : Schema} (sound : schema.Sound)
include sound

theorem names : schema.types.values.map ObjectType.name = schema.types.keys := by
  rw [Table.values, Table.keys, List.map_map]
  exact List.map_congr_left fun e member => sound.named e member

theorem type?_name {type : ObjectType} (member : type ∈ schema.types.values) :
    schema.type? type.name = some type := by
  obtain ⟨e, inside, rfl⟩ := List.mem_map.mp member
  rw [sound.named e inside]
  exact Table.get?_eq_some.mpr inside

theorem name_of_type? {name : String} {type : ObjectType} (found : schema.type? name = some type) :
    type.name = name :=
  sound.named (name, type) (Table.get?_eq_some.mp found)

end Sound

end Schema

end ObjectQuery

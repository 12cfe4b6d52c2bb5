import ObjectQuery.Proofs.Pattern.IdListText
import ObjectQuery.Proofs.Schema.Demands
import ObjectQuery.Proofs.Schema.Registration
import ObjectQuery.Report

/-! Which descriptions are accepted. A valid description has a schema, and any other is refused for
the first of its defects. -/
namespace ObjectQuery

open Grammar

/-- What is demanded of a type apart from its relations. -/
structure TypeDescription.Valid (name : String) (d : TypeDescription) : Prop where
  named : name ≠ "" ∧ ∀ c ∈ name.toList, NameChar c
  identified : d.idFields ≠ []
  distinct : d.idFields.Nodup
  known : d.idFields ⊆ d.fields.keys
  required : d.required.names ⊆ d.fields.keys
  schemas : ∀ e ∈ d.fields.entries, (Validator.compile? (name ++ "." ++ e.1) e.2).isSome
  shape : (Validator.compile? name d.shape).isSome

structure Description.Valid (description : Description) : Prop where
  types : ∀ name d, (name, d) ∈ description.entries → d.Valid name
  shape : (Validator.compile? "schema" (Schema.wholeShape description)).isSome
  relations : ∀ parent d, (parent, d) ∈ description.entries →
    ∀ child refFields, (child, refFields) ∈ d.children.entries →
      ∃ c, (child, c) ∈ description.entries ∧ refFields ⊆ c.fields.keys ∧
        refFields.length = d.idFields.length

namespace Schema

theorem nodup_iff_take {l : List String} : l.Nodup ↔ ∀ e ∈ l.zipIdx, e.1 ∉ l.take e.2 := by
  rw [List.nodup_iff_pairwise_ne, List.pairwise_iff_getElem]
  constructor
  · intro apart e member earlier
    obtain ⟨inside, value⟩ := List.getElem?_eq_some_iff.mp (List.mem_zipIdx_iff_getElem?.mp member)
    obtain ⟨i, before, same⟩ := List.mem_take_iff_getElem.mp earlier
    exact apart i e.2 (by omega) inside (by omega) (same.trans value.symm)
  · intro fresh i j hi hj before same
    refine fresh (l[j], j) (List.mem_zipIdx_iff_getElem?.mpr (List.getElem?_eq_getElem hj)) ?_
    exact List.mem_take_iff_getElem.mpr ⟨i, by simp; omega, same⟩

theorem idDemands_met {name : String} {d : TypeDescription} :
    (∀ x ∈ idDemands name d, x.met = true) ↔ d.idFields ⊆ d.fields.keys ∧ d.idFields.Nodup := by
  have known : (∀ e ∈ d.idFields.zipIdx, e.1 ∈ d.fields.keys) ↔ d.idFields ⊆ d.fields.keys := by
    have fields := List.zipIdx_map_fst 0 d.idFields
    rw [← List.forall_mem_map (P := fun field => field ∈ d.fields.keys), fields]
    rfl
  rw [nodup_iff_take, ← known, ← forall_and]
  simp only [idDemands, List.forall_mem_flatMap, List.forall_mem_cons]
  refine forall_congr' fun e => ?_
  simp [Table.contains, imp_and]

theorem typeDemands_met {name : String} {d : TypeDescription} :
    (∀ x ∈ typeDemands name d, x.met = true) ↔ d.Valid name := by
  simp only [typeDemands, List.forall_mem_append, List.forall_mem_cons, List.forall_mem_map,
    List.forall_mem_flatMap, idDemands_met, isTypeName_iff, Table.contains, List.contains_iff_mem,
    List.not_mem_nil, false_imp_iff, implies_true, and_true]
  constructor
  · rintro ⟨⟨⟨⟨⟨named, identified⟩, known, distinct⟩, required⟩, schemas⟩, shape⟩
    exact ⟨named, by simpa using identified, distinct, known, required, schemas, shape⟩
  · intro valid
    exact ⟨⟨⟨⟨⟨valid.named, by simpa using valid.identified⟩, valid.known, valid.distinct⟩,
      valid.required⟩, valid.schemas⟩, valid.shape⟩

theorem relationDemands_met {description : Description} {d : TypeDescription} {r : Declared} :
    (∀ x ∈ relationDemands description d r, x.met = true) ↔
      ∃ c, (r.child, c) ∈ description.entries ∧ r.refFields ⊆ c.fields.keys ∧
        r.refFields.length = d.idFields.length := by
  simp only [← Table.get?_eq_some]
  cases found : description.get? r.child with
  | none => simp [relationDemands, found]
  | some c =>
    have fields : (∀ field ∈ r.refFields, field ∈ c.fields.keys) ↔ r.refFields ⊆ c.fields.keys :=
      Iff.rfl
    simp [relationDemands, found, Table.contains, or_imp, forall_and, fields]

theorem demands_met {description : Description} :
    (∀ x ∈ demands description, x.met = true) ↔ description.Valid := by
  simp only [demands, List.forall_mem_append, List.forall_mem_flatMap, List.forall_mem_singleton,
    typeDemands_met, relationDemands_met]
  constructor
  · rintro ⟨⟨types, shape⟩, relations⟩
    exact ⟨fun name d member => types (name, d) member, shape,
      fun parent d member child refFields inside =>
        relations (parent, d) member (child, refFields) inside⟩
  · intro valid
    exact ⟨⟨fun e member => valid.types e.1 e.2 member, valid.shape⟩,
      fun e member c inside => valid.relations e.1 e.2 member c.1 c.2 inside⟩

/-- No demand is that a relation has a type at one of its ends, or that it is new there. -/
theorem demands_fault (description : Description) (type parent child : String) :
    ∀ x ∈ demands description, x.fault ≠ .notAnEndpoint type parent child ∧
      x.fault ≠ .duplicateRelation type parent child := by
  simp only [demands, typeDemands, idDemands, relationDemands, List.forall_mem_append,
    List.forall_mem_flatMap, List.forall_mem_map, List.forall_mem_cons]
  simp

/-- Exactly the valid descriptions are accepted, and any other is refused for the first demand that
it does not meet. Of the faults of registration none is met with, neither when a type is connected
nor when the relations are registered one at a time. -/
theorem ofDescription_iff_valid (description : Description) :
    ((∃ schema, ofDescription description = .ok schema) ↔ description.Valid) ∧
    (∀ fault, ofDescription description = .error fault ↔ ∃ before violated after,
      demands description = before ++ violated :: after ∧ (∀ x ∈ before, x.met = true) ∧
        violated.met = false ∧ violated.fault = fault) ∧
    (∀ type parent child,
      ofDescription description ≠ .error (.notAnEndpoint type parent child) ∧
      ofDescription description ≠ .error (.duplicateRelation type parent child)) ∧
    ofRegistrations description = ofDescription description := by
  have enforced := ofDescription_enforced description
  have refused (fault : SchemaFault) : ofDescription description = .error fault ↔
      ∃ before violated after, demands description = before ++ violated :: after ∧
        (∀ x ∈ before, x.met = true) ∧ violated.met = false ∧ violated.fault = fault :=
    enforced.error_iff.trans Demand.fault?_eq_some
  have demanded {fault : SchemaFault} (failed : ofDescription description = .error fault) :
      ∃ x ∈ demands description, x.fault = fault := by
    obtain ⟨before, violated, after, split, _, _, same⟩ := (refused fault).mp failed
    exact ⟨violated, by simp [split], same⟩
  refine ⟨enforced.ok_iff.trans demands_met, refused,
    fun type parent child => ⟨fun failed => ?_, fun failed => ?_⟩,
    ofRegistrations_eq_ofDescription description⟩
  · obtain ⟨x, member, same⟩ := demanded failed
    exact (demands_fault description type parent child x member).1 same
  · obtain ⟨x, member, same⟩ := demanded failed
    exact (demands_fault description type parent child x member).2 same

/-- A defect of a later type counts before one of a relation of an earlier type. -/
example : Demand.fault? (demands (.ofList [
    ("file", Report.describe [("name", Report.text)] [] ["name"] [("page", ["name"])]),
    ("folder", Report.describe [("path", Report.text)] ["disk"] ["path", "path"] [])])) =
      some (.duplicateIdField "folder" "path") := by
  decide +kernel

end Schema

end ObjectQuery

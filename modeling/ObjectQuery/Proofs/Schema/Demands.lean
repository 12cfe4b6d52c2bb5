import ObjectQuery.Proofs.Schema.Connection

/-! What a description is checked for, listed in the order of the checks. A description is refused
for the first demand that it does not meet, whatever else is wrong with it. -/
namespace ObjectQuery

open Outcome

/-- A condition on descriptions, and the fault of those that fail it. -/
structure Demand where
  met : Bool
  fault : SchemaFault

namespace Demand

variable {α β : Type}

def fault? (demands : List Demand) : Option SchemaFault :=
  (demands.find? fun x => !x.met).map fault

theorem fault?_append (l m : List Demand) : fault? (l ++ m) = (fault? l).or (fault? m) := by
  rw [fault?, fault?, fault?, List.find?_append]
  cases l.find? fun x => !x.met <;> rfl

theorem fault?_eq_none {l : List Demand} : fault? l = none ↔ ∀ x ∈ l, x.met = true := by
  simp [fault?]

theorem fault?_eq_some {l : List Demand} {fault : SchemaFault} :
    fault? l = some fault ↔ ∃ before violated after, l = before ++ violated :: after ∧
      (∀ x ∈ before, x.met = true) ∧ violated.met = false ∧ violated.fault = fault := by
  simp only [fault?, Option.map_eq_some_iff, List.find?_eq_some_iff_append, Bool.not_not,
    Bool.not_eq_true']
  constructor
  · rintro ⟨violated, ⟨unmet, before, after, split, met⟩, same⟩
    exact ⟨before, violated, after, split, met, unmet, same⟩
  · rintro ⟨before, violated, after, split, met, unmet, same⟩
    exact ⟨violated, ⟨unmet, before, after, split, met⟩, same⟩

/-- A computation that fails with the first demand that is not met, and for nothing else. -/
def Enforced (demands : List Demand) (x : Except SchemaFault α) : Prop :=
  match x with
  | .ok _ => fault? demands = none
  | .error fault => fault? demands = some fault

namespace Enforced

variable {l m : List Demand}

theorem nothing (a : α) : Enforced [] (.ok a : Except SchemaFault α) := rfl

theorem ok_iff {x : Except SchemaFault α} (enforced : Enforced l x) :
    (∃ a, x = .ok a) ↔ ∀ d ∈ l, d.met = true := by
  cases x with
  | ok a => simpa using fault?_eq_none.mp enforced
  | error fault =>
    have unmet : ¬ ∀ d ∈ l, d.met = true := fun met => by
      have none := fault?_eq_none.mpr met
      rw [show fault? l = some fault from enforced] at none
      cases none
    simp [unmet]

theorem error_iff {x : Except SchemaFault α} (enforced : Enforced l x) {fault : SchemaFault} :
    x = .error fault ↔ fault? l = some fault := by
  cases x with
  | ok a => simp [show fault? l = none from enforced]
  | error other => simp [show fault? l = some other from enforced]

/-- What is computed next has its demands looked at next. -/
theorem bind {x : Except SchemaFault α} {f : α → Except SchemaFault β} (first : Enforced l x)
    (later : ∀ a, x = .ok a → Enforced m (f a)) : Enforced (l ++ m) (x >>= f) := by
  cases x with
  | ok a =>
    have rest := later a rfl
    have passed : fault? l = none := first
    show Enforced (l ++ m) (f a)
    cases done : f a <;> rw [done] at rest <;> simpa [Enforced, fault?_append, passed] using rest
  | error fault =>
    have failed : fault? l = some fault := first
    show fault? (l ++ m) = some fault
    rw [fault?_append, failed, Option.some_or]

theorem map {x : Except SchemaFault α} (enforced : Enforced l x) (f : α → β) :
    Enforced l (x >>= fun a => pure (f a)) := by
  cases x <;> exact enforced

theorem mapM {γ : Type} {f : γ → Except SchemaFault α} {demands : γ → List Demand} {cs : List γ}
    (each : ∀ c ∈ cs, Enforced (demands c) (f c)) : Enforced (cs.flatMap demands) (cs.mapM f) := by
  induction cs with
  | nil => exact nothing []
  | cons c cs ih =>
    rw [List.mapM_cons, List.flatMap_cons]
    exact (each c List.mem_cons_self).bind fun a _ =>
      (ih fun other member => each other (List.mem_cons_of_mem c member)).map (a :: ·)

theorem forM {γ : Type} {f : γ → Except SchemaFault Unit} {demands : γ → List Demand} {cs : List γ}
    (each : ∀ c ∈ cs, Enforced (demands c) (f c)) : Enforced (cs.flatMap demands) (cs.forM f) := by
  induction cs with
  | nil => exact nothing ()
  | cons c cs ih =>
    show Enforced _ (f c >>= fun _ => cs.forM f)
    rw [List.flatMap_cons]
    exact (each c List.mem_cons_self).bind fun _ _ =>
      ih fun other member => each other (List.mem_cons_of_mem c member)

/-- A demand before all others. -/
theorem guard {met failed : Bool} {fault : SchemaFault} {x : Except SchemaFault α}
    (opposite : failed = !met) (later : met = true → Enforced m x) :
    Enforced (⟨met, fault⟩ :: m) (if failed then .error fault else x) := by
  subst opposite
  cases met with
  | false => rfl
  | true => exact later rfl

/-- A search for the first name that fails a condition. -/
theorem find {names : List String} {met : String → Bool} {fault : String → SchemaFault}
    {x : Except SchemaFault α} (later : Enforced m x) :
    Enforced (names.map (fun name => ⟨met name, fault name⟩) ++ m)
      (match names.find? fun name => !met name with
        | some name => .error (fault name)
        | none => x) := by
  induction names with
  | nil => exact later
  | cons name names ih =>
    rw [List.map_cons, List.cons_append, List.find?_cons]
    cases known : met name with
    | false => rfl
    | true => exact ih

end Enforced

end Demand

namespace Schema

open Demand

/-- Each ID field is declared, and is none of those before it. -/
def idDemands (name : String) (d : TypeDescription) : List Demand :=
  d.idFields.zipIdx.flatMap fun (field, i) =>
    [⟨d.fields.contains field, .unknownIdField name field⟩,
      ⟨!(d.idFields.take i).contains field, .duplicateIdField name field⟩]

def typeDemands (name : String) (d : TypeDescription) : List Demand :=
  [⟨isTypeName name, .invalidTypeName name⟩, ⟨!d.idFields.isEmpty, .noIdFields name⟩] ++
    idDemands name d ++
    d.required.names.map (fun field =>
      ⟨d.fields.contains field, .unknownRequiredField name field⟩) ++
    d.fields.entries.flatMap (fun (field, schema) =>
      let place := name ++ "." ++ field
      [⟨(Validator.compile? place schema).isSome, .invalidShape place⟩]) ++
    [⟨(Validator.compile? name d.shape).isSome, .invalidShape name⟩]

/-- The demands on a relation that a type declares to one of its children. -/
def relationDemands (description : Description) (d : TypeDescription) (r : Declared) :
    List Demand :=
  [⟨(description.get? r.child).isSome, .unknownChild r.parent r.child⟩] ++
    r.refFields.map (fun field => ⟨(description.get? r.child).any (·.fields.contains field),
      .unknownRefField r.parent r.child field⟩) ++
    [⟨r.refFields.length = d.idFields.length,
      .refFieldCount r.parent r.child d.idFields.length r.refFields.length⟩]

def wholeShape (description : Description) : Json :=
  collectionShape (description.entries.map fun (name, d) => (name, d.shape))

def demands (description : Description) : List Demand :=
  description.entries.flatMap (fun (name, d) => typeDemands name d) ++
    [⟨(Validator.compile? "schema" (wholeShape description)).isSome, .invalidShape "schema"⟩] ++
    description.entries.flatMap fun (parent, d) =>
      d.children.entries.flatMap fun (child, refFields) =>
        relationDemands description d ⟨parent, child, refFields⟩

/-- The ID fields that are left, after those that were seen. The check has the latter in reverse. -/
theorem checkIdFields_enforced (name : String) (d : TypeDescription) (seen rest : List String) :
    Enforced ((rest.zipIdx seen.length).flatMap fun (field, i) =>
      [⟨d.fields.contains field, .unknownIdField name field⟩,
        ⟨!((seen ++ rest).take i).contains field, .duplicateIdField name field⟩])
      (checkIdFields name d seen.reverse rest) := by
  induction rest generalizing seen with
  | nil => exact .nothing ()
  | cons field rest ih =>
    have before : (seen ++ field :: rest).take seen.length = seen := List.take_left
    have next := ih (seen ++ [field])
    rw [List.length_append, List.reverse_append, List.append_assoc] at next
    rw [List.zipIdx_cons, List.flatMap_cons, checkIdFields]
    dsimp only
    rw [before]
    refine .guard rfl fun _ => .guard ?_ fun _ => next
    simp

theorem checkShape_enforced (name : String) (schema : Json) :
    Enforced [⟨(Validator.compile? name schema).isSome, .invalidShape name⟩]
      (checkShape name schema) := by
  unfold checkShape
  cases Validator.compile? name schema <;> rfl

theorem checkType_enforced (name : String) (d : TypeDescription) :
    Enforced ([⟨isTypeName name, .invalidTypeName name⟩, ⟨!d.idFields.isEmpty, .noIdFields name⟩] ++
      idDemands name d ++
      d.required.names.map (fun field =>
        ⟨d.fields.contains field, .unknownRequiredField name field⟩) ++
      d.fields.entries.flatMap (fun (field, schema) =>
        [⟨(Validator.compile? (name ++ "." ++ field) schema).isSome,
          .invalidShape (name ++ "." ++ field)⟩])) (checkType name d) := by
  have schemas : Enforced _ (d.fields.entries.forM fun (field, schema) =>
      checkShape (name ++ "." ++ field) schema) :=
    .forM fun e _ => checkShape_enforced (name ++ "." ++ e.1) e.2
  have identified : Enforced (idDemands name d) (checkIdFields name d [] d.idFields) :=
    checkIdFields_enforced name d [] d.idFields
  rw [List.append_assoc, List.append_assoc]
  exact .guard rfl fun _ => .guard (by simp) fun _ => identified.bind fun _ _ => .find schemas

theorem makeType_enforced (name : String) (d : TypeDescription) :
    Enforced (typeDemands name d) (makeType name d) := by
  refine (checkType_enforced name d).bind fun _ passed => ?_
  have identified : d.idFields.isEmpty = false := by simpa using (checkType_passed passed).2
  rw [ObjectType.make, identified]
  cases Validator.compile? name d.shape <;> rfl

section Relations

variable {description : Description} {made : List (String × ObjectType)}
  (types : description.entries.mapM (fun e => do pure (e.1, ← makeType e.1 e.2)) = .ok made)
include types

theorem lookup_made {name : String} {d : TypeDescription}
    (member : (name, d) ∈ description.entries) :
    ∃ t, made.lookup name = some t ∧ t.name = name ∧ t.idFields = d.idFields := by
  obtain ⟨e, inside, step⟩ := ok_of_mapM types member
  obtain ⟨t, done, rfl⟩ : ∃ t, makeType name d = .ok t ∧ (name, t) = e := by simpa using step
  have distinct : (made.map Prod.fst).Nodup := mapM_keys types ▸ description.distinct
  obtain ⟨named, _, same, _⟩ := makeType_passed done
  exact ⟨t, (Table.lookup_iff distinct).mpr inside, named, same⟩

theorem makeRelation_enforced {d : TypeDescription} {r : Declared}
    (member : (r.parent, d) ∈ description.entries) :
    Enforced (relationDemands description d r) (makeRelation description made r) := by
  obtain ⟨parent, foundParent, named, same⟩ := lookup_made types member
  unfold relationDemands makeRelation
  cases found : description.get? r.child with
  | none => rfl
  | some c =>
    obtain ⟨child, foundChild, named', _⟩ := lookup_made types (Table.get?_eq_some.mp found)
    rw [foundParent, foundChild]
    have counted : Enforced [⟨r.refFields.length = d.idFields.length,
        .refFieldCount r.parent r.child d.idFields.length r.refFields.length⟩]
        (Relation.make parent child r.refFields) := by
      rw [Relation.make, named, named', same]
      by_cases count : r.refFields.length = d.idFields.length <;> simp [count, Enforced, fault?]
    exact .find counted

theorem relations_enforced :
    Enforced (description.entries.flatMap fun (parent, d) =>
        d.children.entries.flatMap fun (child, refFields) =>
          relationDemands description d ⟨parent, child, refFields⟩)
      ((declared description).mapM (makeRelation description made)) := by
  -- each declared relation together with the description of its parent
  let sources : List (TypeDescription × Declared) := description.entries.flatMap fun e =>
    e.2.children.entries.map fun c => (e.2, ⟨e.1, c.1, c.2⟩)
  have each : ∀ source ∈ sources, Enforced (relationDemands description source.1 source.2)
      (makeRelation description made source.2) := by
    intro source member
    obtain ⟨e, inside, member⟩ := List.mem_flatMap.mp member
    obtain ⟨c, _, rfl⟩ := List.mem_map.mp member
    exact makeRelation_enforced types inside
  have listed : declared description = sources.map Prod.snd := by
    simp [declared, sources, List.map_flatMap, Function.comp_def]
  have demanded : (description.entries.flatMap fun (parent, d) =>
      d.children.entries.flatMap fun (child, refFields) =>
        relationDemands description d ⟨parent, child, refFields⟩) =
      sources.flatMap fun source => relationDemands description source.1 source.2 := by
    simp [sources, List.flatMap_assoc, List.flatMap_map]
  rw [listed, demanded, List.mapM_map]
  exact .mapM each

end Relations

theorem ofDescription_enforced (description : Description) :
    Enforced (demands description) (ofDescription description) := by
  rw [ofDescription_eq, demands, List.append_assoc]
  have described : Enforced (description.entries.flatMap fun (name, d) => typeDemands name d)
      (description.entries.mapM fun e => do pure (e.1, ← makeType e.1 e.2)) :=
    .mapM fun e _ => (makeType_enforced e.1 e.2).map (e.1, ·)
  refine described.bind fun made types => ?_
  have whole : collectionShape (made.map fun e => (e.1, e.2.shape)) = wholeShape description :=
    congrArg collectionShape (map_made types fun _ _ _ => rfl)
  have related := relations_enforced types
  dsimp only
  rw [whole]
  cases Validator.compile? "schema" (wholeShape description) with
  | none => rfl
  | some validator => exact related.map _

end Schema

end ObjectQuery

import ObjectQuery.Chain.Collection
import ObjectQuery.Proofs.Chain.View
import ObjectQuery.Proofs.Schema.Identity

/-! Chains from collections. A collection is read in one order, by type, then by object, then by ID
field, and the first place without a text is told. Where identities are taken of the same objects,
they are the ones that the chains list, unless a component is missing. -/
namespace ObjectQuery

open Outcome

namespace ObjectType

/-- The components of an identity are texts under the names of the ID fields. -/
def Spells (t : ObjectType) (object : Json) (id : Id) : Prop :=
  List.Forall₂ (fun field text => ∃ s, text = some s ∧ object.member? field = some (.str s))
    t.idFields id

variable {t : ObjectType} {object : Json} {id : Id}

theorem Spells.names (spells : t.Spells object id) : t.Names object id :=
  List.Forall₂.imp (by rintro field _ ⟨s, rfl, here⟩; exact here) spells

theorem names_of_identity {rigour : Rigour} (done : t.identity rigour object = .ok id) :
    t.Names object id := by
  cases rigour with
  | strict => exact (identity_eq_ok.mp done).2
  | light => exact components_eq_ok.mp (by simpa [identity] using done)

theorem names_unique : Relator.RightUnique t.Names := by
  intro object id other names again
  refine List.right_unique_forall₂' ?_ names again
  intro field text same here there
  exact Step.ofText?_inj _ _ (Option.some.inj (here.symm.trans there))

/-- All components are there where every ID field has a text. -/
theorem Names.texts_iff (names : t.Names object id) :
    (∀ field ∈ t.idFields, ∃ s, object.member? field = some (.str s)) ↔ none ∉ id := by
  have paired : Matched True _ t.idFields id := .ofForall₂ names
  have each : (∀ field ∈ t.idFields, ∃ s, object.member? field = some (.str s)) ↔
      ∀ text ∈ id, text ≠ none := paired.forall_iff fun field text here => by
    rw [here]
    cases text <;> simp [Json.ofText?]
  rw [each]
  exact ⟨fun whole lacking => whole none lacking rfl, fun whole text member same =>
    whole (same ▸ member)⟩

end ObjectType

namespace Chain

/-- The objects of one type in a collection. -/
structure Listed where
  type : ObjectType
  objects : List Json

/-- An ID field of an object in a list. -/
structure Place where
  list : String
  index : Nat
  object : Json
  field : String

namespace Place

def HasText (p : Place) : Prop := ∃ s, p.object.member? p.field = some (.str s)

def fault (p : Place) : PatternFault := .invalidObject p.list p.index p.field

def fault? (p : Place) : Option PatternFault :=
  match p.object.member? p.field with
  | some (.str _) => none
  | _ => some p.fault

theorem fault?_eq_some (p : Place) (fault : PatternFault) :
    p.fault? = some fault ↔ ¬ p.HasText ∧ fault = p.fault := by
  unfold fault? HasText
  cases p.object.member? p.field with
  | none => simp [eq_comm]
  | some value => cases value <;> simp [eq_comm]

end Place

namespace Listed

def place (l : Listed) (index : Nat) (object : Json) (field : String) : Place :=
  ⟨l.type.name ++ "s", index, object, field⟩

/-- The places of a list, object by object. -/
def places (l : Listed) : List Place :=
  l.objects.zipIdx.flatMap fun (object, index) => l.type.idFields.map (l.place index object)

def ids (l : Listed) : Except PatternFault IdList :=
  l.objects.zipIdx.mapM fun (object, index) => listedId l.type index object

def chain (l : Listed) (ids : IdList) : Chain := ⟨⟨true, l.type, some ids, true⟩, []⟩

theorem listedId_fault (l : Listed) (index : Nat) (object : Json) :
    error? (listedId l.type index object) =
      (l.type.idFields.map (l.place index object)).findSome? Place.fault? := by
  rw [listedId, error?_mapM_single, List.findSome?_map]
  congr
  funext field
  simp only [Function.comp_apply, Place.fault?, place]
  cases object.member? field with
  | none => rfl
  | some value => cases value <;> rfl

theorem ids_fault (l : Listed) : error? l.ids = l.places.findSome? Place.fault? :=
  error?_mapM fun (object, index) _ => l.listedId_fault index object

theorem listedId_eq_ok {t : ObjectType} {index : Nat} {object : Json} {id : Id} :
    listedId t index object = .ok id ↔ t.Spells object id := by
  rw [listedId, Abreast.mapM_eq_ok_iff_forall₂, ObjectType.Spells]
  congr!
  next field text =>
    cases object.member? field with
    | none => simp
    | some value => cases value <;> simp [eq_comm]

theorem ids_eq_ok {l : Listed} {ids : IdList} :
    l.ids = .ok ids ↔ List.Forall₂ l.type.Spells l.objects ids := by
  have unnumbered := List.zipIdx_map_fst 0 l.objects
  rw [Listed.ids, Abreast.mapM_eq_ok_iff_forall₂]
  simp only [listedId_eq_ok]
  rw [← List.forall₂_map_left_iff (f := Prod.fst), unnumbered]

end Listed

/-- The list of a type, unless there is nothing in it. -/
def listing? (data : Json) (t : ObjectType) : Option Listed :=
  match data.member? (t.name ++ "s") with
  | some (.arr (first :: rest)) => some ⟨t, first :: rest⟩
  | _ => none

/-- The lists of a collection in the order of the types. -/
def listings (schema : Schema) (data : Json) : List Listed :=
  schema.types.values.filterMap (listing? data)

variable {schema : Schema} {data : Json}

theorem listing?_eq (data : Json) (t : ObjectType) :
    listing? data t = if (listed t data).isEmpty then none else some ⟨t, listed t data⟩ := by
  unfold listing?
  split
  · next first rest here => simp [listed, listName, here, Json.items?]
  · next other =>
    have empty : listed t data = [] := by
      unfold listed listName
      cases found : data.member? (t.name ++ "s") with
      | none => rfl
      | some value =>
        cases value with
        | arr objects =>
          cases objects with
          | nil => rfl
          | cons first rest => exact (other first rest found).elim
        | _ => rfl
    simp [empty]

theorem listings_eq : listings schema data =
    (schema.types.values.filter fun t => !(listed t data).isEmpty).map
      fun t => ⟨t, listed t data⟩ := by
  unfold listings
  induction schema.types.values with
  | nil => rfl
  | cons t types ih =>
    rw [List.filterMap_cons, List.filter_cons, ih, listing?_eq]
    cases (listed t data).isEmpty <;> rfl

theorem mem_listings {l : Listed} : l ∈ listings schema data ↔ l.type ∈ schema.types.values ∧
    data.member? (l.type.name ++ "s") = some (.arr l.objects) ∧ l.objects ≠ [] := by
  rw [listings, List.mem_filterMap]
  constructor
  · rintro ⟨t, member, found⟩
    unfold listing? at found
    split at found
    · next first rest here =>
      obtain rfl := Option.some.inj found
      exact ⟨member, here, List.cons_ne_nil first rest⟩
    · cases found
  · rintro ⟨member, here, nonempty⟩
    obtain ⟨first, rest, split⟩ := List.exists_cons_of_ne_nil nonempty
    refine ⟨l.type, member, ?_⟩
    rw [listing?, here, split]
    simp [← split]

/-- The IDs of a list have as many components as their type asks for. -/
theorem make_ids {l : Listed} {ids : IdList} (done : l.ids = .ok ids) :
    make none true l.type (some ids) true = .ok (l.chain ids) := by
  refine make_eq_ok.mpr ⟨rfl, fits_some.mpr fun id member => ?_, rfl⟩
  obtain ⟨object, _, spells⟩ :=
    Matched.exists_of_forall₂ (List.Forall₂.flip (Listed.ids_eq_ok.mp done)) member
  exact spells.length_eq.symm

theorem ofCollection_eq : ofCollection schema data =
    (listings schema data).mapM fun l => (do pure (l.chain (← l.ids))) := by
  have each (l : Listed) : (do make none true l.type (some (← l.ids)) true) =
      (do pure (l.chain (← l.ids)) : Except PatternFault Chain) := by
    cases done : l.ids with
    | error => rfl
    | ok ids => exact make_ids done
  rw [listings_eq, List.mapM_map, ofCollection]
  congr
  funext t
  exact each ⟨t, listed t data⟩

theorem ofCollection_fault : error? (ofCollection schema data) =
    ((listings schema data).flatMap Listed.places).findSome? Place.fault? := by
  rw [ofCollection_eq]
  exact error?_mapM fun l _ => (error?_bind_pure l.ids l.chain).trans l.ids_fault

theorem ofCollection_eq_ok {chains : List Chain} : ofCollection schema data = .ok chains ↔
    List.Forall₂ (fun l c => ∃ ids, List.Forall₂ l.type.Spells l.objects ids ∧ l.chain ids = c)
      (listings schema data) chains := by
  simp only [ofCollection_eq, Abreast.mapM_eq_ok_iff_forall₂, bind_eq_ok, pure_eq_ok,
    Listed.ids_eq_ok]

theorem ofCollection_eq_error {fault : PatternFault} : ofCollection schema data = .error fault ↔
    ∃ before place after, (listings schema data).flatMap Listed.places = before ++ place :: after ∧
      (∀ p ∈ before, p.HasText) ∧ ¬ place.HasText ∧ fault = place.fault := by
  rw [← error?_eq_some, ofCollection_fault, findSome?_first Place.fault?_eq_some]

namespace Listed

theorem list_of_mem_places {l : Listed} {p : Place} (member : p ∈ l.places) :
    p.list = l.type.name ++ "s" := by
  obtain ⟨_, _, inside⟩ := List.mem_flatMap.mp member
  obtain ⟨_, _, rfl⟩ := List.mem_map.mp inside
  rfl

theorem texts_iff {l : Listed} : (∀ p ∈ l.places, p.HasText) ↔
    ∀ object ∈ l.objects, ∀ field ∈ l.type.idFields, ∃ s, object.member? field = some (.str s) := by
  have unnumbered := List.zipIdx_map_fst 0 l.objects
  rw [places, List.forall_mem_flatMap]
  simp only [List.forall_mem_map, place, Place.HasText]
  rw [← List.forall_mem_map (f := Prod.fst) (P := fun object : Json =>
    ∀ field ∈ l.type.idFields, ∃ s, object.member? field = some (.str s)), unnumbered]

/-- The fault of some lists is in one of them. -/
theorem fault_named {lists : List Listed} {fault : PatternFault}
    (found : (lists.flatMap places).findSome? Place.fault? = some fault) :
    ∃ l ∈ lists, ∃ index field, fault = .invalidObject (l.type.name ++ "s") index field := by
  obtain ⟨before, p, after, split, _, _, rfl⟩ := (findSome?_first Place.fault?_eq_some).mp found
  have inside : p ∈ lists.flatMap places := by simp [split]
  obtain ⟨l, member, within⟩ := List.mem_flatMap.mp inside
  exact ⟨l, member, p.index, p.field, by rw [Place.fault, list_of_mem_places within]⟩

end Listed

theorem listings_names (sound : schema.Sound) : ((listings schema data).map fun l => l.type.name) =
    schema.types.keys.filter fun name =>
      !(((data.member? (name ++ "s")).bind Json.items?).getD []).isEmpty := by
  rw [listings_eq, List.map_map, ← sound.names, List.filter_map]
  rfl

/-- No two types share a list. -/
theorem listings_apart (sound : schema.Sound) :
    ((listings schema data).map fun l => l.type.name ++ "s").Nodup := by
  have names : ((listings schema data).map fun l => l.type.name).Nodup := by
    rw [listings_names sound]
    exact schema.types.distinct.filter _
  have plural := names.map fun _ _ same => (String.append_left_inj "s").mp same
  rwa [List.map_map] at plural

section Cause

variable {earlier later : List Listed} {l : Listed}
  (split : listings schema data = earlier ++ l :: later)
include split

theorem error?_of_split : error? (ofCollection schema data) =
    ((earlier.flatMap Listed.places).findSome? Place.fault?).or
      ((l.places.findSome? Place.fault?).or
        ((later.flatMap Listed.places).findSome? Place.fault?)) := by
  rw [ofCollection_fault, split, List.flatMap_append, List.flatMap_cons, List.findSome?_append,
    List.findSome?_append]

/-- The fault is in a list if the lists before it have all their texts and it has not. -/
theorem caused_iff (apart : ((listings schema data).map fun l => l.type.name ++ "s").Nodup) :
    (∃ index field, ofCollection schema data =
      .error (.invalidObject (l.type.name ++ "s") index field)) ↔
    (∀ p ∈ earlier.flatMap Listed.places, p.HasText) ∧ ¬ ∀ p ∈ l.places, p.HasText := by
  have others : ∀ other ∈ earlier ++ later, other.type.name ++ "s" ≠ l.type.name ++ "s" := by
    rw [split, List.map_append, List.map_cons, List.nodup_middle, ← List.map_append] at apart
    exact fun other member same =>
      (List.nodup_cons.mp apart).1 (List.mem_map.mpr ⟨other, member, same⟩)
  -- A fault that names this list comes from no other one, as no other has its name.
  have elsewhere {lists : List Listed} (among : ∀ other ∈ lists, other ∈ earlier ++ later)
      {index : Nat} {field : String} : (lists.flatMap Listed.places).findSome? Place.fault? ≠
        some (.invalidObject (l.type.name ++ "s") index field) := fun found => by
    obtain ⟨other, member, _, _, same⟩ := Listed.fault_named found
    exact others other (among other member) (PatternFault.invalidObject.inj same).1.symm
  simp only [← error?_eq_some, error?_of_split split, ← findSome?_faultless Place.fault?_eq_some]
  cases before : (earlier.flatMap Listed.places).findSome? Place.fault? with
  | some fault =>
    simp only [Option.some_or, reduceCtorEq, false_and, iff_false]
    rintro ⟨index, field, same⟩
    exact elsewhere (fun _ => List.mem_append_left later) (before.trans same)
  | none =>
    cases own : l.places.findSome? Place.fault? with
    | some fault =>
      have single : ([l].flatMap Listed.places).findSome? Place.fault? = some fault := by
        simpa using own
      obtain ⟨_, member, index, field, rfl⟩ := Listed.fault_named single
      obtain rfl := List.mem_singleton.mp member
      simp
    | none =>
      simp only [Option.none_or, true_and, not_true_eq_false, iff_false]
      rintro ⟨index, field, found⟩
      exact elsewhere (fun _ => List.mem_append_right earlier) found

theorem texts_of_uncaused (uncaused : ∀ other ∈ earlier, ∀ index field,
    ofCollection schema data ≠ .error (.invalidObject (other.type.name ++ "s") index field)) :
    ∀ p ∈ earlier.flatMap Listed.places, p.HasText := by
  rw [← findSome?_faultless Place.fault?_eq_some]
  cases found : (earlier.flatMap Listed.places).findSome? Place.fault? with
  | none => rfl
  | some fault =>
    obtain ⟨other, member, index, field, rfl⟩ := Listed.fault_named found
    refine absurd (error?_eq_some.mp ?_) (uncaused other member index field)
    rw [error?_of_split split, found, Option.some_or]

end Cause

/-- What becomes of a collection of objects. -/
structure Collects (description : Description) (schema : Schema) (data : Json) : Prop where
  order : ((listings schema data).map fun l => l.type.name) = description.keys.filter fun name =>
    !(((data.member? (name ++ "s")).bind Json.items?).getD []).isEmpty
  apart : ((listings schema data).map fun l => l.type.name ++ "s").Nodup
  succeeds : (∃ chains, ofCollection schema data = .ok chains) ↔
    ∀ t ∈ schema.types.values, ∀ objects, data.member? (t.name ++ "s") = some (.arr objects) →
      ∀ object ∈ objects, ∀ field ∈ t.idFields, ∃ s, object.member? field = some (.str s)
  chains : ∀ chains, ofCollection schema data = .ok chains →
    List.Forall₂ (fun l c => ∃ ids, c = ⟨⟨true, l.type, some ids, true⟩, []⟩ ∧
      List.Forall₂ l.type.Spells l.objects ids ∧
      ∀ rigour given, l.objects.mapM (l.type.identity rigour) = .ok given → given = ids)
      (listings schema data) chains
  refused : ∀ fault, ofCollection schema data = .error fault ↔ ∃ before place after,
    (listings schema data).flatMap Listed.places = before ++ place :: after ∧
      (∀ p ∈ before, p.HasText) ∧ ¬ place.HasText ∧
      fault = .invalidObject place.list place.index place.field
  counted : ∀ type expected actual,
    ofCollection schema data ≠ .error (.idLength type expected actual)
  incomplete : ∀ earlier l later, listings schema data = earlier ++ l :: later →
    (∀ other ∈ earlier, ∀ index field,
      ofCollection schema data ≠ .error (.invalidObject (other.type.name ++ "s") index field)) →
    ∀ rigour ids, l.objects.mapM (l.type.identity rigour) = .ok ids →
      ((∃ index field, ofCollection schema data =
        .error (.invalidObject (l.type.name ++ "s") index field)) ↔ ∃ id ∈ ids, none ∈ id)

/-- A collection is turned into chains exactly if all listed objects have texts in their ID fields,
and it is refused for the first place without one. -/
theorem ofCollection_collects {description : Description}
    (accepted : Schema.ofDescription description = .ok schema) (data : Json) :
    Collects description schema data := by
  have sound := Schema.ofDescription_sound accepted
  have apart : ((listings schema data).map fun l => l.type.name ++ "s").Nodup :=
    listings_apart sound
  refine ⟨Schema.ofDescription_keys accepted ▸ listings_names sound, apart, ?_, ?_,
    fun fault => ofCollection_eq_error, ?_, ?_⟩
  · rw [← error?_eq_none, ofCollection_fault, findSome?_faultless Place.fault?_eq_some,
      List.forall_mem_flatMap]
    simp only [Listed.texts_iff]
    constructor
    · intro texts t member objects here object inside
      exact texts ⟨t, objects⟩ (mem_listings.mpr ⟨member, here, List.ne_nil_of_mem inside⟩)
        object inside
    · intro texts l member
      obtain ⟨known, here, _⟩ := mem_listings.mp member
      exact texts l.type known l.objects here
  · intro chains done
    refine (ofCollection_eq_ok.mp done).imp ?_
    rintro l _ ⟨ids, spelled, rfl⟩
    refine ⟨ids, rfl, spelled, fun rigour given taken => ?_⟩
    have names := (Abreast.mapM_eq_ok_iff_forall₂.mp taken).imp fun _ _ =>
      ObjectType.names_of_identity
    exact List.right_unique_forall₂' ObjectType.names_unique names
      (spelled.imp fun _ _ => ObjectType.Spells.names)
  · intro type expected actual failed
    obtain ⟨_, _, _, _, _, _, same⟩ := ofCollection_eq_error.mp failed
    cases same
  · intro earlier l later split uncaused rigour ids taken
    have names := (Abreast.mapM_eq_ok_iff_forall₂.mp taken).imp fun _ _ =>
      ObjectType.names_of_identity
    have paired : Matched True _ l.objects ids := .ofForall₂ names
    have complete := paired.forall_iff fun _ _ => ObjectType.Names.texts_iff
    rw [caused_iff split apart, and_iff_right (texts_of_uncaused split uncaused),
      Listed.texts_iff, complete]
    simp

/-- Two tests, and an empty list of builds. -/
def someTests : Json :=
  .obj [("builds", .arr []), ("tests", .arr [.obj [("id", .str "o:1")], .obj [("id", .str "o:2")]])]

/-- Something that is no object under the builds, and before it a revision without patches. -/
def someRevision : Json :=
  .obj [("builds", .arr [.null]),
    ("revisions", .arr [.obj [("git_commit_hash", .str "a"), ("patchset_hash", .null)]])]

theorem ofCollection_collects_of_reports : ∃ reports, Report.schema = .ok reports ∧
    (∃ chains, ofCollection reports someTests = .ok chains ∧
      chains.mapM text = .ok [">test[o:1; o:2]#"] ∧
      (listings reports someTests).length = 1) ∧
    ofCollection reports someRevision =
      .error (.invalidObject "revisions" 0 "patchset_hash") ∧
    ∃ place ∈ (listings reports someRevision).flatMap Listed.places, place.list = "revisions" ∧
      place.field = "patchset_hash" ∧ ¬ place.HasText := by
  have run : (do
      let reports ← Report.schema.toOption
      let chains ← (ofCollection reports someTests).toOption
      let texts ← (chains.mapM text).toOption
      pure (chains.length, texts, error? (ofCollection reports someRevision))) =
      some (1, [">test[o:1; o:2]#"], some (.invalidObject "revisions" 0 "patchset_hash")) := by
    decide +kernel
  simp only [Option.bind_eq_bind, Option.pure_def, Option.bind_eq_some_iff, toOption_eq_some,
    Option.some.injEq, Prod.mk.injEq, error?_eq_some] at run
  obtain ⟨reports, accepted, chains, done, _, written, length, rfl, failed⟩ := run
  have paired := (ofCollection_collects accepted someTests).chains chains done
  refine ⟨reports, accepted, ⟨chains, done, written, paired.length_eq.trans length⟩, failed, ?_⟩
  obtain ⟨_, place, _, split, _, textless, same⟩ :=
    ((ofCollection_collects accepted someRevision).refused _).mp failed
  obtain ⟨list, _, field⟩ := PatternFault.invalidObject.inj same
  exact ⟨place, by simp [split], list.symm, field.symm, textless⟩

end Chain

end ObjectQuery

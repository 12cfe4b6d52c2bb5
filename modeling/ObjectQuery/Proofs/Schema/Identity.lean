import ObjectQuery.Proofs.Chain.Growth
import ObjectQuery.Proofs.Correspondence
import ObjectQuery.Proofs.Schema.Record

/-! The identities of objects. An object that is valid for its type has all fields that the type is
described with, ID fields among them, so that no component is ever looked for in vain. What can
still go wrong is an ID field whose schema admits something other than text. -/
namespace ObjectQuery

open Outcome

/-- There is a text or a null under the name. -/
def Json.HasText (data : Json) (name : String) : Prop :=
  ∃ text, data.member? name = some (.ofText? text)

namespace ObjectType

variable {t : ObjectType} {data : Json} {fault : ObjectFault} {id : Id}

theorem component_eq_ok {field : String} {text : Option String} :
    t.component data field = .ok text ↔ data.member? field = some (.ofText? text) := by
  unfold component
  cases data.member? field with
  | none => simp
  | some value => cases value <;> cases text <;> simp [Json.ofText?]

/-- What is wrong with an ID field that has no text. -/
def textFault (t : ObjectType) (data : Json) (field : String) : ObjectFault :=
  match data.member? field with
  | some value => .invalidIdValue t.name field value
  | none => .missingIdField t.name field

theorem textFault_of_member? {field : String} {value : Json}
    (here : data.member? field = some value) :
    t.textFault data field = .invalidIdValue t.name field value := by
  rw [textFault, here]

theorem component_eq_error {field : String} :
    t.component data field = .error fault ↔
      ¬ data.HasText field ∧ fault = t.textFault data field := by
  have text : data.HasText field ↔ ∃ text, t.component data field = .ok text :=
    exists_congr fun _ => component_eq_ok.symm
  have cause : ∀ e, t.component data field = .error e → e = t.textFault data field := by
    intro e failed
    unfold component at failed
    unfold textFault
    split at failed <;> cases failed <;> simp_all
  rw [text]
  cases outcome : t.component data field with
  | ok text => simp
  | error e => simp [cause e outcome, eq_comm]

theorem check_eq_ok {u : Unit} : t.check data = .ok u ↔ t.accepts data = true := check_iff

theorem check_eq_error : t.check data = .error fault ↔ ∃ failure,
    t.validator.judge data = some failure ∧ fault = .invalid t.validator.name failure := by
  unfold check
  cases t.validator.judge data <;> simp [eq_comm]

theorem accepts_eq_false :
    t.accepts data = false ↔ ∃ failure, t.validator.judge data = some failure := by
  rw [accepts, Validator.accepts, Option.isNone_eq_false_iff, Option.isSome_iff_exists]

/-- Each component is the text of its ID field, or missing for a null. -/
def Names (t : ObjectType) (data : Json) (id : Id) : Prop :=
  List.Forall₂ (fun field text => data.member? field = some (.ofText? text)) t.idFields id

theorem components_eq_ok : t.idFields.mapM (t.component data) = .ok id ↔ t.Names data id := by
  simp only [Abreast.mapM_eq_ok_iff_forall₂, component_eq_ok, Names]

theorem identity_eq_ok :
    t.identity .strict data = .ok id ↔ t.accepts data = true ∧ t.Names data id := by
  rw [← components_eq_ok]
  simp [identity, check_eq_ok]

theorem identity_eq_error : t.identity .strict data = .error fault ↔
    t.check data = .error fault ∨ t.accepts data = true ∧ ∃ before field after,
      t.idFields = before ++ field :: after ∧ (∀ other ∈ before, data.HasText other) ∧
        ¬ data.HasText field ∧ fault = t.textFault data field := by
  have faults (field : String) (e : ObjectFault) : error? (t.component data field) = some e ↔
      ¬ data.HasText field ∧ e = t.textFault data field :=
    error?_eq_some.trans component_eq_error
  have taken := findSome?_first faults (l := t.idFields) (e := fault)
  rw [← error?_mapM_single, error?_eq_some] at taken
  rw [← taken]
  simp [identity, bind_eq_error, check_eq_ok]

/-- Nothing that is wrong with an ID field alone makes an object invalid. -/
theorem identity_invalid : (∃ failure, t.identity .strict data =
    .error (.invalid t.validator.name failure)) ↔ t.accepts data = false := by
  rw [accepts_eq_false]
  constructor
  · rintro ⟨failure, failed⟩
    rcases identity_eq_error.mp failed with refused | ⟨_, _, field, _, _, _, _, same⟩
    · obtain ⟨other, judged, _⟩ := check_eq_error.mp refused
      exact ⟨other, judged⟩
    · unfold textFault at same
      split at same <;> cases same
  · rintro ⟨failure, judged⟩
    exact ⟨failure, identity_eq_error.mpr (.inl (check_eq_error.mpr ⟨failure, judged, rfl⟩))⟩

theorem length_of_identity (done : t.identity .strict data = .ok id) :
    id.length = t.idFields.length :=
  (identity_eq_ok.mp done).2.length_eq.symm

section Present

variable (present : t.accepts data = true → ∀ field ∈ t.idFields,
  ∃ value, data.member? field = some value)
include present

theorem identity_found (type field : String) :
    t.identity .strict data ≠ .error (.missingIdField type field) := by
  intro failed
  rcases identity_eq_error.mp failed with refused | ⟨valid, before, other, after, split, _, _, same⟩
  · obtain ⟨_, _, fault⟩ := check_eq_error.mp refused
    cases fault
  · obtain ⟨value, here⟩ := present valid other (by simp [split])
    cases same.trans (textFault_of_member? here)

theorem identity_textless (valid : t.accepts data = true) : t.identity .strict data = .error fault ↔
    ∃ before field after value, t.idFields = before ++ field :: after ∧
      (∀ other ∈ before, data.HasText other) ∧ data.member? field = some value ∧
      (∀ text, value ≠ .ofText? text) ∧ fault = .invalidIdValue t.name field value := by
  have passed : t.check data ≠ .error fault := by simp [check_iff.mpr valid]
  rw [identity_eq_error, or_iff_right passed, and_iff_right valid]
  refine exists_congr fun before => exists_congr fun field => exists_congr fun after => ?_
  constructor
  · rintro ⟨split, texts, textless, same⟩
    obtain ⟨value, here⟩ := present valid field (by simp [split])
    exact ⟨value, split, texts, here, fun text eq => textless ⟨text, eq ▸ here⟩,
      same.trans (textFault_of_member? here)⟩
  · rintro ⟨value, split, texts, here, textless, rfl⟩
    refine ⟨split, texts, fun ⟨text, again⟩ => ?_, (textFault_of_member? here).symm⟩
    exact textless text (Option.some.inj (here.symm.trans again))

end Present

end ObjectType

namespace TypeDescription

variable {d : TypeDescription} {name : String} {data : Json}

/-- A record has every declared field, with a value that the field admits. -/
theorem IsRecord.member? (record : d.IsRecord name data) {field : String} {s : Json}
    (entry : (field, s) ∈ d.fields.entries) :
    ∃ value, data.member? field = some value ∧ d.Admits name field s value := by
  obtain ⟨members, rfl, keys, values⟩ := record
  have there : field ∈ members.map Prod.fst := (keys field).mpr (List.mem_map.mpr ⟨_, entry, rfl⟩)
  cases found : members.lookup field with
  | none =>
    obtain ⟨m, member, rfl⟩ := List.mem_map.mp there
    exact absurd (List.lookup_eq_none_iff.mp found m member) (by simp)
  | some value =>
    obtain ⟨front, back, rfl, _⟩ := List.lookup_eq_some_iff.mp found
    exact ⟨value, found, values field s entry value (by simp)⟩

end TypeDescription

/-- What the identities of objects come to for a type with this description. -/
structure ObjectType.Identifies (t : ObjectType) (d : TypeDescription) : Prop where
  invalid : ∀ data, (∃ failure, t.identity .strict data = .error (.invalid t.name failure)) ↔
    t.accepts data = false
  found : ∀ data type field, t.identity .strict data ≠ .error (.missingIdField type field)
  textless : ∀ data, t.accepts data = true → ∀ fault, t.identity .strict data = .error fault ↔
    ∃ before field after value, d.idFields = before ++ field :: after ∧
      (∀ other ∈ before, ∃ text, data.member? other = some (.ofText? text)) ∧
      data.member? field = some value ∧ (∀ text, value ≠ .ofText? text) ∧
      fault = .invalidIdValue t.name field value
  components : ∀ data id, t.identity .strict data = .ok id ↔ t.accepts data = true ∧
    List.Forall₂ (fun field text => data.member? field = some (.ofText? text)) d.idFields id
  missing : ∀ data id, t.identity .strict data = .ok id →
    ∀ field, (field, none) ∈ d.idFields.zip id → ∃ s, (field, s) ∈ d.fields.entries ∧
      (field ∉ d.required.names ∨ ∃ v, Validator.compile? (t.name ++ "." ++ field) s = some v ∧
        v.accepts .null = true)
  listed : ∀ ids : IdList, (∀ id ∈ ids, ∃ data, t.identity .strict data = .ok id) →
    ∀ base down matched, Chain.Admits base down t → Chain.make base down t (some ids) matched =
      .ok ⟨⟨down, t, some ids, matched⟩, base.elim [] Chain.steps⟩

namespace Schema

variable {description : Description} {schema : Schema}

/-- Types of accepted schemas look for no ID field in vain. An object that is not valid is refused
as such, and a valid one only for its first ID field with something other than text or null. -/
theorem type_identifies (accepted : ofDescription description = .ok schema) {name : String}
    {d : TypeDescription} (entry : (name, d) ∈ description.entries)
    (plain : ∀ e ∈ d.fields.entries, Shape.IsPlain e.2) :
    ∃ type, schema.type? name = some type ∧ type.name = name ∧ type.Identifies d := by
  obtain ⟨type, found, called, idFields, record⟩ := described_type accepted entry plain
  have named : type.name = name := (ofDescription_sound accepted).name_of_type? found
  have declared : ∀ field ∈ d.idFields, ∃ s, (field, s) ∈ d.fields.entries := fun field member => by
    obtain ⟨e, inside, rfl⟩ := List.mem_map.mp
      (((valid_of_accepted accepted).types name d entry).known member)
    exact ⟨e.2, inside⟩
  have present (data : Json) (valid : type.accepts data = true) : ∀ field ∈ type.idFields,
      ∃ value, data.member? field = some value := by
    intro field member
    obtain ⟨s, inside⟩ := declared field (idFields ▸ member)
    obtain ⟨value, here, _⟩ := ((record data).mp valid).member? inside
    exact ⟨value, here⟩
  refine ⟨type, found, named, ?_, fun data => ObjectType.identity_found (present data), ?_, ?_, ?_,
    fun ids taken base down matched admits => ?_⟩
  · rw [named, ← called]
    exact fun data => ObjectType.identity_invalid
  · rw [← idFields]
    exact fun data valid fault => ObjectType.identity_textless (present data) valid
  · rw [← idFields]
    exact fun data id => ObjectType.identity_eq_ok
  · intro data id done field member
    obtain ⟨valid, each⟩ := ObjectType.identity_eq_ok.mp done
    rw [ObjectType.Names, idFields] at each
    have null := (List.forall₂_iff_zip.mp each).2 member
    obtain ⟨s, inside⟩ := declared field (List.of_mem_zip member).1
    obtain ⟨value, here, admits⟩ := ((record data).mp valid).member? inside
    obtain rfl := Option.some.inj (null.symm.trans here)
    exact ⟨s, inside, named ▸ admits.symm.imp_left And.left⟩
  · refine Chain.make_eq_ok.mpr ⟨admits, Chain.fits_some.mpr fun id member => ?_, rfl⟩
    obtain ⟨data, done⟩ := taken id member
    exact ObjectType.length_of_identity done

/-- Parts are told apart by a number too, where they have one. -/
def measured : TypeDescription :=
  Report.describe [("id", Report.text), ("size", Report.amount)] ["id"] ["id", "size"] []

/-- A valid part has no identity if it has a size. A part that has none may not leave it out. -/
theorem type_identifies_measured : ∃ schema type,
    ofDescription (.ofList [("part", measured)]) = .ok schema ∧
    schema.type? "part" = some type ∧ (∀ e ∈ measured.fields.entries, Shape.IsPlain e.2) ∧
    type.identity .strict (.obj [("id", .str "a"), ("size", .null)]) = .ok [some "a", none] ∧
    type.identity .strict (.obj [("id", .str "a"), ("size", .nat 2)]) =
      .error (.invalidIdValue "part" "size" (.nat 2)) ∧
    (∃ failure, type.identity .strict (.obj [("id", .str "a")]) =
      .error (.invalid "part" failure)) ∧
    Chain.make none true type (some [[some "a", none]]) true =
      .ok ⟨⟨true, type, some [[some "a", none]], true⟩, []⟩ := by
  have run : (do
      let schema ← (ofDescription (.ofList [("part", measured)])).toOption
      let type ← schema.type? "part"
      pure (type.accepts (.obj [("id", .str "a"), ("size", .null)]),
        type.accepts (.obj [("id", .str "a"), ("size", .nat 2)]),
        type.accepts (.obj [("id", .str "a")]))) = some (true, true, false) := by
    decide +kernel
  have entry : ("part", measured) ∈ (Table.ofList [("part", measured)]).entries := by
    rw [Table.entries_ofList (by decide)]
    exact List.mem_cons_self
  have plain : ∀ e ∈ measured.fields.entries, Shape.IsPlain e.2 := by decide +kernel
  simp only [Option.bind_eq_bind, Option.pure_def, Option.bind_eq_some_iff, toOption_eq_some,
    Option.some.injEq, Prod.mk.injEq] at run
  obtain ⟨schema, accepted, type, found, unsized, sized, short⟩ := run
  obtain ⟨_, same, named, identifies⟩ := type_identifies accepted entry plain
  obtain rfl := Option.some.inj (found.symm.trans same)
  have taken := (identifies.components _ [some "a", none]).mpr ⟨unsized, .cons rfl (.cons rfl .nil)⟩
  refine ⟨schema, type, accepted, found, plain, taken, ?_, ?_, ?_⟩
  · refine (identifies.textless _ sized _).mpr
      ⟨["id"], "size", [], .nat 2, rfl, ?_, rfl, fun text => ?_, by rw [named]⟩
    · simpa using ⟨some "a", rfl⟩
    · cases text <;> simp [Json.nat, Json.ofText?]
  · simpa only [named] using (identifies.invalid _).mpr short
  · refine identifies.listed _ (fun id member => ?_) none true true rfl
    exact ⟨_, List.mem_singleton.mp member ▸ taken⟩

end Schema

end ObjectQuery

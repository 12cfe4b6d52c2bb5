import ObjectQuery.Proofs.Schema.Collection
import ObjectQuery.Proofs.Schema.Validity

/-! Objects as records. The shape that a type is validated with is put together from the schemas of
its fields. It accepts the records with exactly these fields, whose values are valid for their
schemas taken alone, and besides these the nulls of fields that are not required. -/
namespace ObjectQuery

open Outcome Shape

namespace Shape

variable {follow : String → Json → Option Failure}

/-- In whichever order the rules stand, an object needs all names, and a shape for each member. -/
theorem judge_object {fields : List (String × Shape)} {names : List String} {v : Json} :
    judge follow (.all (.kinds [.object] :: if isSingle names
        then [.record fields none, .required names]
        else [.required names, .record fields none])) v = none ↔
      ∃ members, v = .obj members ∧ (∀ name ∈ names, name ∈ members.map Prod.fst) ∧
        ∀ m ∈ members, ∃ s, fields.lookup m.1 = some s ∧ judge follow s m.2 = none := by
  have rules : (∀ s ∈ (if isSingle names then [.record fields none, .required names]
      else [.required names, .record fields none] : List Shape), judge follow s v = none) ↔
      judge follow (.required names) v = none ∧ judge follow (.record fields none) v = none := by
    split <;> simp [and_comm]
  rw [judge_all, List.forall_mem_cons, judge_kinds, rules]
  cases v with
  | obj members => simp only [judge_required, judge_record]; simp [Kind.fits]
  | _ => simp [Kind.fits]

theorem judge_nullable {shape : Shape} {v : Json} :
    judge follow (.all [.anyOf [.all [.kinds [.null]], shape]]) v = none ↔
      judge follow shape v = none ∨ v = .null := by
  have null : judge follow (.all [.kinds [.null]]) v = none ↔ v = .null := by
    rw [judge_all, List.forall_mem_singleton, judge_kinds]
    cases v <;> simp [Kind.fits]
  rw [judge_all, List.forall_mem_singleton, judge_anyOf]
  simp [null, or_comm]

end Shape

namespace TypeDescription

variable {d : TypeDescription} {name field : String} {s : Json}

/-- What may stand in a field: what is valid for its schema alone, or null if it is not required. -/
def Admits (d : TypeDescription) (name field : String) (s value : Json) : Prop :=
  (∃ v, Validator.compile? (name ++ "." ++ field) s = some v ∧ v.accepts value = true) ∨
    field ∉ d.required.names ∧ value = .null

/-- An object with all declared fields and no others, each of them with a value that it admits. -/
def IsRecord (d : TypeDescription) (name : String) (data : Json) : Prop :=
  ∃ members, data = .obj members ∧
    (∀ key, key ∈ members.map Prod.fst ↔ key ∈ d.fields.keys) ∧
    ∀ field s, (field, s) ∈ d.fields.entries → ∀ value, (field, value) ∈ members →
      d.Admits name field s value

theorem lookup_shape {fields : List (String × Shape)}
    (done : readFields (Json.placed (d.fields.entries.map fun e => (e.1, d.fieldShape e.1 e.2))) =
      some fields) (field : String) :
    fields.lookup field = (d.fields.get? field).bind fun s => read? (d.fieldShape field s) := by
  have distinct : ((d.fields.entries.map fun e => (e.1, d.fieldShape e.1 e.2)).map
      Prod.fst).Nodup := by simpa [Function.comp_def] using d.fields.distinct
  rw [lookup_readFields done, Json.lookup_placed_of_distinct distinct,
    Table.lookup_map_keyed d.fieldShape, Option.bind_map]
  rfl

/-- A field within the shape of its type is judged by its schema, null aside. -/
theorem judge_fieldShape (plain : Shape.IsPlain s)
    (alone : (Validator.compile? (name ++ "." ++ field) s).isSome = true) :
    ∃ shape, read? (d.fieldShape field s) = some shape ∧
      ∀ value, judge unfollowed shape value = none ↔ d.Admits name field s value := by
  obtain ⟨v, compiled⟩ := Option.isSome_iff_exists.mp alone
  obtain ⟨_, _, read⟩ := Validator.compile?_eq_some compiled
  have valid (value : Json) : judge unfollowed v.shape value = none ↔
      ∃ u, Validator.compile? (name ++ "." ++ field) s = some u ∧ u.accepts value = true := by
    rw [← Validator.judge_of_not_refers compiled plain.not_refers value]
    simp [compiled, Validator.accepts]
  rw [fieldShape_eq]
  by_cases required : d.required.contains field = true
  · refine ⟨v.shape, by rw [if_pos required, read], fun value => ?_⟩
    have listed : field ∈ d.required.names := by simpa [NameSet.contains] using required
    simp [Admits, valid, listed]
  · refine ⟨_, by rw [if_neg required, read_nullable read], fun value => ?_⟩
    have unlisted : field ∉ d.required.names := by simpa [NameSet.contains] using required
    simp [judge_nullable, Admits, valid, unlisted]

/-- The shape of a type asks for a record of its fields. -/
theorem judge_shape (plain : ∀ e ∈ d.fields.entries, Shape.IsPlain e.2)
    (alone : ∀ e ∈ d.fields.entries,
      (Validator.compile? (name ++ "." ++ e.1) e.2).isSome = true)
    {shape : Shape} (read : read? d.shape = some shape) {data : Json} :
    judge unfollowed shape data = none ↔ d.IsRecord name data := by
  rw [read_shape] at read
  obtain ⟨fields, listed, rfl⟩ := Option.map_eq_some_iff.mp read
  -- Under a name stands what is read for the field of that name, and nothing else stands there.
  have declared (field : String) (s : Json) (entry : (field, s) ∈ d.fields.entries) :
      ∃ shape, fields.lookup field = some shape ∧
        ∀ value, judge unfollowed shape value = none ↔ d.Admits name field s value := by
    rw [lookup_shape listed, Table.get?_eq_some.mpr entry]
    exact judge_fieldShape (plain _ entry) (alone _ entry)
  have known (key : String) (shape : Shape) (found : fields.lookup key = some shape) :
      ∃ s, (key, s) ∈ d.fields.entries := by
    rw [lookup_shape listed] at found
    obtain ⟨s, entry, _⟩ := Option.bind_eq_some_iff.mp found
    exact ⟨s, Table.get?_eq_some.mp entry⟩
  rw [judge_object]
  refine exists_congr fun members => and_congr_right fun _ => ?_
  constructor
  · rintro ⟨present, each⟩
    refine ⟨fun key => ⟨fun member => ?_, present key⟩, fun field s entry value member => ?_⟩
    · obtain ⟨m, inside, rfl⟩ := List.mem_map.mp member
      obtain ⟨shape, found, _⟩ := each m inside
      obtain ⟨s, entry⟩ := known m.1 shape found
      exact List.mem_map.mpr ⟨_, entry, rfl⟩
    · obtain ⟨shape, found, judged⟩ := declared field s entry
      obtain ⟨other, again, passed⟩ := each _ member
      obtain rfl := Option.some.inj (found.symm.trans again)
      exact (judged value).mp passed
  · rintro ⟨keys, values⟩
    refine ⟨fun field listed => (keys field).mpr listed, fun m member => ?_⟩
    obtain ⟨e, entry, same⟩ := List.mem_map.mp
      ((keys m.1).mp (List.mem_map.mpr ⟨m, member, rfl⟩))
    obtain ⟨field, s⟩ := e
    obtain rfl : field = m.1 := same
    obtain ⟨shape, found, judged⟩ := declared m.1 s entry
    exact ⟨shape, found, (judged m.2).mpr (values m.1 s entry m.2 member)⟩

end TypeDescription

namespace ObjectType

theorem check_iff {t : ObjectType} {data : Json} :
    t.check data = .ok () ↔ t.accepts data = true := by
  rw [check, accepts, Validator.accepts]
  cases t.validator.judge data <;> simp

end ObjectType

namespace Schema

variable {description : Description} {schema : Schema}

theorem valid_of_accepted (accepted : ofDescription description = .ok schema) :
    description.Valid :=
  demands_met.mp ((ofDescription_enforced description).ok_iff.mp ⟨schema, accepted⟩)

/-- The type that is made of a description, and what its validator comes to. -/
theorem described_type (accepted : ofDescription description = .ok schema) {name : String}
    {d : TypeDescription} (entry : (name, d) ∈ description.entries)
    (plain : ∀ e ∈ d.fields.entries, Shape.IsPlain e.2) :
    ∃ type, schema.type? name = some type ∧ type.validator.name = name ∧
      type.idFields = d.idFields ∧ ∀ data, type.accepts data = true ↔ d.IsRecord name data := by
  have schemas := ((valid_of_accepted accepted).types name d entry).schemas
  have described := Table.get?_eq_some.mpr entry
  rcases type?_described accepted name with ⟨none, _⟩ | ⟨_, type, same, found, made, idFields⟩
  · cases none.symm.trans described
  obtain rfl := Option.some.inj (described.symm.trans same)
  obtain ⟨called, _, read⟩ := Validator.compile?_eq_some made
  refine ⟨type, found, called, idFields, fun data => ?_⟩
  rw [ObjectType.accepts, Validator.accepts, Option.isNone_iff_eq_none,
    Validator.judge_of_not_refers made (TypeDescription.not_refers_shape plain),
    TypeDescription.judge_shape plain schemas read]

/-- A type accepts exactly the objects with all declared fields and no others, in each of which
stands a value that is valid for the schema of the field alone, or a null where the field is not
required. The schemas of the fields are compiled each for itself, whatever is put together. -/
theorem type_accepts_iff (accepted : ofDescription description = .ok schema) {name : String}
    {d : TypeDescription} (entry : (name, d) ∈ description.entries)
    (plain : ∀ e ∈ d.fields.entries, Shape.IsPlain e.2) :
    (∀ e ∈ d.fields.entries, (Validator.compile? (name ++ "." ++ e.1) e.2).isSome = true) ∧
    ∃ type, schema.type? name = some type ∧ ∀ data,
      (type.accepts data = true ↔ d.IsRecord name data) ∧
      (type.check data = .ok () ↔ type.accepts data = true) := by
  obtain ⟨type, found, _, _, record⟩ := described_type accepted entry plain
  exact ⟨((valid_of_accepted accepted).types name d entry).schemas, type, found,
    fun data => ⟨record data, ObjectType.check_iff⟩⟩

/-- A part has a field that takes any value and one that takes none. -/
def part : TypeDescription :=
  Report.describe [("id", Report.text), ("size", Report.amount), ("remark", .bool true),
    ("gap", .bool false)] ["id"] ["id"] []

/-- Parts, and notes with notes in them, whose schema is not plain. -/
def shelf : Description :=
  .ofList [("part", part), ("note", Report.describe
    [("id", Report.text), ("notes", Report.listOf (.obj [("$ref", .str "#")]))] ["id"] ["id"] [])]

/-- The field that takes no value has to be null, and the identity of a part may not be. A field may
not be left out either. -/
theorem type_accepts_iff_shelf : ∃ schema type, ofDescription shelf = .ok schema ∧
    ("part", part) ∈ shelf.entries ∧ (∀ e ∈ part.fields.entries, Shape.IsPlain e.2) ∧
    schema.type? "part" = some type ∧
    type.accepts (.obj [("gap", .null), ("id", .str "a"), ("remark", .arr []),
      ("size", .null)]) = true ∧
    part.IsRecord "part" (.obj [("gap", .null), ("id", .str "a"), ("remark", .arr []),
      ("size", .null)]) ∧
    ¬ part.IsRecord "part" (.obj [("gap", .null), ("id", .null), ("remark", .arr []),
      ("size", .null)]) ∧
    ¬ part.IsRecord "part" (.obj [("gap", .null), ("id", .str "a"), ("remark", .arr [])]) := by
  have run : (do
      let schema ← (ofDescription shelf).toOption
      let type ← schema.type? "part"
      pure (type.accepts (.obj [("gap", .null), ("id", .str "a"), ("remark", .arr []),
          ("size", .null)]),
        type.accepts (.obj [("gap", .null), ("id", .null), ("remark", .arr []), ("size", .null)]),
        type.accepts (.obj [("gap", .null), ("id", .str "a"), ("remark", .arr [])]))) =
      some (true, false, false) := by
    decide +kernel
  have entry : ("part", part) ∈ shelf.entries := by
    rw [shelf, Table.entries_ofList (by decide)]
    exact List.mem_cons_self
  have plain : ∀ e ∈ part.fields.entries, Shape.IsPlain e.2 := by decide +kernel
  simp only [Option.bind_eq_bind, Option.pure_def, Option.bind_eq_some_iff, toOption_eq_some,
    Option.some.injEq, Prod.mk.injEq] at run
  obtain ⟨schema, accepted, type, found, whole, unnamed, short⟩ := run
  obtain ⟨_, _, same, verdict⟩ := type_accepts_iff accepted entry plain
  obtain rfl := Option.some.inj (found.symm.trans same)
  refine ⟨schema, type, accepted, entry, plain, found, whole, (verdict _).1.mp whole,
    fun record => ?_, fun record => ?_⟩
  · cases unnamed.symm.trans ((verdict _).1.mpr record)
  · cases short.symm.trans ((verdict _).1.mpr record)

end Schema

end ObjectQuery

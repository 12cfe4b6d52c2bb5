import ObjectQuery.Proofs.Json.Members
import ObjectQuery.Proofs.Schema.Demands
import ObjectQuery.Proofs.Schema.Registration
import ObjectQuery.Proofs.Shape.Vocabulary

/-! How schemas are put together. The schemas of fields become parts of the shape of a type, and the
shapes of types become parts of the shape of a collection. What is put together refers to nothing
that its parts do not refer to, and its shape is put together from theirs. -/
namespace ObjectQuery

open Outcome Json Shape

theorem TypeDescription.fieldShape_eq (d : TypeDescription) (field : String) (s : Json) :
    d.fieldShape field s = if d.required.contains field then s
      else .obj [("anyOf", .arr [.obj [("type", .str "null")], s])] := by
  simp [fieldShape, object, placeMember]

theorem TypeDescription.shape_eq (d : TypeDescription) :
    d.shape = .obj [("additionalProperties", .bool false),
      ("properties", .obj (placed (d.fields.entries.map fun e => (e.1, d.fieldShape e.1 e.2)))),
      ("required", .texts d.fields.keys), ("type", .str "object")] := by
  rw [shape, object_eq, object_eq]
  generalize placed (List.map _ _) = l
  simp (disch := decide) only [placed, List.foldl_cons, List.foldl_nil, placeMember_first,
    placeMember_later, placeMember_nil]

/-- The shape of a list of objects. -/
def listShape (s : Json) : Json := .obj [("items", s), ("type", .str "array")]

theorem collectionShape_eq (shapes : List (String × Json)) :
    collectionShape shapes = .obj [("additionalProperties", .bool false),
      ("properties", .obj (placed (shapes.map fun e => (e.1, listShape e.2)))),
      ("type", .str "object")] := by
  have list (s : Json) : object [("type", .str "array"), ("items", s)] = listShape s := by
    rw [object_eq, listShape]
    simp (disch := decide) only [placed, List.foldl_cons, List.foldl_nil, placeMember_first,
      placeMember_nil]
  simp only [collectionShape, list]
  rw [object_eq, object_eq]
  generalize placed (List.map _ _) = l
  simp (disch := decide) only [placed, List.foldl_cons, List.foldl_nil, placeMember_first,
    placeMember_later, placeMember_nil]

theorem Schema.wholeShape_eq (description : Description) :
    wholeShape description = .obj [("additionalProperties", .bool false),
      ("properties", .obj (placed (description.entries.map fun e => (e.1, listShape e.2.shape)))),
      ("type", .str "object")] := by
  rw [wholeShape, collectionShape_eq, List.map_map]
  rfl

section References

variable {d : TypeDescription} {reference : String}

theorem refers_fieldShape {field : String} {s : Json}
    (refers : Refers (d.fieldShape field s) reference) : Refers s reference := by
  rw [TypeDescription.fieldShape_eq] at refers
  split at refers
  · exact refers
  · simpa [refers_obj, subschemas, slot] using refers

theorem refers_shape (refers : Refers d.shape reference) :
    ∃ e ∈ d.fields.entries, Refers e.2 reference := by
  rw [TypeDescription.shape_eq, refers_obj] at refers
  have none : ¬ Refers (.bool false) reference := fun refers => by cases refers
  obtain ⟨w, ⟨name, member⟩, refers⟩ : ∃ w, (∃ name, (name, w) ∈
      placed (d.fields.entries.map fun e => (e.1, d.fieldShape e.1 e.2))) ∧
      Refers w reference := by simpa [subschemas, slot, none] using refers
  obtain ⟨e, inside, same⟩ := List.mem_map.mp (mem_of_placed member)
  obtain ⟨_, rfl⟩ := Prod.mk.inj same
  exact ⟨e, inside, refers_fieldShape refers⟩

theorem refers_listShape (refers : Refers (listShape d.shape) reference) :
    Refers d.shape reference := by
  rw [TypeDescription.shape_eq] at refers ⊢
  rw [listShape, refers_obj] at refers
  simpa [subschemas, slot] using refers

theorem refers_wholeShape {description : Description}
    (refers : Refers (Schema.wholeShape description) reference) :
    ∃ e ∈ description.entries, ∃ f ∈ e.2.fields.entries, Refers f.2 reference := by
  rw [Schema.wholeShape_eq, refers_obj] at refers
  have none : ¬ Refers (.bool false) reference := fun refers => by cases refers
  obtain ⟨w, ⟨name, member⟩, refers⟩ : ∃ w, (∃ name, (name, w) ∈
      placed (description.entries.map fun e => (e.1, listShape e.2.shape))) ∧
      Refers w reference := by simpa [subschemas, slot, none] using refers
  obtain ⟨e, inside, same⟩ := List.mem_map.mp (mem_of_placed member)
  obtain ⟨_, rfl⟩ := Prod.mk.inj same
  exact ⟨e, inside, refers_shape (refers_listShape refers)⟩

end References

/-- Under each name stands what is read there. -/
theorem lookup_readFields {members : List (String × Json)} {fields : List (String × Shape)}
    (done : readFields members = some fields) (name : String) :
    fields.lookup name = (members.lookup name).bind read? := by
  induction members generalizing fields with
  | nil =>
    obtain rfl := Option.some.inj done
    rfl
  | cons m rest ih =>
    obtain ⟨key, v⟩ := m
    obtain ⟨s, first, others, later, rfl⟩ : ∃ s, read? v = some s ∧ ∃ others,
        readFields rest = some others ∧ (key, s) :: others = fields := by
      simpa [readFields, Option.bind_eq_some_iff] using done
    rw [List.lookup_cons, List.lookup_cons, ih later]
    cases name == key with
    | true => exact first.symm
    | false => rfl

theorem readFields_isSome {members : List (String × Json)}
    (each : ∀ m ∈ members, (read? m.2).isSome) : (readFields members).isSome := by
  induction members with
  | nil => rfl
  | cons m rest ih =>
    obtain ⟨key, v⟩ := m
    obtain ⟨s, first⟩ := Option.isSome_iff_exists.mp (each (key, v) List.mem_cons_self)
    obtain ⟨others, later⟩ := Option.isSome_iff_exists.mp
      (ih fun other member => each other (List.mem_cons_of_mem _ member))
    simp [readFields, first, later]

theorem mapM_text (l : List String) : (l.map Json.str).mapM Json.text? = some l := by
  induction l with
  | nil => rfl
  | cons name l ih =>
    rw [List.map_cons, List.mapM_cons, ih]
    rfl

/-- The schema of a field that may be null besides. -/
theorem read_nullable {s : Json} {shape : Shape} (read : read? s = some shape) :
    read? (.obj [("anyOf", .arr [.obj [("type", .str "null")], s])]) =
      some (.all [.anyOf [.all [.kinds [.null]], shape]]) := by
  have null : read? (.obj [("type", .str "null")]) = some (.all [.kinds [.null]]) := rfl
  have options : readContent "anyOf" (.arr [.obj [("type", .str "null")], s]) =
      some (.shapes [.all [.kinds [.null]], shape]) := by
    show (readAll [.obj [("type", .str "null")], s]).map Content.shapes = _
    simp [readAll_eq, null, read]
  simp only [Shape.read?, readContents_eq, List.mapM_cons, List.mapM_nil, options]
  rfl

theorem assemble_shape (fields : List (String × Shape)) (names : List String) :
    assemble? [("additionalProperties", .shape .nothing), ("properties", .fields fields),
      ("required", .value (.texts names)), ("type", .value (.str "object"))] =
      some (.all (.kinds [.object] :: if isSingle names
        then [.record fields none, .required names]
        else [.required names, .record fields none])) := by
  generalize given : [("additionalProperties", Content.shape .nothing),
    ("properties", .fields fields), ("required", .value (.texts names)),
    ("type", .value (.str "object"))] = contents
  have values : (valueRules contents).mapM id =
      some [[.kinds [.object]], [], [], [], [], [], [], [], []] := by subst given; rfl
  have demands : demanded? contents = (names? (.texts names)).map fun names => [names] := by
    subst given
    rfl
  have all : names? (.texts names) = some names := mapM_text names
  have pattern : rule? contents "pattern" (onText pattern?) = some [] := by subst given; rfl
  have last : (lastRules contents).mapM id = some [[], [], []] := by subst given; rfl
  have members : memberRules contents [names] = if isSingle names
      then [.record fields none, .required names]
      else [.required names, .record fields none] := by
    subst given
    show (if (isSingle names || false) = true then _ else _) = _
    rw [Bool.or_false]
    rfl
  simp [assemble?, values, demands, all, pattern, last, members]

/-- The shape of a type asks for an object with all fields and with no other members. -/
theorem read_shape (d : TypeDescription) :
    read? d.shape = (readFields (placed (d.fields.entries.map fun e =>
      (e.1, d.fieldShape e.1 e.2)))).map fun fields =>
        .all (.kinds [.object] :: if isSingle d.fields.keys
          then [.record fields none, .required d.fields.keys]
          else [.required d.fields.keys, .record fields none]) := by
  have closed : readContent "additionalProperties" (.bool false) = some (.shape .nothing) := rfl
  have listed (members : List (String × Json)) :
      readContent "properties" (.obj members) = (readFields members).map .fields := rfl
  have required (v : Json) : readContent "required" v = some (.value v) := rfl
  have type : readContent "type" (.str "object") = some (.value (.str "object")) := rfl
  rw [TypeDescription.shape_eq, Shape.read?, readContents_eq]
  simp only [List.mapM_cons, List.mapM_nil, closed, listed, required, type]
  cases readFields (placed (d.fields.entries.map fun e => (e.1, d.fieldShape e.1 e.2))) with
  | none => rfl
  | some fields => exact assemble_shape fields d.fields.keys

theorem read_listShape (d : TypeDescription) :
    read? (listShape d.shape) =
      (read? d.shape).map fun s => .all [.kinds [.array], .each s] := by
  have readable : readContent "items" d.shape = (read? d.shape).map .shape := by
    rw [TypeDescription.shape_eq]
    rfl
  have type : readContent "type" (.str "array") = some (.value (.str "array")) := rfl
  have contents : readContents [("items", d.shape), ("type", .str "array")] =
      (read? d.shape).map fun s => [("items", .shape s), ("type", .value (.str "array"))] := by
    rw [readContents_eq]
    simp only [List.mapM_cons, List.mapM_nil, readable, type]
    cases read? d.shape <;> rfl
  rw [listShape, Shape.read?, contents]
  cases read? d.shape <;> rfl

/-- The shape of a collection asks for an object of lists and for no other members. -/
theorem read_wholeShape (description : Description) :
    read? (Schema.wholeShape description) = (readFields (placed (description.entries.map fun e =>
      (e.1, listShape e.2.shape)))).map fun fields =>
        .all [.kinds [.object], .record fields none] := by
  have closed : readContent "additionalProperties" (.bool false) = some (.shape .nothing) := rfl
  have listed (members : List (String × Json)) :
      readContent "properties" (.obj members) = (readFields members).map .fields := rfl
  have type : readContent "type" (.str "object") = some (.value (.str "object")) := rfl
  rw [Schema.wholeShape_eq, Shape.read?, readContents_eq]
  simp only [List.mapM_cons, List.mapM_nil, closed, listed, type]
  cases readFields (placed (description.entries.map fun e => (e.1, listShape e.2.shape))) <;> rfl

/-- Under the name of a type stands the shape of its lists. -/
theorem lookup_wholeShape {description : Description} {fields : List (String × Shape)}
    (done : readFields (placed (description.entries.map fun e => (e.1, listShape e.2.shape))) =
      some fields) (name : String) :
    fields.lookup name = (description.get? name).bind fun d =>
      (read? d.shape).map fun t => .all [.kinds [.array], .each t] := by
  have distinct : ((description.entries.map fun e => (e.1, listShape e.2.shape)).map
      Prod.fst).Nodup := by simpa [Function.comp_def] using description.distinct
  rw [lookup_readFields done, lookup_placed_of_distinct distinct,
    Table.lookup_map (fun d : TypeDescription => listShape d.shape), Table.get?]
  cases description.entries.lookup name with
  | none => rfl
  | some d => exact read_listShape d

end ObjectQuery

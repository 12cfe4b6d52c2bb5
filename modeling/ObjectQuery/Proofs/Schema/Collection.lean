import ObjectQuery.Proofs.Schema.Composition
import ObjectQuery.Proofs.Schema.Graph

/-! Validation of collections. A schema holds validators of its types and one of whole collections,
in which the shapes of the types are parts of a larger one. The two agree: a collection is valid if
it consists of lists of objects that are valid for the types they are listed under. -/
namespace ObjectQuery

open Outcome Shape

namespace Table

/-- What is made entry by entry is found under the key of what it is made from. -/
theorem lookup_mapM {ε α β : Type} {f : String × α → Except ε β} {l : List (String × α)}
    {bs : List (String × β)} (done : l.mapM (fun e => do pure (e.1, ← f e)) = .ok bs)
    (key : String) :
    (l.lookup key = none ∧ bs.lookup key = none) ∨
      ∃ a b, l.lookup key = some a ∧ f (key, a) = .ok b ∧ bs.lookup key = some b := by
  induction l generalizing bs with
  | nil =>
    obtain rfl : [] = bs := by simpa using done
    exact .inl ⟨rfl, rfl⟩
  | cons e l ih =>
    obtain ⟨name, a⟩ := e
    obtain ⟨b, first, rest, later, rfl⟩ : ∃ b, f (name, a) = .ok b ∧ ∃ rest,
        l.mapM (fun e => do pure (e.1, ← f e)) = .ok rest ∧ (name, b) :: rest = bs := by
      simpa [and_assoc] using done
    rw [List.lookup_cons, List.lookup_cons]
    cases same : key == name with
    | true =>
      obtain rfl := eq_of_beq same
      exact .inr ⟨a, b, rfl, first, rfl⟩
    | false => exact ih later

end Table

namespace Shape

variable {follow : String → Json → Option Failure}

theorem judge_list {s : Shape} {v : Json} :
    judge follow (.all [.kinds [.array], .each s]) v = none ↔
      ∃ items, v = .arr items ∧ ∀ item ∈ items, judge follow s item = none := by
  rw [judge_all, List.forall_mem_cons, List.forall_mem_singleton, judge_kinds]
  cases v with
  | arr items => simp [Kind.fits, judge_each]
  | _ => simp [Kind.fits]

theorem judge_collection {fields : List (String × Shape)} {v : Json} :
    judge follow (.all [.kinds [.object], .record fields none]) v = none ↔
      ∃ members, v = .obj members ∧
        ∀ m ∈ members, ∃ s, fields.lookup m.1 = some s ∧ judge follow s m.2 = none := by
  rw [judge_all, List.forall_mem_cons, List.forall_mem_singleton, judge_kinds]
  cases v with
  | obj members => simp [Kind.fits, judge_record]
  | _ => simp [Kind.fits]

end Shape

namespace Schema

variable {description : Description} {schema : Schema}

theorem ofDescription_validator (accepted : ofDescription description = .ok schema) :
    Validator.compile? "schema" (wholeShape description) = some schema.validator := by
  rw [ofDescription_eq] at accepted
  obtain ⟨made, types, accepted⟩ := bind_eq_ok.mp accepted
  have whole : collectionShape (made.map fun e => (e.1, e.2.shape)) = wholeShape description :=
    congrArg collectionShape (map_made types fun _ _ _ => rfl)
  dsimp only at accepted
  rw [whole] at accepted
  split at accepted
  · next validator compiled =>
    obtain ⟨relations, _, accepted⟩ := bind_eq_ok.mp accepted
    obtain rfl := pure_eq_ok.mp accepted
    exact compiled
  · exact absurd accepted throw_ne_ok

theorem register_validator {t grown : ObjectType} {e : Edge} (done : t.register e = .ok grown) :
    grown.validator = t.validator := by
  simp only [ObjectType.register] at done
  split at done
  · cases done
  · split at done
    · cases done
    · obtain rfl := Except.ok.inj done
      rfl

/-- The types of a schema are the described ones, with validators of their shapes. -/
theorem type?_described (accepted : ofDescription description = .ok schema) (name : String) :
    (description.get? name = none ∧ schema.type? name = none) ∨
      ∃ d t, description.get? name = some d ∧ schema.type? name = some t ∧
        Validator.compile? name d.shape = some t.validator ∧ t.idFields = d.idFields := by
  obtain ⟨made, _, types, _, _, connected⟩ := ofDescription_eq_ok accepted
  rcases Table.lookup_mapM types name with ⟨undescribed, none⟩ | ⟨d, t, described, makes, found⟩
  · rcases Table.lookup_mapM connected name with ⟨_, missing⟩ | ⟨_, _, found, _⟩
    · exact .inl ⟨undescribed, missing⟩
    · cases none.symm.trans found
  · rcases Table.lookup_mapM connected name with ⟨missing, _⟩ | ⟨u, joined, again, connects, here⟩
    · cases found.symm.trans missing
    · obtain rfl := Option.some.inj (found.symm.trans again)
      obtain ⟨validator, compiled, rfl⟩ := makeType_blank makes
      have kept : joined.validator = validator :=
        foldlM_invariant (fun u : ObjectType => u.validator = validator)
          (fun _ _ _ same step => (register_validator step).trans same) rfl connects
      exact .inr ⟨d, joined, described, here, kept ▸ compiled, (connect_keeps connects).2⟩

end Schema

theorem TypeDescription.not_refers_shape {d : TypeDescription}
    (plain : ∀ e ∈ d.fields.entries, Shape.IsPlain e.2) (reference : String) :
    ¬ Refers d.shape reference := by
  intro refers
  obtain ⟨e, inside, refers⟩ := refers_shape refers
  exact (plain e inside).not_refers reference refers

/-- The schemas of all fields are in the vocabulary. -/
def Description.IsPlain (description : Description) : Prop :=
  ∀ e ∈ description.entries, ∀ f ∈ e.2.fields.entries, Shape.IsPlain f.2

instance (description : Description) : Decidable description.IsPlain :=
  inferInstanceAs (Decidable (∀ e ∈ description.entries, ∀ f ∈ e.2.fields.entries,
    Shape.IsPlain f.2))

namespace Description.IsPlain

variable {description : Description} (plain : description.IsPlain)
include plain

theorem shape {name : String} {d : TypeDescription} (entry : (name, d) ∈ description.entries)
    (reference : String) : ¬ Refers d.shape reference :=
  TypeDescription.not_refers_shape (plain _ entry) reference

theorem wholeShape (reference : String) : ¬ Refers (Schema.wholeShape description) reference := by
  intro refers
  obtain ⟨e, member, f, inside, refers⟩ := refers_wholeShape refers
  exact (plain e member f inside).not_refers reference refers

end Description.IsPlain

/-- A way to follow references where there are none. -/
def Shape.unfollowed (_ : String) (_ : Json) : Option Failure := none

/-- A validator of a schema that refers to nothing judges by what is read from the schema. -/
theorem Validator.judge_of_not_refers {name : String} {schema : Json} {v : Validator}
    (compiled : compile? name schema = some v) (none : ∀ r, ¬ Refers schema r) (value : Json) :
    v.judge value = v.shape.judge unfollowed value := by
  obtain ⟨_, _, read⟩ := compile?_eq_some compiled
  refine judge_of_references (List.eq_nil_iff_forall_not_mem.mpr fun r inside => ?_) _ value
  exact none r (refers_of_read? read inside)

namespace Schema

variable {description : Description} {schema : Schema}

theorem accepts_iff {data : Json} :
    schema.accepts data = true ↔ schema.validator.judge data = none :=
  Option.isNone_iff_eq_none

theorem check_iff {data : Json} : schema.check data = .ok () ↔ schema.accepts data = true := by
  rw [accepts_iff, check]
  cases schema.validator.judge data <;> simp

/-- A collection is valid exactly if it is an object of lists, each under the name of a type, and if
all objects in a list are valid for the type. -/
theorem accepts_iff_types_accept (accepted : ofDescription description = .ok schema)
    (plain : description.IsPlain) (data : Json) :
    (schema.accepts data = true ↔ ∃ members, data = .obj members ∧ ∀ m ∈ members,
      ∃ type items, schema.type? m.1 = some type ∧ m.2 = .arr items ∧
        ∀ item ∈ items, type.accepts item = true) ∧
    (schema.check data = .ok () ↔ schema.accepts data = true) := by
  refine ⟨?_, check_iff⟩
  have compiled := ofDescription_validator accepted
  obtain ⟨_, _, read⟩ := Validator.compile?_eq_some compiled
  rw [read_wholeShape] at read
  obtain ⟨fields, lists, shape⟩ := Option.map_eq_some_iff.mp read
  have listed := lookup_wholeShape lists
  have judged := Validator.judge_of_not_refers compiled plain.wholeShape data
  rw [accepts_iff, judged, ← shape, judge_collection]
  refine exists_congr fun members => and_congr_right fun _ => forall₂_congr fun m _ => ?_
  rcases type?_described accepted m.1 with
    ⟨undescribed, none⟩ | ⟨d, t, described, found, made, _⟩
  · simp [listed, undescribed, none]
  · obtain ⟨_, _, readType⟩ := Validator.compile?_eq_some made
    have alone := plain.shape (Table.get?_eq_some.mp described)
    have each (item : Json) : t.accepts item = true ↔
        t.validator.shape.judge unfollowed item = Option.none := by
      rw [← Validator.judge_of_not_refers made alone item]
      exact Option.isNone_iff_eq_none
    simp [listed, described, found, readType, judge_list, each]

/-- A folder without a folder above it, in a collection that lists no files. A list of things is not
part of any collection, be it empty. -/
theorem accepts_iff_types_accept_drive : ∃ schema folder, ofDescription drive = .ok schema ∧
    drive.IsPlain ∧ schema.type? "folder" = some folder ∧
    folder.accepts (.obj [("above", .null), ("cover", .str "c"), ("disk", .str "d"),
      ("path", .str "p")]) = true ∧
    schema.check (.obj [("file", .arr []), ("folder", .arr [.obj [("above", .null),
      ("cover", .str "c"), ("disk", .str "d"), ("path", .str "p")]])]) = .ok () ∧
    schema.check (.obj [("file", .arr []), ("things", .arr [])]) ≠ .ok () := by
  have run : (do
      let schema ← (ofDescription drive).toOption
      let file ← schema.type? "file"
      let folder ← schema.type? "folder"
      pure (file.name, schema.type? "things" |>.isNone,
        folder.accepts (.obj [("above", .null), ("cover", .str "c"), ("disk", .str "d"),
          ("path", .str "p")]))) = some ("file", true, true) := by
    decide +kernel
  have plain : drive.IsPlain := by decide +kernel
  simp only [Option.bind_eq_bind, Option.pure_def, Option.bind_eq_some_iff, toOption_eq_some,
    Option.some.injEq, Prod.mk.injEq, Option.isNone_iff_eq_none] at run
  obtain ⟨schema, accepted, file, foundFile, folder, foundFolder, _, none, valid⟩ := run
  obtain ⟨whole, checked⟩ := accepts_iff_types_accept accepted plain
    (.obj [("file", .arr []), ("folder", .arr [.obj [("above", .null), ("cover", .str "c"),
      ("disk", .str "d"), ("path", .str "p")]])])
  obtain ⟨other, checkedOther⟩ := accepts_iff_types_accept accepted plain
    (.obj [("file", .arr []), ("things", .arr [])])
  refine ⟨schema, folder, accepted, plain, foundFolder, valid, checked.mpr (whole.mpr ?_), ?_⟩
  · refine ⟨_, rfl, ?_⟩
    simp [foundFile, foundFolder, valid]
  · intro passed
    obtain ⟨members, same, each⟩ := other.mp (checkedOther.mp passed)
    obtain rfl := Json.obj.inj same
    obtain ⟨type, _, found, _⟩ := each ("things", .arr []) (by simp)
    cases none.symm.trans found

end Schema

end ObjectQuery

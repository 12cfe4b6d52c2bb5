import ObjectQuery.Proofs.Schema.Composition
import ObjectQuery.Proofs.Schema.Graph
import ObjectQuery.Proofs.Schema.Validity
import ObjectQuery.Proofs.Shape.Understanding

/-! Schemas of fields as parts of larger documents. Each of them compiles for itself, but a
reference in it is followed from the root of the document that is compiled. So what is put together
compiles if nothing refers to anything, and otherwise only if all references hold in the larger
document too. That is said of descriptions in which everything that is taken for a schema keeps to
the keywords that the validator knows. -/
namespace ObjectQuery

open Outcome Shape Linkage

section Parts

variable {d : TypeDescription} {description : Description}

theorem isSchema_fieldShape {field : String} {s : Json} (formed : Form.isSchema s = true) :
    Form.isSchema (d.fieldShape field s) = true := by
  rw [TypeDescription.fieldShape_eq]
  split
  · exact formed
  · have null : Form.isSchema (.obj [("type", .str "null")]) = true := by decide +kernel
    show (Form.isSchema (.obj [("type", .str "null")]) && (Form.isSchema s && true) && true) = true
    rw [null, formed]
    rfl

theorem isSchema_shape (formed : ∀ e ∈ d.fields.entries, Form.isSchema e.2 = true) :
    Form.isSchema d.shape = true := by
  rw [TypeDescription.shape_eq, Form.isSchema, Form.areContents_iff]
  simp only [List.forall_mem_cons, List.not_mem_nil, false_imp_iff, implies_true, and_true]
  refine ⟨by decide, ?_, ?_, by decide +kernel⟩
  · refine Form.areFields_iff.mpr fun m member => ?_
    obtain ⟨e, inside, rfl⟩ := List.mem_map.mp (Json.mem_of_placed member)
    exact isSchema_fieldShape (formed e inside)
  · show ((d.fields.keys.map Json.str).mapM Json.text?).any (fun names => names.Nodup) = true
    rw [mapM_text]
    exact decide_eq_true d.fields.distinct

theorem isSchema_wholeShape
    (formed : ∀ e ∈ description.entries, Form.isSchema e.2.shape = true) :
    Form.isSchema (Schema.wholeShape description) = true := by
  rw [Schema.wholeShape_eq, Form.isSchema, Form.areContents_iff]
  simp only [List.forall_mem_cons, List.not_mem_nil, false_imp_iff, implies_true, and_true]
  refine ⟨by decide, ?_, by decide +kernel⟩
  refine Form.areFields_iff.mpr fun m member => ?_
  obtain ⟨e, inside, rfl⟩ := List.mem_map.mp (Json.mem_of_placed member)
  have list : Form.isContent "type" (.str "array") = true := by decide +kernel
  show (Form.isSchema e.2.shape && (Form.isContent "type" (.str "array") && true)) = true
  rw [list, formed e inside]
  rfl

theorem read_fieldShape {field : String} {s : Json} (readable : (read? s).isSome = true) :
    (read? (d.fieldShape field s)).isSome = true := by
  rw [TypeDescription.fieldShape_eq]
  split
  · exact readable
  · obtain ⟨shape, read⟩ := Option.isSome_iff_exists.mp readable
    rw [read_nullable read]
    rfl

theorem readable_shape (readable : ∀ e ∈ d.fields.entries, (read? e.2).isSome = true) :
    (read? d.shape).isSome = true := by
  rw [read_shape, Option.isSome_map]
  refine readFields_isSome fun m member => ?_
  obtain ⟨e, inside, rfl⟩ := List.mem_map.mp (Json.mem_of_placed member)
  exact read_fieldShape (readable e inside)

theorem readable_wholeShape
    (readable : ∀ e ∈ description.entries, (read? e.2.shape).isSome = true) :
    (read? (Schema.wholeShape description)).isSome = true := by
  rw [read_wholeShape, Option.isSome_map]
  refine readFields_isSome fun m member => ?_
  obtain ⟨e, inside, rfl⟩ := List.mem_map.mp (Json.mem_of_placed member)
  rw [read_listShape, Option.isSome_map]
  exact readable e inside

variable {reference : String}

theorem references_fieldShape {field : String} {s : Json}
    (inside : reference ∈ references (d.fieldShape field s)) : reference ∈ references s := by
  rw [TypeDescription.fieldShape_eq] at inside
  split at inside
  · exact inside
  · have parts : references (.obj [("anyOf", .arr [.obj [("type", .str "null")], s])]) =
        [] ++ (references s ++ []) ++ [] := rfl
    simpa [parts] using inside

theorem references_shape (inside : reference ∈ references d.shape) :
    ∃ e ∈ d.fields.entries, reference ∈ references e.2 := by
  have parts : references d.shape = referencesOfMembers (Json.placed (d.fields.entries.map fun e =>
      (e.1, d.fieldShape e.1 e.2))) ++ [] := by
    rw [TypeDescription.shape_eq]
    rfl
  rw [parts, List.append_nil, referencesOfMembers_eq] at inside
  obtain ⟨m, member, here⟩ := List.mem_flatMap.mp inside
  obtain ⟨e, listed, rfl⟩ := List.mem_map.mp (Json.mem_of_placed member)
  exact ⟨e, listed, references_fieldShape here⟩

theorem references_wholeShape (inside : reference ∈ references (Schema.wholeShape description)) :
    ∃ e ∈ description.entries, reference ∈ references e.2.shape := by
  have parts : references (Schema.wholeShape description) = referencesOfMembers
      (Json.placed (description.entries.map fun e => (e.1, listShape e.2.shape))) ++ [] := by
    rw [Schema.wholeShape_eq]
    rfl
  rw [parts, List.append_nil, referencesOfMembers_eq] at inside
  obtain ⟨m, member, here⟩ := List.mem_flatMap.mp inside
  obtain ⟨e, listed, rfl⟩ := List.mem_map.mp (Json.mem_of_placed member)
  have list : references (listShape e.2.shape) = references e.2.shape ++ [] := rfl
  rw [list, List.append_nil] at here
  exact ⟨e, listed, here⟩

end Parts

/-- In a document that refers to nothing all references resolve. -/
theorem resolves_of_references {document : Json} (formed : Form.isSchema document = true)
    (none : ∀ r, r ∉ references document) : Resolves document := by
  have unmentioned (r : String) : ¬ Mentioned document r := by
    intro mentioned
    induction mentioned with
    | here inside => exact none _ inside
    | onward _ _ _ ih => exact ih
  have unfollowed (r : String) : ¬ Followed document r := by
    intro follows
    induction follows with
    | here read inside =>
      exact none _ (references_of_refers (refers_of_read? read inside) formed)
    | onward _ _ _ _ ih => exact ih
  exact ⟨fun r mentioned => absurd mentioned (unmentioned r),
    fun r follows => absurd follows (unfollowed r)⟩

/-- The validator understands the schemas of the fields, and the shapes that are put together of
them. -/
structure Description.Understood (description : Description) : Prop where
  fields : ∀ e ∈ description.entries, ∀ f ∈ e.2.fields.entries, Linkage.Understood f.2
  types : ∀ e ∈ description.entries, Linkage.Understood e.2.shape
  whole : Linkage.Understood (Schema.wholeShape description)

/-- A description that passes all checks, those of the shapes that are put together set aside. -/
structure Description.Checked (description : Description) : Prop where
  types : ∀ e ∈ description.entries, Schema.checkType e.1 e.2 = .ok ()
  relations : ∀ parent d, (parent, d) ∈ description.entries →
    ∀ child refFields, (child, refFields) ∈ d.children.entries →
      ∃ c, (child, c) ∈ description.entries ∧ refFields ⊆ c.fields.keys ∧
        refFields.length = d.idFields.length

namespace Schema

open Demand

variable {description : Description}

theorem typeDemands_eq (name : String) (d : TypeDescription) : ∃ own : List Demand,
    typeDemands name d = own ++ [⟨(Validator.compile? name d.shape).isSome, .invalidShape name⟩] ∧
    Enforced own (checkType name d) :=
  ⟨_, rfl, checkType_enforced name d⟩

theorem compiles_of_checkType {name : String} {d : TypeDescription}
    (checked : checkType name d = .ok ()) {e : String × Json} (member : e ∈ d.fields.entries) :
    (Validator.compile? (name ++ "." ++ e.1) e.2).isSome = true := by
  have met := (checkType_enforced name d).ok_iff.mp ⟨(), checked⟩
  exact met ⟨_, _⟩ (List.mem_append_right _ (List.mem_flatMap.mpr
    ⟨e, member, List.mem_singleton.mpr rfl⟩))

/-- Of a checked description nothing is demanded but that the shapes compile. -/
theorem unmet_of_checked (checked : description.Checked) {x : Demand}
    (member : x ∈ demands description) (unmet : x.met = false) :
    (∃ e ∈ description.entries,
      x = ⟨(Validator.compile? e.1 e.2.shape).isSome, .invalidShape e.1⟩) ∨
    x = ⟨(Validator.compile? "schema" (wholeShape description)).isSome,
      .invalidShape "schema"⟩ := by
  rw [demands, List.mem_append, List.mem_append] at member
  rcases member with (inside | whole) | related
  · obtain ⟨e, listed, inside⟩ := List.mem_flatMap.mp inside
    obtain ⟨own, all, enforced⟩ := typeDemands_eq e.1 e.2
    have parts : x ∈ own ++ [⟨(Validator.compile? e.1 e.2.shape).isSome, .invalidShape e.1⟩] :=
      all ▸ inside
    rcases List.mem_append.mp parts with earlier | last
    · have met := enforced.ok_iff.mp ⟨(), checked.types e listed⟩ x earlier
      rw [unmet] at met
      cases met
    · exact .inl ⟨e, listed, List.mem_singleton.mp last⟩
  · exact .inr (List.mem_singleton.mp whole)
  · obtain ⟨e, listed, inside⟩ := List.mem_flatMap.mp related
    obtain ⟨c, declared, inside⟩ := List.mem_flatMap.mp inside
    have met := relationDemands_met.mpr (checked.relations e.1 e.2 listed c.1 c.2 declared) x inside
    rw [unmet] at met
    cases met

theorem formed_of_checked (checked : description.Checked) : ∀ e ∈ description.entries,
    Form.isSchema e.2.shape = true ∧ (read? e.2.shape).isSome = true := by
  intro e listed
  have parts : ∀ f ∈ e.2.fields.entries, Form.isSchema f.2 = true ∧ (read? f.2).isSome = true := by
    intro f member
    obtain ⟨formed, readable, _⟩ :=
      Validator.compile?_iff.mp (compiles_of_checkType (checked.types e listed) member)
    exact ⟨formed, readable⟩
  exact ⟨isSchema_shape fun f member => (parts f member).1,
    readable_shape fun f member => (parts f member).2⟩

/-- What is put together of schemas that compile has the right form, so that it compiles where its
references resolve. -/
theorem compiles_iff_resolves (checked : description.Checked) :
    (∀ e ∈ description.entries,
      ((Validator.compile? e.1 e.2.shape).isSome = true ↔ Resolves e.2.shape)) ∧
    ((Validator.compile? "schema" (wholeShape description)).isSome = true ↔
      Resolves (wholeShape description)) := by
  have formed := formed_of_checked checked
  constructor
  · intro e listed
    obtain ⟨schema, readable⟩ := formed e listed
    rw [Validator.compile?_iff]
    exact ⟨fun all => all.2.2, fun resolves => ⟨schema, readable, resolves⟩⟩
  · have schema := isSchema_wholeShape fun e listed => (formed e listed).1
    have readable := readable_wholeShape fun e listed => (formed e listed).2
    rw [Validator.compile?_iff]
    exact ⟨fun all => all.2.2, fun resolves => ⟨schema, readable, resolves⟩⟩

/-- It is enough to look at the references of each document and at what they lead to. -/
theorem understood_of_known (known : List String)
    (fields : ∀ e ∈ description.entries, ∀ f ∈ e.2.fields.entries, Closed f.2 known)
    (types : ∀ e ∈ description.entries, Closed e.2.shape known)
    (whole : Closed (wholeShape description) known) : description.Understood :=
  ⟨fun e listed f member => understood_of_closed known (fields e listed f member),
    fun e listed => understood_of_closed known (types e listed), understood_of_closed known whole⟩

/-- A relation is declared to a described type, with fields of it. -/
theorem relations_of_met (met : ∀ e ∈ description.entries, ∀ c ∈ e.2.children.entries,
    ∀ x ∈ relationDemands description e.2 ⟨e.1, c.1, c.2⟩, x.met = true) :
    ∀ parent d, (parent, d) ∈ description.entries →
      ∀ child refFields, (child, refFields) ∈ d.children.entries →
        ∃ c, (child, c) ∈ description.entries ∧ refFields ⊆ c.fields.keys ∧
          refFields.length = d.idFields.length := fun _ _ described _ _ declared =>
  relationDemands_met.mp (met _ described _ declared)

/-- A description that is understood and passes all other checks is accepted exactly if in each of
the documents that are put together of it all references in use lead to schemas. So it is where no
field schema refers to anything. In any case nothing else can fail than the compilation of the shape
of a type or of the whole. -/
theorem composed_shapes_compile_iff (understood : description.Understood)
    (checked : description.Checked) :
    ((∃ schema, ofDescription description = .ok schema) ↔
      (∀ e ∈ description.entries, ∀ r, Followed e.2.shape r → Linkage.Leads e.2.shape r) ∧
      ∀ r, Followed (wholeShape description) r → Linkage.Leads (wholeShape description) r) ∧
    ((∀ e ∈ description.entries, ∀ f ∈ e.2.fields.entries, references f.2 = []) →
      ∃ schema, ofDescription description = .ok schema) ∧
    ∀ fault, ofDescription description = .error fault →
      fault = .invalidShape "schema" ∨ ∃ name ∈ description.keys, fault = .invalidShape name := by
  have enforced := ofDescription_enforced description
  obtain ⟨types, whole⟩ := compiles_iff_resolves checked
  have wholeLeads := understood.whole.resolves_iff
  have typeLeads : ∀ e ∈ description.entries, Resolves e.2.shape ↔
      ∀ r, Followed e.2.shape r → Linkage.Leads e.2.shape r := fun e listed =>
    (understood.types e listed).resolves_iff
  have accepted : (∃ schema, ofDescription description = .ok schema) ↔
      (∀ e ∈ description.entries, ∀ r, Followed e.2.shape r → Linkage.Leads e.2.shape r) ∧
      ∀ r, Followed (wholeShape description) r → Linkage.Leads (wholeShape description) r := by
    rw [enforced.ok_iff, ← wholeLeads]
    constructor
    · intro met
      have valid := demands_met.mp met
      refine ⟨fun e listed => (typeLeads e listed).mp ?_, whole.mp valid.shape⟩
      exact (types e listed).mp (valid.types e.1 e.2 listed).shape
    · rintro ⟨leadTypes, resolveWhole⟩ x member
      by_contra unmet
      rcases unmet_of_checked checked member (by simpa using unmet) with ⟨e, listed, rfl⟩ | rfl
      · exact unmet ((types e listed).mpr ((typeLeads e listed).mpr (leadTypes e listed)))
      · exact unmet (whole.mpr resolveWhole)
  refine ⟨accepted, fun none => accepted.mpr ?_, fun fault failed => ?_⟩
  · have formed : ∀ e ∈ description.entries, Form.isSchema e.2.shape = true := fun e listed =>
      (formed_of_checked checked e listed).1
    have nothing : ∀ e ∈ description.entries, ∀ r, r ∉ references e.2.shape := by
      intro e listed r inside
      obtain ⟨f, member, here⟩ := references_shape inside
      simp [none e listed f member] at here
    constructor
    · intro e listed
      exact (resolves_of_references (formed e listed) (nothing e listed)).leading
    · refine (resolves_of_references (isSchema_wholeShape formed) fun r inside => ?_).leading
      obtain ⟨e, listed, here⟩ := references_wholeShape inside
      exact nothing e listed r here
  · obtain ⟨before, violated, after, split, _, unmet, rfl⟩ :=
      fault?_eq_some.mp (enforced.error_iff.mp failed)
    have member : violated ∈ demands description := by simp [split]
    rcases unmet_of_checked checked member unmet with ⟨e, listed, rfl⟩ | rfl
    · exact .inr ⟨e.1, List.mem_map.mpr ⟨e, listed, rfl⟩, rfl⟩
    · exact .inl rfl

/-- Notes with notes in them. The schema of the inner ones refers to the root of the document. -/
def threads : Description :=
  .ofList [("note", Report.describe
    [("id", Report.text), ("notes", Report.listOf (.obj [("$ref", .str "#")]))]
    ["id"] ["id"] [("note", ["id"])])]

/-- The root is there in every document, and is read as a schema in each. -/
theorem composed_shapes_compile_iff_threads : threads.Understood ∧ threads.Checked ∧
    (∃ schema, ofDescription threads = .ok schema) ∧
    (∀ e ∈ threads.entries, ∀ r, Followed e.2.shape r → Linkage.Leads e.2.shape r) ∧
    ∀ r, Followed (wholeShape threads) r → Linkage.Leads (wholeShape threads) r := by
  have understood : threads.Understood :=
    understood_of_known ["#"] (by decide +kernel) (by decide +kernel) (by decide +kernel)
  have checked : threads.Checked := ⟨by decide +kernel, relations_of_met (by decide +kernel)⟩
  have accepted : ((ofDescription threads).toOption.isSome) = true := by decide +kernel
  obtain ⟨schema, found⟩ := Option.isSome_iff_exists.mp accepted
  have built : ∃ schema, ofDescription threads = .ok schema := ⟨schema, toOption_eq_some.mp found⟩
  obtain ⟨types, whole⟩ := (composed_shapes_compile_iff understood checked).1.mp built
  exact ⟨understood, checked, built, types, whole⟩

/-- Notes with a schema for their addresses that refers to a definition within it. -/
def addressed : Description :=
  .ofList [("note", Report.describe
    [("id", .obj [("$ref", .str "#/definitions/address"),
      ("definitions", .obj [("address", Report.text)])])]
    ["id"] ["id"] [])]

/-- The definition is not to be found from the root of the shape of notes, where the schema of the
address is but a part. -/
theorem local_definition_does_not_compile : addressed.Understood ∧ addressed.Checked ∧
    (∀ e ∈ addressed.entries, ∀ f ∈ e.2.fields.entries,
      (Validator.compile? (e.1 ++ "." ++ f.1) f.2).isSome = true) ∧
    ofDescription addressed = .error (.invalidShape "note") := by
  have understood : addressed.Understood := understood_of_known ["#/definitions/address"]
    (by decide +kernel) (by decide +kernel) (by decide +kernel)
  have checked : addressed.Checked := ⟨by decide +kernel, relations_of_met (by decide +kernel)⟩
  have first : Demand.fault? (demands addressed) = some (.invalidShape "note") := by
    decide +kernel
  refine ⟨understood, checked, fun e listed f member => ?_, ?_⟩
  · exact compiles_of_checkType (checked.types e listed) member
  · exact (ofDescription_enforced addressed).error_iff.mpr first

end Schema

end ObjectQuery

import ObjectQuery.Description
import ObjectQuery.Proofs.Json.Parsing
import ObjectQuery.Proofs.Outcome

/-! Descriptions as JSON text. A description that is written is read back from its text, with its
types, fields and children in the order in which it has them, as long as the schemas of its fields
have no numbers but integers and are not nested too deep to be read. -/
namespace ObjectQuery

open Outcome Json

namespace NameSet

theorem place_last {name : String} {l : List String} (before : ∀ n ∈ l, n < name) :
    place name l = l ++ [name] := by
  induction l with
  | nil => rfl
  | cons n rest ih =>
    obtain ⟨first, others⟩ := List.forall_mem_cons.mp before
    have behind : ¬ name < n := fun again => String.lt_irrefl n (String.lt_trans first again)
    have other : n ≠ name := by
      rintro rfl
      exact String.lt_irrefl n first
    rw [place, if_neg behind, if_neg other, ih others, List.cons_append]

/-- A set is what its names are put together to. -/
theorem ofList_names (s : NameSet) : ofList s.names = s := by
  have filled : ∀ (rest : List String) (t : NameSet), (t.names ++ rest).Pairwise (· < ·) →
      (rest.foldl insert t).names = t.names ++ rest := by
    intro rest
    induction rest with
    | nil => simp
    | cons name rest ih =>
      intro t sorted
      have before : ∀ n ∈ t.names, n < name := fun n member =>
        (List.pairwise_append.mp sorted).2.2 n member name List.mem_cons_self
      have placed : (t.insert name).names = t.names ++ [name] := place_last before
      rw [List.foldl_cons, ih _ (by simpa [placed] using sorted), placed]
      simp
  apply NameSet.ext
  exact filled s.names empty (by simpa [empty] using s.sorted)

end NameSet

theorem Table.ofList_entries {α : Type} (t : Table α) : ofList t.entries = t :=
  Table.ext (entries_ofList t.distinct)

namespace Document

theorem texts?_ofJson (names : List String) : (ofJson (.texts names)).texts? = some names := by
  have read : ((names.map Json.str).map ofJson).mapM text? = some names := by
    rw [List.map_map, List.mapM_map]
    apply mapM_self
    intro name _
    rfl
  simpa [Json.texts, ofJson, ofItems_eq, texts?, items?] using read

theorem members?_ofJson (members : List (String × Json)) :
    (ofJson (.obj members)).members? = some (members.map fun m => (m.1, ofJson m.2)) := by
  rw [ofJson, members?, ofMembers_eq]

end Document

/-- A value that can be read from its text within three others: its numbers are integers in the
range of integers, its objects have their members in the order of their names, and it leaves three
of the 127 levels that are read. -/
structure Json.Legible (v : Json) : Prop where
  exact : ∀ w ∈ v :: v.within, w.Exact
  ordered : ∀ w ∈ v :: v.within, w.Ordered
  fits : v.depth + 3 ≤ Document.Reader.maxDepth

namespace TypeDescription

variable {d : TypeDescription}

theorem schemas?_ofJson {fields : Table Json}
    (ordered : ∀ e ∈ fields.entries, ∀ w ∈ e.2 :: e.2.within, w.Ordered) :
    schemas? (Document.ofJson (.obj fields.entries)) = some fields := by
  have read : (fields.entries.map fun m => (m.1, Document.ofJson m.2)).mapM
      (fun m => m.2.json?.map fun j => (m.1, j)) = some fields.entries := by
    rw [List.mapM_map]
    apply mapM_self
    intro e member
    simp [Document.json?_ofJson e.2 (ordered e member)]
  simp [schemas?, Document.members?_ofJson, read, Table.ofList_entries]

theorem children?_ofJson (children : Table (List String)) :
    children? (Document.ofJson (.obj (children.map Json.texts).entries)) = some children := by
  have read : ((children.map Json.texts).entries.map fun m => (m.1, Document.ofJson m.2)).mapM
      (fun m => m.2.texts?.map fun l => (m.1, l)) = some children.entries := by
    rw [Table.map, List.map_map, List.mapM_map]
    apply mapM_self
    intro e _
    simp [Document.texts?_ofJson]
  simp [children?, Document.members?_ofJson, read, Table.ofList_entries]

theorem Draft.add_part {draft next : Draft} {part : Part} {v : Document}
    (fresh : draft.has part = false) (read : draft.set? part v = some next) :
    draft.add part.name v = .ok next := by
  have known : Part.ofName? part.name = some part := by cases part <;> decide
  simp [add, known, fresh, read]

/-- The parts of a description are read one after the other, each for the first time. -/
theorem ofDocument_json
    (ordered : ∀ e ∈ d.fields.entries, ∀ w ∈ e.2 :: e.2.within, w.Ordered) :
    ofDocument true (Document.ofJson d.json) = .ok d := by
  have fields : Draft.blank.add Part.fields.name (Document.ofJson (.obj d.fields.entries)) =
      .ok ⟨some d.fields, none, none, none⟩ := by
    apply Draft.add_part rfl
    rw [Draft.set?, schemas?_ofJson ordered]
    rfl
  have required : Draft.add ⟨some d.fields, none, none, none⟩ Part.required.name
      (Document.ofJson (.texts d.required.names)) =
        .ok ⟨some d.fields, some d.required, none, none⟩ := by
    apply Draft.add_part rfl
    rw [Draft.set?, Document.texts?_ofJson, Option.map_some, NameSet.ofList_names]
  have idFields : Draft.add ⟨some d.fields, some d.required, none, none⟩ Part.idFields.name
      (Document.ofJson (.texts d.idFields)) =
        .ok ⟨some d.fields, some d.required, some d.idFields, none⟩ := by
    apply Draft.add_part rfl
    rw [Draft.set?, Document.texts?_ofJson]
    rfl
  have children : Draft.add ⟨some d.fields, some d.required, some d.idFields, none⟩
      Part.children.name (Document.ofJson (.obj (d.children.map Json.texts).entries)) =
        .ok ⟨some d.fields, some d.required, some d.idFields, some d.children⟩ := by
    apply Draft.add_part rfl
    rw [Draft.set?, children?_ofJson]
    rfl
  have drafted : [(Part.fields.name, Document.ofJson (.obj d.fields.entries)),
      (Part.required.name, Document.ofJson (.texts d.required.names)),
      (Part.idFields.name, Document.ofJson (.texts d.idFields)),
      (Part.children.name, Document.ofJson (.obj (d.children.map Json.texts).entries))].foldlM
        (fun (draft : Draft) m => draft.add m.1 m.2) .blank =
      .ok ⟨some d.fields, some d.required, some d.idFields, some d.children⟩ := by
    simp only [List.foldlM_cons, List.foldlM_nil, bind_eq_ok, pure_eq_ok]
    exact ⟨_, fields, _, required, _, idFields, _, children, rfl⟩
  simp only [json, Document.ofJson, Document.ofMembers, ofDocument, ofMembers]
  exact bind_eq_ok.mpr ⟨_, drafted, rfl⟩

theorem exact_texts (names : List String) :
    ∀ w ∈ Json.texts names :: (Json.texts names).within, w.Exact := by
  refine forall_within_arr.mpr ⟨trivial, fun v inside => ?_⟩
  obtain ⟨name, _, rfl⟩ := List.mem_map.mp inside
  simp [within, Exact]

theorem depth_texts_le (names : List String) : (Json.texts names).depth ≤ 1 := by
  have flat : depthItems (names.map Json.str) ≤ 0 := by
    refine depthItems_le.mpr fun v inside => ?_
    obtain ⟨name, _, rfl⟩ := List.mem_map.mp inside
    exact Nat.le_refl 0
  simp only [Json.texts, depth]
  omega

theorem exact_json (exact : ∀ e ∈ d.fields.entries, ∀ w ∈ e.2 :: e.2.within, w.Exact) :
    ∀ w ∈ d.json :: d.json.within, w.Exact := by
  refine forall_within_obj.mpr ⟨trivial, fun m inside => ?_⟩
  simp only [List.mem_cons, List.not_mem_nil, or_false] at inside
  rcases inside with rfl | rfl | rfl | rfl
  · exact forall_within_obj.mpr ⟨trivial, exact⟩
  · exact exact_texts _
  · exact exact_texts _
  · refine forall_within_obj.mpr ⟨trivial, fun e inside => ?_⟩
    obtain ⟨child, _, rfl⟩ := List.mem_map.mp inside
    exact exact_texts child.2

/-- Around the schema of a field are the table of the fields and the parts of the type. -/
theorem depth_json_le {n : Nat} (positive : 0 < n)
    (fits : ∀ e ∈ d.fields.entries, e.2.depth ≤ n) : d.json.depth ≤ n + 2 := by
  rw [json, depth, Nat.add_le_add_iff_right (n := 1)]
  refine depthMembers_le.mpr fun m inside => ?_
  simp only [List.mem_cons, List.not_mem_nil, or_false] at inside
  rcases inside with rfl | rfl | rfl | rfl
  · exact Nat.succ_le_succ (depthMembers_le.mpr fits)
  · exact (depth_texts_le _).trans (by omega)
  · exact (depth_texts_le _).trans (by omega)
  · refine Nat.succ_le_succ (depthMembers_le.mpr fun e inside => ?_)
    obtain ⟨child, _, rfl⟩ := List.mem_map.mp inside
    exact (depth_texts_le child.2).trans positive

end TypeDescription

namespace Description

variable {d : Description}

theorem ofDocument_json
    (ordered : ∀ t ∈ d.values, ∀ e ∈ t.fields.entries, ∀ w ∈ e.2 :: e.2.within, w.Ordered) :
    ofDocument true (Document.ofJson d.json) = .ok d := by
  have each : ((d.map TypeDescription.json).entries.map fun m => (m.1, Document.ofJson m.2)).mapM
      (fun m => do pure (m.1, ← TypeDescription.ofDocument true m.2)) =
        (.ok d.entries : Except DescriptionFault (List (String × TypeDescription))) := by
    rw [Table.map, List.map_map, List.mapM_map]
    apply mapM_self
    intro e member
    have read := TypeDescription.ofDocument_json (ordered e.2 (List.mem_map_of_mem member))
    simp only [Function.comp_apply, read]
    rfl
  rw [json, Document.ofJson, ofDocument, ofMembers, Document.ofMembers_eq]
  refine bind_eq_ok.mpr ⟨_, each, ?_⟩
  rw [if_pos rfl, Table.ofList_entries]

theorem ofJsonText_json (legible : ∀ t ∈ d.values, ∀ s ∈ t.fields.values, s.Legible) :
    ofJsonText d.json.compact = .ok d := by
  have member {t : TypeDescription} {e : String × Json} (inside : e ∈ t.fields.entries) :
      e.2 ∈ t.fields.values := List.mem_map_of_mem inside
  have exact : ∀ w ∈ d.json :: d.json.within, w.Exact := by
    refine forall_within_obj.mpr ⟨trivial, fun m inside => ?_⟩
    obtain ⟨e, own, rfl⟩ := List.mem_map.mp inside
    apply TypeDescription.exact_json
    exact fun f inner => (legible e.2 (List.mem_map_of_mem own) f.2 (member inner)).exact
  have fits : d.json.depth ≤ Document.Reader.maxDepth := by
    have types : depthMembers (d.map TypeDescription.json).entries ≤ 126 := by
      refine depthMembers_le.mpr fun m inside => ?_
      obtain ⟨e, own, rfl⟩ := List.mem_map.mp inside
      apply TypeDescription.depth_json_le (by omega)
      intro f inner
      have fits := (legible e.2 (List.mem_map_of_mem own) f.2 (member inner)).fits
      simp only [Document.Reader.maxDepth] at fits
      omega
    simp only [json, depth, Document.Reader.maxDepth]
    omega
  have read := ofDocument_json fun t own e inner => (legible t own e.2 (member inner)).ordered
  rw [ofJsonText, Document.ofJsonText_compact exact fits]
  simp only [read]
  rfl

/-- A description is read back from its JSON text with all its tables in the order in which they
were, and is then written as the same text. -/
theorem text_reads_back_as_described (d : Description)
    (legible : ∀ t ∈ d.values, ∀ s ∈ t.fields.values, s.Legible) :
    ∃ e, ofJsonText d.json.line.toList = .ok e ∧ e = d ∧ e.json.line = d.json.line := by
  refine ⟨d, ?_, rfl, rfl⟩
  rw [Json.line, String.toList_ofList]
  exact ofJsonText_json legible

/-- The least and the greatest integer, a list in an object in a list, a name with a line break and
one that is no ASCII, with the types and the fields not in the order of their names. -/
theorem text_reads_back_as_described_measures : ∃ d : Description,
    (∀ t ∈ d.values, ∀ s ∈ t.fields.values, s.Legible) ∧ d.keys = ["ref", "dé\n"] ∧
    d.json.line =
      "\x7b\"ref\":\x7b\"field_json_schemas\":\x7b\"name\":\x7b\"type\":\"string\"\x7d," ++
      "\"count\":\x7b\"enum\":[-9223372036854775808,\x7b\"\":[18446744073709551615,null]\x7d]" ++
      "\x7d\x7d,\"required_fields\":[\"count\",\"name\"],\"id_fields\":[\"name\"]," ++
      "\"children\":\x7b\"dé\\n\":[\"a\"]\x7d\x7d,\"dé\\n\":\x7b\"field_json_schemas\":" ++
      "\x7b\x7d,\"required_fields\":[],\"id_fields\":[],\"children\":\x7b\x7d\x7d\x7d" ∧
    ∃ e, ofJsonText d.json.line.toList = .ok e ∧ e = d ∧ e.json.line = d.json.line := by
  let name : Json := .obj [("type", .str "string")]
  let count : Json := .obj [("enum", .arr [.num (.int (-9223372036854775808)),
    .obj [("", .arr [.num (.int 18446744073709551615), .null])]])]
  let ref : TypeDescription := ⟨.ofList [("name", name), ("count", count)],
    .ofList ["name", "count"], ["name"], .ofList [("dé\n", ["a"])]⟩
  let d : Description := .ofList [("ref", ref), ("dé\n", .empty)]
  have names : name.Legible :=
    ⟨by simp [name, within, withinMembers, Exact], by simp [name, within, withinMembers, Ordered],
      by decide⟩
  have counts : count.Legible :=
    ⟨by simp [count, within, withinItems, withinMembers, Exact],
      by simp [count, within, withinItems, withinMembers, Ordered], by decide⟩
  have types : d.values = [ref, .empty] := rfl
  have fields : ref.fields.values = [name, count] := rfl
  have bare : TypeDescription.empty.fields.values = [] := rfl
  have legible : ∀ t ∈ d.values, ∀ s ∈ t.fields.values, s.Legible := by
    simp [types, fields, bare, names, counts]
  exact ⟨d, legible, by decide +kernel, by decide +kernel, text_reads_back_as_described d legible⟩

end Description

end ObjectQuery

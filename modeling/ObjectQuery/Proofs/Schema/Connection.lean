import ObjectQuery.Proofs.Schema.Accepted

/-! How types come by their relations. Each edge has a serial number of its own, so that no type
refuses an edge at which it stands. A type takes its edges into its list and into the tables of its
children and parents, one after the other. -/
namespace ObjectQuery

open Outcome

/-- The end at which a step over the relation starts. -/
def Relation.near (r : Relation) (down : Bool) : String := if down then r.parent else r.child

/-- The end at which a step over the relation arrives. -/
def Relation.far (r : Relation) (down : Bool) : String := if down then r.child else r.parent

namespace ObjectType

/-- The type with one more edge. -/
def attach (t : ObjectType) (e : Edge) : ObjectType :=
  { t with
    edges := t.edges ++ [e]
    children := if e.relation.parent = t.name then t.children.insert e.relation.child e
      else t.children
    parents := if e.relation.child = t.name then t.parents.insert e.relation.parent e
      else t.parents }

/-- The type with an edge, if it stands at the edge. -/
def join (t : ObjectType) (e : Edge) : ObjectType :=
  if t.isEndpoint e.relation then t.attach e else t

def joined (t : ObjectType) (edges : List Edge) : ObjectType := edges.foldl join t

theorem isEndpoint_iff {t : ObjectType} {r : Relation} :
    t.isEndpoint r = true ↔ r.parent = t.name ∨ r.child = t.name := by
  simp [isEndpoint]

theorem register_eq_attach {t : ObjectType} {e : Edge} (stands : t.isEndpoint e.relation = true)
    (new : ∀ known ∈ t.edges, known.serial ≠ e.serial) : t.register e = .ok (t.attach e) := by
  have unknown : t.edges.any (·.serial == e.serial) = false := by simpa using new
  simp [register, stands, unknown, attach]

theorem related_attach (t : ObjectType) (e : Edge) (down : Bool) :
    (t.attach e).related down = if e.relation.near down = t.name
      then (t.related down).insert (e.relation.far down) e else t.related down := by
  cases down <;> rfl

@[simp] theorem joined_nil (t : ObjectType) : t.joined [] = t := rfl

@[simp] theorem joined_cons (t : ObjectType) (e : Edge) (edges : List Edge) :
    t.joined (e :: edges) = (t.join e).joined edges := rfl

theorem joined_snoc (t : ObjectType) (edges : List Edge) (e : Edge) :
    t.joined (edges ++ [e]) = (t.joined edges).join e := List.foldl_append

theorem join_keeps (t : ObjectType) (e : Edge) :
    (t.join e).name = t.name ∧ (t.join e).idFields = t.idFields := by
  unfold join
  split <;> exact ⟨rfl, rfl⟩

theorem joined_keeps (t : ObjectType) (edges : List Edge) :
    (t.joined edges).name = t.name ∧ (t.joined edges).idFields = t.idFields := by
  induction edges generalizing t with
  | nil => exact ⟨rfl, rfl⟩
  | cons e edges ih =>
    exact ⟨(ih (t.join e)).1.trans (t.join_keeps e).1, (ih (t.join e)).2.trans (t.join_keeps e).2⟩

theorem edges_joined (t : ObjectType) (edges : List Edge) :
    (t.joined edges).edges = t.edges ++ edges.filter fun e => t.isEndpoint e.relation := by
  induction edges generalizing t with
  | nil => simp
  | cons e edges ih =>
    have same (r : Relation) : (t.join e).isEndpoint r = t.isEndpoint r := by
      simp [isEndpoint, (t.join_keeps e).1]
    rw [joined_cons, ih]
    simp only [same]
    by_cases stands : t.isEndpoint e.relation = true
    · simp [join, stands, attach]
    · simp [join, stands]

/-- In either direction the table of a type holds its edges by the names at their other ends. -/
theorem related_joined (t : ObjectType) (edges : List Edge) (down : Bool) :
    (t.joined edges).related down = (edges.filter fun e => e.relation.near down = t.name).foldl
      (fun table e => table.insert (e.relation.far down) e) (t.related down) := by
  induction edges generalizing t with
  | nil => rfl
  | cons e edges ih =>
    rw [joined_cons, ih, (t.join_keeps e).1]
    by_cases starts : e.relation.near down = t.name
    · have stands : t.isEndpoint e.relation = true := by
        cases down <;> simp_all [isEndpoint, Relation.near]
      simp [join, stands, related_attach, starts]
    · have same : (t.join e).related down = t.related down := by
        unfold join
        split
        · rw [related_attach, if_neg starts]
        · rfl
      simp [same, starts]

end ObjectType

namespace Schema

theorem connect_eq_joined {t : ObjectType} {edges : List Edge}
    (new : ∀ e ∈ edges, ∀ known ∈ t.edges, known.serial ≠ e.serial)
    (distinct : (edges.map Edge.serial).Nodup) : connect edges t = .ok (t.joined edges) := by
  induction edges generalizing t with
  | nil => rfl
  | cons e edges ih =>
    obtain ⟨fresh, distinct⟩ := List.nodup_cons.mp distinct
    have later : ∀ other ∈ edges, e.serial ≠ other.serial := fun other member same =>
      fresh (List.mem_map.mpr ⟨other, member, same.symm⟩)
    rw [ObjectType.joined_cons, ObjectType.join]
    by_cases stands : t.isEndpoint e.relation = true
    · have attached : connect edges (t.attach e) = .ok ((t.attach e).joined edges) := by
        refine ih (fun other member known inside => ?_) distinct
        rcases List.mem_append.mp inside with earlier | added
        · exact new other (List.mem_cons_of_mem e member) known earlier
        · exact List.mem_singleton.mp added ▸ later other member
      have first := ObjectType.register_eq_attach stands (new e List.mem_cons_self)
      simp only [connect, List.filter_cons, if_pos stands, List.foldlM_cons, first]
      exact attached
    · have skipped := ih (fun other member => new other (List.mem_cons_of_mem e member)) distinct
      simp only [connect, List.filter_cons, if_neg stands]
      exact skipped

theorem number_snoc (relations : List Relation) (r : Relation) :
    number (relations ++ [r]) = number relations ++ [⟨relations.length, r⟩] := by
  simp [number, List.zipIdx_append]

theorem relations_number (relations : List Relation) :
    (number relations).map Edge.relation = relations := by
  simp [number, List.map_map, Function.comp_def]

theorem serials_number (relations : List Relation) :
    (number relations).map Edge.serial = List.range relations.length := by
  simp [number, List.map_map, Function.comp_def, List.range_eq_range']

variable {description : Description}

theorem makeType_blank {name : String} {d : TypeDescription} {type : ObjectType}
    (done : makeType name d = .ok type) : ∃ validator,
      Validator.compile? name d.shape = some validator ∧
      type = ⟨name, d.shape, validator, d.idFields, [], .empty, .empty⟩ := by
  obtain ⟨_, _, made⟩ := bind_eq_ok.mp done
  exact ObjectType.make_eq_ok made

theorem makeRelation_eq_ok {made : List (String × ObjectType)}
    {r : Declared} {relation : Relation} (named : ∀ e ∈ made, e.2.name = e.1)
    (done : makeRelation description made r = .ok relation) :
    relation = ⟨r.parent, r.child, r.refFields⟩ := by
  have name {key : String} {t : ObjectType} (found : made.lookup key = some t) : t.name = key := by
    obtain ⟨front, back, rfl, _⟩ := List.lookup_eq_some_iff.mp found
    exact named (key, t) (by simp)
  unfold makeRelation at done
  split at done
  · next parent child _ foundParent foundChild =>
    split at done
    · cases done
    · unfold Relation.make at done
      split at done
      · rw [← Except.ok.inj done, name foundParent, name foundChild]
      · cases done
  · cases done

/-- The types as a description makes them have no relations yet. -/
theorem made_blank {made : List (String × ObjectType)}
    (types : description.entries.mapM (fun e => do pure (e.1, ← makeType e.1 e.2)) = .ok made) :
    ∀ e ∈ made, e.2.name = e.1 ∧ e.2.edges = [] ∧ ∀ down, e.2.related down = .empty := by
  intro e member
  obtain ⟨entry, _, step⟩ := mem_of_mapM types member
  obtain ⟨type, done, rfl⟩ : ∃ type, makeType entry.1 entry.2 = .ok type ∧
      (entry.1, type) = e := by simpa using step
  obtain ⟨_, _, rfl⟩ := makeType_blank done
  exact ⟨rfl, rfl, fun down => by cases down <;> rfl⟩

/-- What a type has from its description, all types have from the descriptions in their order. -/
theorem map_made {γ : Type} {g : String × ObjectType → γ} {h : String × TypeDescription → γ}
    {made : List (String × ObjectType)}
    (types : description.entries.mapM (fun e => do pure (e.1, ← makeType e.1 e.2)) = .ok made)
    (each : ∀ name d validator,
      g (name, ⟨name, d.shape, validator, d.idFields, [], .empty, .empty⟩) = h (name, d)) :
    made.map g = description.entries.map h := by
  refine map_of_mapM (fun entry _ e step => ?_) types
  obtain ⟨type, done, rfl⟩ : ∃ type, makeType entry.1 entry.2 = .ok type ∧
      (entry.1, type) = e := by simpa using step
  obtain ⟨validator, _, rfl⟩ := makeType_blank done
  exact each entry.1 entry.2 validator

theorem connect_number {made : List (String × ObjectType)}
    (blank : ∀ e ∈ made, e.2.edges = []) (relations : List Relation) :
    made.mapM (fun e => do pure (e.1, ← connect (number relations) e.2)) =
      (.ok (made.map fun e => (e.1, e.2.joined (number relations))) :
        Except SchemaFault (List (String × ObjectType))) := by
  have distinct : ((number relations).map Edge.serial).Nodup := by
    rw [serials_number]
    exact List.nodup_range
  induction made with
  | nil => rfl
  | cons e made ih =>
    have first : connect (number relations) e.2 = .ok (e.2.joined (number relations)) :=
      connect_eq_joined (by simp [blank e List.mem_cons_self]) distinct
    rw [List.mapM_cons, first, ih fun other inside => blank other (List.mem_cons_of_mem e inside)]
    rfl

/-- No connection fails, so that a schema is settled with its relations. -/
theorem ofDescription_eq (description : Description) : ofDescription description = (do
    let made ← description.entries.mapM fun e => do pure (e.1, ← makeType e.1 e.2)
    let shape := collectionShape (made.map fun e => (e.1, e.2.shape))
    let some validator := Validator.compile? "schema" shape | throw (.invalidShape "schema")
    let relations ← (declared description).mapM (makeRelation description made)
    pure ⟨.ofList (made.map fun e => (e.1, e.2.joined (number relations))), number relations,
      shape, validator⟩) := by
  unfold ofDescription
  cases types : description.entries.mapM fun e => do pure (e.1, ← makeType e.1 e.2) with
  | error => rfl
  | ok made =>
    have blank : ∀ e ∈ made, e.2.edges = [] := fun e member => (made_blank types e member).2.1
    dsimp only [bind, Except.bind]
    cases Validator.compile? "schema" (collectionShape (made.map fun e => (e.1, e.2.shape))) with
    | none => rfl
    | some validator =>
      cases (declared description).mapM (makeRelation description made) with
      | error => rfl
      | ok relations =>
        have connected := connect_number blank relations
        dsimp only [bind, Except.bind] at connected ⊢
        rw [connected]

end Schema

end ObjectQuery

import Mathlib.Data.List.Induction
import Mathlib.Data.List.Nodup
import ObjectQuery.Proofs.Schema.Connection
import ObjectQuery.Report

/-! Relations offered to a type one after the other. Whatever they are, the type accepts each
relation at which it stands the first time that it is offered, and holds in its list and in its
tables what it has accepted. Relations are told apart by their numbers, so that one that says the
same as an earlier one is accepted, and takes its place in the tables. -/
namespace ObjectQuery

open Outcome

namespace Table

variable {α : Type}

theorem lookup_write (key other : String) (value : α) (l : List (String × α)) :
    (write key value l).lookup other = if other = key then some value else l.lookup other := by
  induction l with
  | nil => exact lookup_cons_if key other value []
  | cons e l ih =>
    obtain ⟨k, v⟩ := e
    by_cases found : k = key
    · rw [write, if_pos found, lookup_cons_if, lookup_cons_if, found]
      split <;> rfl
    · rw [write, if_neg found, lookup_cons_if, lookup_cons_if, ih]
      by_cases same : other = key
      · rw [if_neg fun here => found (here.symm.trans same), if_pos same, if_pos same]
      · rw [if_neg same, if_neg same]

theorem get?_insert (t : Table α) (key other : String) (value : α) :
    (t.insert key value).get? other = if other = key then some value else t.get? other :=
  lookup_write key other value t.entries

section Filled

variable (key : α → String) (l : List α)

/-- Keys stand in the order of their first values. -/
theorem keys_filled : (l.foldl (fun t a => t.insert (key a) a) empty).keys =
    (l.map key).eraseDups := by
  -- From the end, as it is the last value that finds the keys of all others in the table.
  induction l using List.reverseRecOn with
  | nil => rfl
  | append_singleton l a ih =>
    rw [List.foldl_append, List.foldl_cons, List.foldl_nil, keys_insert, ih, List.map_append,
      List.map_cons, List.map_nil, List.eraseDups_append]
    by_cases known : key a ∈ l.map key
    · have dropped : [key a].removeAll (l.map key) = [] := by simpa [List.removeAll] using known
      rw [if_pos (List.mem_eraseDups.mpr known), dropped, List.eraseDups_nil, List.append_nil]
    · have kept : [key a].removeAll (l.map key) = [key a] := by simpa [List.removeAll] using known
      rw [if_neg fun member => known (List.mem_eraseDups.mp member), kept]
      rfl

/-- Under a key stands the last of its values. -/
theorem get?_filled (k : String) : (l.foldl (fun t a => t.insert (key a) a) empty).get? k =
    (l.filter fun a => key a = k).getLast? := by
  induction l using List.reverseRecOn with
  | nil => rfl
  | append_singleton l a ih =>
    rw [List.foldl_append, List.foldl_cons, List.foldl_nil, get?_insert, ih, List.filter_append]
    by_cases same : key a = k
    · simp [same]
    · simp [same, Ne.symm same]

end Filled

end Table

namespace ObjectType

/-- What a type does with a relation. Its ends are looked at first. -/
theorem register_eq (t : ObjectType) (e : Edge) : t.register e =
    if e.relation.parent ≠ t.name ∧ e.relation.child ≠ t.name then
      .error (.notAnEndpoint t.name e.relation.parent e.relation.child)
    else if e.serial ∈ t.edges.map Edge.serial then
      .error (.duplicateRelation t.name e.relation.parent e.relation.child)
    else .ok (t.attach e) := by
  have known : t.edges.any (·.serial == e.serial) = true ↔ e.serial ∈ t.edges.map Edge.serial := by
    simp
  by_cases stands : t.isEndpoint e.relation = true
  · have near : ¬ (e.relation.parent ≠ t.name ∧ e.relation.child ≠ t.name) := by
      rw [isEndpoint_iff] at stands
      tauto
    by_cases again : e.serial ∈ t.edges.map Edge.serial
    · rw [if_neg near, if_pos again]
      simp [register, stands, known.mpr again]
    · rw [if_neg near, if_neg again]
      exact register_eq_attach stands fun old member same =>
        again (List.mem_map.mpr ⟨old, member, same⟩)
  · have far : e.relation.parent ≠ t.name ∧ e.relation.child ≠ t.name := by
      rw [isEndpoint_iff] at stands
      tauto
    rw [if_pos far]
    simp [register, stands]

/-- Relations that a type has accepted, and the type with them. -/
structure Offered where
  accepted : List Edge
  type : ObjectType

namespace Offered

/-- A relation that is refused leaves the type as it is. -/
def next (o : Offered) (e : Edge) : Offered :=
  match o.type.register e with
  | .ok grown => ⟨o.accepted ++ [e], grown⟩
  | .error _ => o

theorem next_refused {o : Offered} {e : Edge} {fault : SchemaFault}
    (refused : o.type.register e = .error fault) : o.next e = o := by
  simp [next, refused]

theorem next_accepted {o : Offered} {e : Edge} {grown : ObjectType}
    (done : o.type.register e = .ok grown) : o.next e = ⟨o.accepted ++ [e], grown⟩ := by
  simp [next, done]

/-- What has been accepted so far are relations at which the type stands, each of them once, and the
type is what they make of the one that there was at first. -/
structure Grown (first : ObjectType) (o : Offered) : Prop where
  type : o.type = first.joined o.accepted
  stands : ∀ e ∈ o.accepted, first.isEndpoint e.relation = true
  serials : (o.accepted.map Edge.serial).Nodup

namespace Grown

variable {first : ObjectType} {o : Offered}

theorem name (grown : Grown first o) : o.type.name = first.name :=
  grown.type ▸ (first.joined_keeps o.accepted).1

theorem edges (grown : Grown first o) : o.type.edges = first.edges ++ o.accepted := by
  rw [grown.type, edges_joined, List.filter_eq_self.mpr grown.stands]

theorem next (grown : Grown first o) (e : Edge) : Grown first (o.next e) := by
  cases done : o.type.register e with
  | error fault => rwa [next_refused done]
  | ok type =>
    rw [next_accepted done]
    have kept := grown.name
    rw [register_eq] at done
    split_ifs at done with far again
    obtain rfl := Except.ok.inj done
    have stands : first.isEndpoint e.relation = true := by
      rw [isEndpoint_iff, ← kept]
      tauto
    refine ⟨?_, ?_, ?_⟩
    · rw [joined_snoc, ← grown.type, join, if_pos]
      rwa [isEndpoint_iff, kept, ← isEndpoint_iff]
    · exact List.forall_mem_append.mpr ⟨grown.stands, by simpa using stands⟩
    · rw [grown.edges, List.map_append, List.mem_append, not_or] at again
      rw [List.map_append, List.map_cons, List.map_nil, ← List.concat_eq_append]
      exact grown.serials.concat again.2

theorem related (grown : Grown first o) {down : Bool} (blank : first.related down = .empty) :
    o.type.related down = (o.accepted.filter fun e => e.relation.near down = first.name).foldl
      (fun table e => table.insert (e.relation.far down) e) .empty := by
  rw [grown.type, related_joined, blank]

theorem run (first : ObjectType) (edges : List Edge) :
    Grown first (edges.foldl Offered.next ⟨[], first⟩) := by
  induction edges using List.reverseRecOn with
  | nil => exact ⟨rfl, by simp, List.nodup_nil⟩
  | append_singleton edges e ih =>
    rw [List.foldl_append]
    exact ih.next e

end Grown

end Offered

/-- The type after all these relations have been offered to it. -/
def offer (t : ObjectType) (edges : List Edge) : Offered := edges.foldl Offered.next ⟨[], t⟩

theorem offer_snoc (t : ObjectType) (edges : List Edge) (e : Edge) :
    t.offer (edges ++ [e]) = (t.offer edges).next e := List.foldl_append

/-- What a type holds of the relations that it has accepted. A key of a table stands where its
first relation has put it, and the last relation stands under it. -/
structure Holds (t : ObjectType) (accepted : List Edge) : Prop where
  edges : t.edges = accepted
  once : (accepted.map Edge.serial).Nodup
  childNames : t.children.keys = ((accepted.filter fun e => e.relation.parent = t.name).map
    fun e => e.relation.child).eraseDups
  child : ∀ child, t.children.get? child = (accepted.filter fun e =>
    e.relation.parent = t.name ∧ e.relation.child = child).getLast?
  parentNames : t.parents.keys = ((accepted.filter fun e => e.relation.child = t.name).map
    fun e => e.relation.parent).eraseDups
  parent : ∀ parent, t.parents.get? parent = (accepted.filter fun e =>
    e.relation.child = t.name ∧ e.relation.parent = parent).getLast?

theorem Holds.loop {t : ObjectType} {accepted : List Edge} (holds : t.Holds accepted) {e : Edge}
    (member : e ∈ accepted) (starts : e.relation.parent = t.name)
    (arrives : e.relation.child = t.name) : t.edges.count e = 1 ∧
    ∃ last ∈ accepted, last.relation.parent = t.name ∧ last.relation.child = t.name ∧
      t.children.get? t.name = some last ∧ t.parents.get? t.name = some last := by
  refine ⟨holds.edges ▸ List.count_eq_one_of_mem holds.once.of_map member, ?_⟩
  have both : t.parents.get? t.name = t.children.get? t.name := by
    rw [holds.child, holds.parent]
    simp only [and_comm]
  rw [both, holds.child]
  cases found : (accepted.filter fun e =>
      e.relation.parent = t.name ∧ e.relation.child = t.name).getLast? with
  | none =>
    have inside : e ∈ accepted.filter fun e =>
        e.relation.parent = t.name ∧ e.relation.child = t.name := by
      simp [member, starts, arrives]
    rw [List.getLast?_eq_none_iff.mp found] at inside
    cases inside
  | some last =>
    have inside := List.mem_of_getLast? found
    simp only [List.mem_filter, decide_eq_true_eq] at inside
    exact ⟨last, inside.1, inside.2.1, inside.2.2, rfl, rfl⟩

theorem Offered.Grown.holds {first : ObjectType} {o : Offered} (grown : o.Grown first)
    (edges : first.edges = []) (blank : ∀ down, first.related down = .empty) :
    o.type.Holds o.accepted := by
  have keys (down : Bool) : (o.type.related down).keys =
      ((o.accepted.filter fun e => e.relation.near down = o.type.name).map
        fun e => e.relation.far down).eraseDups := by
    rw [grown.related (blank down), grown.name, Table.keys_filled]
  have entry (down : Bool) (other : String) : (o.type.related down).get? other =
      (o.accepted.filter fun e => e.relation.near down = o.type.name ∧
        e.relation.far down = other).getLast? := by
    rw [grown.related (blank down), grown.name, Table.get?_filled, List.filter_filter]
    congr
    funext e
    simp [and_comm]
  refine ⟨by rw [grown.edges, edges, List.nil_append], grown.serials, keys true, entry true,
    keys false, entry false⟩

/-- Whatever relations have been offered to a new type, it refuses the next one if it does not stand
at its ends, and otherwise if it has accepted this very relation before. A refusal changes nothing,
and the type holds what it has accepted. -/
theorem relations_as_accepted {name : String} {shape : Json} {idFields : List String}
    {t : ObjectType} (made : make name shape idFields = .ok t) (edges : List Edge) :
    let now := t.offer edges
    (∀ e fault, now.type.register e = .error fault ↔
      e.relation.parent ≠ name ∧ e.relation.child ≠ name ∧
        fault = .notAnEndpoint name e.relation.parent e.relation.child ∨
      (e.relation.parent = name ∨ e.relation.child = name) ∧
        e.serial ∈ now.accepted.map Edge.serial ∧
        fault = .duplicateRelation name e.relation.parent e.relation.child) ∧
    (∀ e fault, now.type.register e = .error fault → t.offer (edges ++ [e]) = now) ∧
    (∀ e grown, now.type.register e = .ok grown →
      t.offer (edges ++ [e]) = ⟨now.accepted ++ [e], grown⟩) ∧
    now.type.name = name ∧ now.type.Holds now.accepted ∧
    ∀ e ∈ now.accepted, e.relation.parent = e.relation.child → now.type.edges.count e = 1 ∧
      ∃ last ∈ now.accepted, last.relation.parent = name ∧ last.relation.child = name ∧
        now.type.children.get? name = some last ∧ now.type.parents.get? name = some last := by
  intro now
  have grown : now.Grown t := .run t edges
  obtain ⟨_, _, rfl⟩ := make_eq_ok made
  have holds : now.type.Holds now.accepted :=
    grown.holds rfl fun down => by cases down <;> rfl
  have called : now.type.name = name := grown.name
  refine ⟨fun e fault => ?_, fun e fault refused => ?_, fun e grown done => ?_, called, holds,
    fun e member loop => ?_⟩
  · rw [register_eq, holds.edges, called]
    split_ifs with far again
    · simp [far, eq_comm]
    · simp only [Except.error.injEq]
      tauto
    · simp only [false_iff]
      tauto
  · rw [offer_snoc, Offered.next_refused refused]
  · rw [offer_snoc, Offered.next_accepted done]
  · have stands := isEndpoint_iff.mp (grown.stands e member)
    rw [loop, or_self, ← grown.name] at stands
    have held := holds.loop member (loop.trans stands) stands
    rwa [called] at held

/-- The last of these relations says the same as the first. -/
def folderEdges : List Edge :=
  [⟨0, ⟨"folder", "file", ["path"]⟩⟩, ⟨1, ⟨"disk", "folder", ["root"]⟩⟩,
    ⟨2, ⟨"folder", "folder", ["outer"]⟩⟩, ⟨3, ⟨"folder", "file", ["path"]⟩⟩]

/-- The first of the relations is offered twice, and in between one of other types. -/
def folderOffers : List Edge :=
  ⟨0, ⟨"folder", "file", ["path"]⟩⟩ :: ⟨4, ⟨"disk", "file", ["path"]⟩⟩ :: folderEdges

theorem relations_as_accepted_folder : ∃ t, make "folder" Report.anything ["path"] = .ok t ∧
    (t.offer folderOffers).accepted = folderEdges ∧
    (t.offer folderOffers).type.register ⟨4, ⟨"disk", "file", ["path"]⟩⟩ =
      .error (.notAnEndpoint "folder" "disk" "file") ∧
    (t.offer folderOffers).type.register ⟨0, ⟨"folder", "file", ["path"]⟩⟩ =
      .error (.duplicateRelation "folder" "folder" "file") ∧
    (t.offer folderOffers).type.edges = folderEdges ∧
    (t.offer folderOffers).type.children.keys = ["file", "folder"] ∧
    (t.offer folderOffers).type.children.get? "file" =
      some ⟨3, ⟨"folder", "file", ["path"]⟩⟩ ∧
    (t.offer folderOffers).type.parents.keys = ["disk", "folder"] ∧
    (t.offer folderOffers).type.parents.get? "folder" =
      some ⟨2, ⟨"folder", "folder", ["outer"]⟩⟩ := by
  have run : (do
      let t ← (make "folder" Report.anything ["path"]).toOption
      pure (t.offer folderOffers).accepted) = some folderEdges := by
    decide +kernel
  simp only [Option.bind_eq_bind, Option.pure_def, Option.bind_eq_some_iff, toOption_eq_some,
    Option.some.injEq] at run
  obtain ⟨t, made, accepted⟩ := run
  obtain ⟨refused, _, _, called, holds, _⟩ := relations_as_accepted made folderOffers
  have childNames := holds.childNames
  have child := holds.child "file"
  have parentNames := holds.parentNames
  have parent := holds.parent "folder"
  rw [accepted, called] at childNames child parentNames parent
  refine ⟨t, made, accepted, (refused _ _).mpr (.inl (by decide)), (refused _ _).mpr (.inr ?_),
    holds.edges.trans accepted, childNames.trans (by decide), child.trans (by decide),
    parentNames.trans (by decide), parent.trans (by decide)⟩
  rw [accepted]
  decide

end ObjectType

end ObjectQuery

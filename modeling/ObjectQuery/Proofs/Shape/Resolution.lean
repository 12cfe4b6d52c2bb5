import Mathlib.Data.List.Nodup
import ObjectQuery.Proofs.Json.Within
import ObjectQuery.Proofs.Shape.Reading

/-! Which JSON schemas compile. Besides the form, everything depends on references: those that are
met anywhere have to stay within the document, and those in use have to lead to something that is
read as a schema. The rounds in which references are collected are always enough, since each of them
finds another reference that stands in the document. -/
namespace ObjectQuery

namespace Shape

namespace Form

/-- The schemas of which the form is demanded under a keyword. -/
def schemas (keyword : String) (v : Json) : List Json :=
  if takesSchema keyword then [v]
  else if takesFields keyword then match v with
    | .obj members => members.map Prod.snd
    | _ => []
  else if takesOptions keyword then match v with
    | .arr items => items
    | _ => []
  else []

theorem areFields_iff {members : List (String × Json)} :
    areFields members = true ↔ ∀ m ∈ members, isSchema m.2 = true := by
  induction members with
  | nil => simp [areFields]
  | cons m rest ih => simp [areFields, ih]

theorem areOptions_iff {items : List Json} :
    areOptions items = true ↔ ∀ v ∈ items, isSchema v = true := by
  induction items with
  | nil => simp [areOptions]
  | cons v rest ih => simp [areOptions, ih]

/-- What a keyword demands of its content. -/
def isContent (keyword : String) (v : Json) : Bool :=
  if takesSchema keyword then isSchema v
  else if takesFields keyword then areFieldsOf v
  else if takesOptions keyword then areOptionsOf v
  else isPlain keyword v

theorem areContents_iff {members : List (String × Json)} :
    areContents members = true ↔ ∀ m ∈ members, isContent m.1 m.2 = true := by
  induction members with
  | nil => simp [areContents]
  | cons m rest ih => simp [areContents, isContent, ih]

theorem isSchema_of_content {keyword : String} {v w : Json} (content : isContent keyword v = true)
    (below : w ∈ schemas keyword v) : isSchema w = true := by
  unfold isContent at content
  unfold schemas at below
  split at content
  · next takes =>
    rw [if_pos takes] at below
    rwa [List.mem_singleton.mp below]
  · next other =>
    rw [if_neg other] at below
    split at content
    · next takes =>
      rw [if_pos takes] at below
      cases v with
      | obj members =>
        obtain ⟨m, member, rfl⟩ := List.mem_map.mp below
        exact areFields_iff.mp content m member
      | _ => cases below
    · next other =>
      rw [if_neg other] at below
      split at content
      · next takes =>
        rw [if_pos takes] at below
        cases v with
        | arr items =>
          exact areOptions_iff.mp (Bool.and_eq_true_iff.mp content).2 w below
        | _ => cases below
      · next other =>
        rw [if_neg other] at below
        cases below

/-- Where the form is right, what is read as a schema is demanded to be one. -/
theorem subschemas_subset {keyword : String} {v : Json} (content : isContent keyword v = true) :
    subschemas keyword v ⊆ schemas keyword v := by
  intro w below
  unfold subschemas slot at below
  by_cases items : keyword = "items"
  · subst items
    have formed : isSchema v = true := content
    cases v with
    | arr l => cases formed
    | _ => exact below
  · rw [if_neg items] at below
    by_cases additional : keyword = "additionalProperties"
    · subst additional
      exact below
    · rw [if_neg additional] at below
      by_cases properties : keyword = "properties"
      · subst properties
        cases v with
        | obj members => exact below
        | _ => cases below
      · rw [if_neg properties] at below
        by_cases anyOf : keyword = "anyOf"
        · subst anyOf
          cases v with
          | arr l => exact below
          | _ => cases below
        · rw [if_neg anyOf] at below
          cases below

end Form

namespace Linkage

open Form

theorem referencesOfMembers_eq (members : List (String × Json)) :
    referencesOfMembers members = members.flatMap fun m => references m.2 := by
  induction members with
  | nil => rfl
  | cons m rest ih => rw [referencesOfMembers, ih, List.flatMap_cons]

theorem referencesOfItems_eq (items : List Json) :
    referencesOfItems items = items.flatMap references := by
  induction items with
  | nil => rfl
  | cons v rest ih => rw [referencesOfItems, ih, List.flatMap_cons]

/-- The references of an object are its own and those of the schemas under its keywords. -/
theorem referencesIn_eq (members : List (String × Json)) :
    referencesIn members = members.flatMap fun m =>
      if m.1 = "$ref" then m.2.text?.toList else (schemas m.1 m.2).flatMap references := by
  induction members with
  | nil => rfl
  | cons m rest ih =>
    obtain ⟨keyword, v⟩ := m
    rw [referencesIn, ih, List.flatMap_cons]
    congr 1
    unfold schemas
    by_cases direct : keyword = "$ref"
    · rw [if_pos direct, if_pos direct]
    · rw [if_neg direct, if_neg direct]
      by_cases one : takesSchema keyword = true
      · simp [one]
      · by_cases fields : takesFields keyword = true
        · cases v <;>
            simp [one, fields, referencesOfFields, referencesOfMembers_eq, List.flatMap_map]
        · by_cases options : takesOptions keyword = true
          · cases v <;>
              simp [one, fields, options, referencesOfOptions, referencesOfItems_eq]
          · simp [one, fields, options]

theorem mem_references {members : List (String × Json)} {reference : String} :
    reference ∈ references (.obj members) ↔ ("$ref", .str reference) ∈ members ∨
      ∃ m ∈ members, ∃ w ∈ schemas m.1 m.2, reference ∈ references w := by
  rw [references, referencesIn_eq, List.mem_flatMap]
  constructor
  · rintro ⟨⟨keyword, v⟩, member, inside⟩
    by_cases direct : keyword = "$ref"
    · subst direct
      cases v with
      | str text =>
        obtain rfl : reference = text := by simpa [Json.text?] using inside
        exact .inl member
      | _ => cases inside
    · obtain ⟨w, below, here⟩ := List.mem_flatMap.mp ((if_neg direct) ▸ inside)
      exact .inr ⟨_, member, w, below, here⟩
  · rintro (member | ⟨⟨keyword, v⟩, member, w, below, here⟩)
    · exact ⟨_, member, by simp [Json.text?]⟩
    · have other : keyword ≠ "$ref" := by
        rintro rfl
        cases below
      exact ⟨_, member, by
        rw [if_neg other]
        exact List.mem_flatMap.mpr ⟨w, below, here⟩⟩

theorem within_of_schema {keyword : String} {v w : Json} (below : w ∈ schemas keyword v) :
    w = v ∨ w ∈ v.within := by
  unfold schemas at below
  split at below
  · exact .inl (List.mem_singleton.mp below)
  · split at below
    · cases v with
      | obj members =>
        obtain ⟨m, member, rfl⟩ := List.mem_map.mp below
        exact .inr (Json.mem_withinMembers.mpr ⟨m, member, .inl rfl⟩)
      | _ => cases below
    · split at below
      · cases v with
        | arr items => exact .inr (Json.mem_withinItems.mpr ⟨w, below, .inl rfl⟩)
        | _ => cases below
      · cases below

/-- A reference is a text within the schema that it belongs to. -/
theorem within_of_references {v : Json} {reference : String} (inside : reference ∈ references v) :
    .str reference ∈ v.within := by
  match v with
  | .obj members =>
    rcases mem_references.mp inside with member | ⟨m, member, w, below, here⟩
    · exact Json.within_of_member member (.inl rfl)
    · exact Json.within_subset (Json.within_of_member member (within_of_schema below))
        (within_of_references here)
termination_by sizeOf v
decreasing_by exact Json.sizeOf_within (Json.within_of_member member (within_of_schema below))

/-- Where the form is right, the references that are read are among those that are looked for. -/
theorem references_of_refers {v : Json} {reference : String} (refers : Refers v reference)
    (formed : isSchema v = true) : reference ∈ references v := by
  induction refers with
  | here member => exact mem_references.mpr (.inl member)
  | within member below _ ih =>
    have content := areContents_iff.mp formed _ member
    have under := subschemas_subset content below
    exact mem_references.mpr (.inr ⟨_, member, _, under, ih (isSchema_of_content content under)⟩)

/-- The references that are met in a document: in the schema, in use or not, and in what a known
reference leads to. -/
inductive Mentioned (document : Json) : String → Prop
  | here {reference : String} : reference ∈ references document → Mentioned document reference
  | onward {known reference : String} {target : Json} : Mentioned document known →
    document.at? known = some target → reference ∈ references target →
    Mentioned document reference

/-- The references that are in use: those of the shape, and of the shapes that they lead to. -/
inductive Followed (document : Json) : String → Prop
  | here {reference : String} {s : Shape} : read? document = some s →
    reference ∈ s.references → Followed document reference
  | onward {known reference : String} {target : Json} {s : Shape} : Followed document known →
    document.at? known = some target → read? target = some s → reference ∈ s.references →
    Followed document reference

/-- The reference leads to something that is read as a schema. -/
def Leads (document : Json) (reference : String) : Prop :=
  ∃ target s, document.at? reference = some target ∧ read? target = some s

/-- All references resolve: none leads out of the document, and those in use lead to schemas. -/
structure Resolves (document : Json) : Prop where
  inside : ∀ r, Mentioned document r → Json.isLocal r = true
  leading : ∀ r, Followed document r → Leads document r

variable {document : Json}

theorem nodup_eraseDups (l : List String) : l.eraseDups.Nodup := by
  match l with
  | [] => exact List.nodup_nil
  | a :: l =>
    rw [List.eraseDups_cons, List.nodup_cons]
    refine ⟨fun again => ?_, nodup_eraseDups _⟩
    simp at again
termination_by l.length
decreasing_by
  have shorter := List.length_filter_le (fun b => !b == a) l
  rw [List.length_cons]
  omega

/-- References that stand in a document are fewer than its values. -/
theorem length_lt_count {known : List String} (distinct : known.Nodup)
    (inside : ∀ r ∈ known, .str r ∈ document.within) : known.length < document.count := by
  have texts : (known.map Json.str).Nodup :=
    distinct.map fun _ _ same => Json.str.inj same
  have bound : (known.map Json.str).length ≤ document.within.length :=
    texts.length_le_of_subset fun v member => by
      obtain ⟨r, listed, rfl⟩ := List.mem_map.mp member
      exact inside r listed
  rw [List.length_map] at bound
  have whole := Json.length_within document
  omega

/-- The references that a round adds. -/
def fresh (document : Json) (known : List String) : List String :=
  ((known.filterMap document.at?).flatMap references).eraseDups.filter fun r => !known.contains r

theorem mem_fresh {known : List String} {reference : String} :
    reference ∈ fresh document known ↔ reference ∉ known ∧
      ∃ r ∈ known, ∃ target, document.at? r = some target ∧ reference ∈ references target := by
  simp only [fresh, List.mem_filter, List.mem_eraseDups, List.mem_flatMap, List.mem_filterMap,
    Bool.not_eq_true', List.contains_eq_mem, decide_eq_false_iff_not]
  constructor
  · rintro ⟨⟨target, ⟨r, member, found⟩, inside⟩, new⟩
    exact ⟨new, r, member, target, found, inside⟩
  · rintro ⟨new, r, member, target, found, inside⟩
    exact ⟨⟨target, ⟨r, member, found⟩, inside⟩, new⟩

theorem reached_succ (rounds : Nat) (known : List String) :
    reached document (rounds + 1) known = if fresh document known = [] then known
      else reached document rounds (known ++ fresh document known) := by
  rw [reached, fresh]
  simp only [List.isEmpty_iff]

theorem reached_subset (rounds : Nat) (known : List String) :
    known ⊆ reached document rounds known := by
  induction rounds generalizing known with
  | zero => exact List.Subset.refl known
  | succ rounds ih =>
    rw [reached_succ]
    split
    · exact List.Subset.refl known
    · exact List.Subset.trans (List.subset_append_left known _) (ih _)

theorem reached_mentioned (rounds : Nat) {known : List String}
    (sound : ∀ r ∈ known, Mentioned document r) :
    ∀ r ∈ reached document rounds known, Mentioned document r := by
  induction rounds generalizing known with
  | zero => exact sound
  | succ rounds ih =>
    rw [reached_succ]
    split
    · exact sound
    · refine ih fun r member => ?_
      rcases List.mem_append.mp member with old | new
      · exact sound r old
      · obtain ⟨_, before, listed, target, found, inside⟩ := mem_fresh.mp new
        exact .onward (sound before listed) found inside

/-- With as many rounds as there are values, nothing is left out that known references lead to. -/
theorem reached_closed {rounds : Nat} {known : List String} (distinct : known.Nodup)
    (inside : ∀ r ∈ known, .str r ∈ document.within)
    (enough : document.count ≤ rounds + known.length) {r reference : String} {target : Json}
    (member : r ∈ reached document rounds known) (found : document.at? r = some target)
    (mentioned : reference ∈ references target) :
    reference ∈ reached document rounds known := by
  induction rounds generalizing known with
  | zero =>
    have few := length_lt_count distinct inside
    omega
  | succ rounds ih =>
    rw [reached_succ] at member ⊢
    split at member
    · next nothing =>
      rw [if_pos nothing]
      by_contra missing
      have new := mem_fresh.mpr ⟨missing, r, member, target, found, mentioned⟩
      rw [nothing] at new
      cases new
    · next something =>
      rw [if_neg something]
      -- What a round is used up for is paid back by the references that it finds.
      have grown : 0 < (fresh document known).length := List.length_pos_iff.mpr something
      refine ih ?_ ?_ (by rw [List.length_append]; omega) member
      · have apart : (fresh document known).Nodup := (nodup_eraseDups _).filter _
        exact List.nodup_append'.mpr ⟨distinct, apart, fun x old new => (mem_fresh.mp new).1 old⟩
      · intro x listed
        rcases List.mem_append.mp listed with old | new
        · exact inside x old
        · obtain ⟨_, _, _, place, led, here⟩ := mem_fresh.mp new
          exact Json.within_of_at? led (within_of_references here)

theorem isClosed_iff :
    isClosed document = true ↔ ∀ r, Mentioned document r → Json.isLocal r = true := by
  have start {r : String} : r ∈ (references document).eraseDups ↔ r ∈ references document :=
    List.mem_eraseDups
  rw [isClosed, List.all_eq_true]
  constructor
  · intro closed r mentioned
    refine closed r ?_
    induction mentioned with
    | here inside => exact reached_subset _ _ (start.mpr inside)
    | onward _ found inside ih =>
      exact reached_closed (nodup_eraseDups _)
        (fun r member => within_of_references (start.mp member)) (by omega) ih found inside
  · intro closed r member
    exact closed r (reached_mentioned _ (fun r member => .here (start.mp member)) r member)

end Linkage

end Shape

namespace Validator

open Shape Linkage

variable {document : Json}

theorem addTargets_succ (rounds : Nat) (known : List (String × Shape)) :
    addTargets document (rounds + 1) known =
      match (known.flatMap fun e => e.2.references).find?
          fun r => !(known.map Prod.fst).contains r with
      | none => some known
      | some r => ((document.at? r).bind read?).bind fun target =>
        addTargets document rounds (known ++ [(r, target)]) := rfl

/-- The reference that a round adds is one of a known shape, and is not known. -/
theorem mem_of_find {known : List (String × Shape)} {r : String}
    (found : (known.flatMap fun e => e.2.references).find?
      (fun r => !(known.map Prod.fst).contains r) = some r) :
    r ∉ known.map Prod.fst ∧ ∃ e ∈ known, r ∈ e.2.references := by
  have new : r ∉ known.map Prod.fst := by simpa using List.find?_some found
  exact ⟨new, List.mem_flatMap.mp (List.mem_of_find?_eq_some found)⟩

/-- Where all references in use lead to schemas, no target is missing. -/
theorem addTargets_isSome (leading : ∀ r, Followed document r → Leads document r) (rounds : Nat)
    {known : List (String × Shape)}
    (used : ∀ e ∈ known, ∀ r ∈ e.2.references, Followed document r) :
    (addTargets document rounds known).isSome = true := by
  induction rounds generalizing known with
  | zero => rfl
  | succ rounds ih =>
    rw [addTargets_succ]
    split
    · rfl
    · next r found =>
      obtain ⟨_, e, member, inside⟩ := mem_of_find found
      have follows := used e member r inside
      obtain ⟨target, s, place, read⟩ := leading r follows
      simp only [place, read, Option.bind_some]
      refine ih fun x listed reference below => ?_
      rcases List.mem_append.mp listed with old | new
      · exact used x old reference below
      · obtain rfl := List.mem_singleton.mp new
        exact .onward follows place read below

/-- When all targets are added, every reference of their shapes has a target among them. -/
theorem addTargets_closed {rounds : Nat} {shape : Shape} {found targets : List (String × Shape)}
    (whole : read? document = some shape) (distinct : (found.map Prod.fst).Nodup)
    (led : ∀ e ∈ found, .str e.1 ∈ document.within ∧
      (document.at? e.1).bind read? = some e.2)
    (enough : document.count ≤ rounds + found.length)
    (done : addTargets document rounds (("#", shape) :: found) = some targets) :
    ("#", shape) ∈ targets ∧ (∀ e ∈ targets, (document.at? e.1).bind read? = some e.2) ∧
      ∀ e ∈ targets, ∀ r ∈ e.2.references, r ∈ targets.map Prod.fst := by
  have known : ∀ e ∈ ("#", shape) :: found, (document.at? e.1).bind read? = some e.2 := by
    intro e member
    rcases List.mem_cons.mp member with rfl | later
    · rw [Json.at?_root]
      exact whole
    · exact (led e later).2
  induction rounds generalizing found with
  | zero =>
    have inside : ∀ r ∈ found.map Prod.fst, .str r ∈ document.within := by
      intro r member
      obtain ⟨e, listed, rfl⟩ := List.mem_map.mp member
      exact (led e listed).1
    have few := length_lt_count distinct inside
    rw [List.length_map] at few
    omega
  | succ rounds ih =>
    rw [addTargets_succ] at done
    split at done
    · next nothing =>
      obtain rfl := Option.some.inj done
      refine ⟨List.mem_cons_self, known, fun e member r inside => ?_⟩
      have all := List.find?_eq_none.mp nothing r (List.mem_flatMap.mpr ⟨e, member, inside⟩)
      by_contra missing
      exact all (by simpa using missing)
    · next r next =>
      obtain ⟨new, e, member, inside⟩ := mem_of_find next
      obtain ⟨s, place, done⟩ := Option.bind_eq_some_iff.mp done
      have text : .str r ∈ document.within := by
        obtain ⟨target, spot, read⟩ := Option.bind_eq_some_iff.mp (known e member)
        exact Json.within_of_at? spot (refers_of_read? read inside).text_within
      have placed : ∀ x ∈ found ++ [(r, s)], .str x.1 ∈ document.within ∧
          (document.at? x.1).bind read? = some x.2 := by
        intro x listed
        rcases List.mem_append.mp listed with old | last
        · exact led x old
        · obtain rfl := List.mem_singleton.mp last
          exact ⟨text, place⟩
      refine ih ?_ placed (by rw [List.length_append, List.length_singleton]; omega) done ?_
      · rw [List.map_append, List.map_singleton]
        refine List.nodup_append'.mpr ⟨distinct, List.nodup_singleton r, ?_⟩
        intro x old last
        obtain rfl := List.mem_singleton.mp last
        exact new (List.mem_cons_of_mem _ old)
      · intro x listed
        rcases List.mem_cons.mp listed with rfl | later
        · exact known _ List.mem_cons_self
        · exact (placed x later).2

/-- A schema compiles exactly if it has the form of one, can be read, and resolves. -/
theorem compile?_iff {name : String} :
    (compile? name document).isSome = true ↔
      Form.isSchema document = true ∧ (read? document).isSome = true ∧ Resolves document := by
  unfold compile?
  constructor
  · intro compiled
    obtain ⟨v, compiled⟩ := Option.isSome_iff_exists.mp compiled
    split at compiled
    · next passed =>
      obtain ⟨formed, closed⟩ := Bool.and_eq_true_iff.mp passed
      simp only [Option.bind_eq_bind, Option.bind_eq_some_iff] at compiled
      obtain ⟨shape, read, targets, added, _⟩ := compiled
      have none : (([] : List (String × Shape)).map Prod.fst).Nodup := List.nodup_nil
      obtain ⟨root, led, all⟩ := addTargets_closed read none
        (fun e member => by cases member) (Nat.le_refl _) added
      have among (r : String) (follows : Followed document r) : r ∈ targets.map Prod.fst := by
        induction follows with
        | here same inside =>
          obtain rfl := Option.some.inj (read.symm.trans same)
          exact all _ root _ inside
        | onward _ place same inside ih =>
          obtain ⟨e, member, rfl⟩ := List.mem_map.mp ih
          have target := led e member
          rw [place, Option.bind_some, same] at target
          exact all e member _ (Option.some.inj target ▸ inside)
      refine ⟨formed, by rw [read]; rfl, isClosed_iff.mp closed, fun r follows => ?_⟩
      obtain ⟨e, member, rfl⟩ := List.mem_map.mp (among r follows)
      obtain ⟨target, place, same⟩ := Option.bind_eq_some_iff.mp (led e member)
      exact ⟨target, e.2, place, same⟩
    · cases compiled
  · rintro ⟨formed, read, resolves⟩
    obtain ⟨shape, read⟩ := Option.isSome_iff_exists.mp read
    have closed := isClosed_iff.mpr resolves.inside
    have used : ∀ e ∈ [("#", shape)], ∀ r ∈ e.2.references, Followed document r := by
      intro e member r inside
      obtain rfl := List.mem_singleton.mp member
      exact .here read inside
    obtain ⟨targets, added⟩ := Option.isSome_iff_exists.mp
      (addTargets_isSome resolves.leading document.count used)
    simp [formed, closed, read, added]

end Validator

end ObjectQuery

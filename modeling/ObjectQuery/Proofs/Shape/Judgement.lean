import ObjectQuery.Proofs.Outcome
import ObjectQuery.Shape.Validator

/-! When a value meets a shape. A judge has to follow only the references in the shape; a shape
without references is judged by itself alone. -/
namespace ObjectQuery

namespace Shape

section Lists

variable (follow : String → Json → Option Failure)

theorem judgeAll_eq (rules : List Shape) (v : Json) :
    judgeAll follow rules v = (rules.map (judge follow)).findSome? (· v) := by
  induction rules with
  | nil => rfl
  | cons s rest ih =>
    show (judge follow s v).or (judgeAll follow rest v) = _
    rw [ih, List.map_cons, List.findSome?_cons]
    cases judge follow s v <;> rfl

theorem judgeItems_eq (shapes : List Shape) (items : List Json) :
    judgeItems follow shapes items =
      ((shapes.map (judge follow)).zip items).findSome? fun p => p.1 p.2 := by
  induction shapes generalizing items with
  | nil => rfl
  | cons s rest ih =>
    cases items with
    | nil => rfl
    | cons v items =>
      show (judge follow s v).or (judgeItems follow rest items) = _
      rw [ih, List.map_cons, List.zip_cons_cons, List.findSome?_cons]
      dsimp only
      cases judge follow s v <;> rfl

theorem suits_eq (options : List Shape) (v : Json) :
    suits follow options v = (options.map (judge follow)).any fun judge => (judge v).isNone := by
  induction options with
  | nil => rfl
  | cons s rest ih =>
    show ((judge follow s v).isNone || suits follow rest v) = _
    rw [ih, List.map_cons, List.any_cons]

theorem judges_eq (fields : List (String × Shape)) :
    judges follow fields = fields.map fun f => (f.1, judge follow f.2) := by
  induction fields with
  | nil => rfl
  | cons f rest ih =>
    show (f.1, judge follow f.2) :: judges follow rest = _
    rw [ih, List.map_cons]

end Lists

theorem mem_referencesOfAll {reference : String} {shapes : List Shape} :
    reference ∈ referencesOfAll shapes ↔ ∃ s ∈ shapes, reference ∈ s.references := by
  induction shapes with
  | nil => simp [referencesOfAll]
  | cons s rest ih => simp [referencesOfAll, ih]

theorem mem_referencesOfFields {reference : String} {fields : List (String × Shape)} :
    reference ∈ referencesOfFields fields ↔ ∃ f ∈ fields, reference ∈ f.2.references := by
  induction fields with
  | nil => simp [referencesOfFields]
  | cons f rest ih => simp [referencesOfFields, ih]

/-- Judges that agree on the references of a shape agree on the shape. -/
theorem judge_congr {follow other : String → Json → Option Failure} (s : Shape)
    (agree : ∀ r ∈ s.references, follow r = other r) : judge follow s = judge other s := by
  -- Shapes stand in lists, with names or without; both kinds are settled before the cases.
  have fields (l : List (String × Shape)) (smaller : sizeOf l < sizeOf s)
      (agree : ∀ r ∈ referencesOfFields l, follow r = other r) :
      judges follow l = judges other l := by
    rw [judges_eq, judges_eq]
    refine List.map_congr_left fun f member => ?_
    have inner := List.sizeOf_lt_of_mem member
    have : sizeOf f = 1 + sizeOf f.1 + sizeOf f.2 := rfl
    rw [judge_congr f.2 fun r inside =>
      agree r (mem_referencesOfFields.mpr ⟨f, member, inside⟩)]
  have all (l : List Shape) (smaller : sizeOf l < sizeOf s)
      (agree : ∀ r ∈ referencesOfAll l, follow r = other r) :
      l.map (judge follow) = l.map (judge other) := by
    refine List.map_congr_left fun t member => ?_
    have inner := List.sizeOf_lt_of_mem member
    exact judge_congr t fun r inside => agree r (mem_referencesOfAll.mpr ⟨t, member, inside⟩)
  funext v
  match s with
  | .properties l =>
    have inner := fields l (by rw [properties.sizeOf_spec]; omega) agree
    rw [judge, judge, inner]
  | .record l (some rest) =>
    have first := fields l (by rw [record.sizeOf_spec]; omega) fun r inside =>
      agree r (List.mem_append_left _ inside)
    have second := judge_congr rest fun r inside => agree r (List.mem_append_right _ inside)
    rw [judge, judge, first, judgeRest, judgeRest, second]
  | .record l none =>
    have inner := fields l (by rw [record.sizeOf_spec]; omega) agree
    rw [judge, judge, inner]
    rfl
  | .each t =>
    have inner := judge_congr t agree
    simp only [judge, inner]
  | .tuple l =>
    have inner := all l (by rw [tuple.sizeOf_spec]; omega) agree
    simp only [judge, judgeItems_eq, inner]
  | .anyOf l =>
    have inner := all l (by rw [anyOf.sizeOf_spec]; omega) agree
    rw [judge, judge, suits_eq, suits_eq, inner]
  | .all l =>
    have inner := all l (by rw [Shape.all.sizeOf_spec]; omega) agree
    rw [judge, judge, judgeAll_eq, judgeAll_eq, inner]
  | .reference pointer => rw [judge, judge, agree pointer (by simp [references])]
  | .anything | .nothing | .kinds _ | .const _ | .enum _ | .minimum _ | .maximum _ | .minLength _
  | .maxLength _ | .minItems _ | .maxItems _ | .required _ | .pattern _ _ => rfl
termination_by sizeOf s

section Verdicts

variable {follow : String → Json → Option Failure}

theorem judge_all {rules : List Shape} {v : Json} :
    judge follow (.all rules) v = none ↔ ∀ s ∈ rules, judge follow s v = none := by
  show judgeAll follow rules v = none ↔ _
  rw [judgeAll_eq, List.findSome?_eq_none_iff]
  exact List.forall_mem_map

theorem judge_kinds {kinds : List Kind} {v : Json} :
    judge follow (.kinds kinds) v = none ↔ ∃ kind ∈ kinds, kind.fits v = true := by
  show refuseIf _ _ = none ↔ _
  simp [refuseIf]

theorem judge_each {shape : Shape} {items : List Json} :
    judge follow (.each shape) (.arr items) = none ↔
      ∀ item ∈ items, judge follow shape item = none := by
  show firstFailure _ items = none ↔ _
  rw [firstFailure, List.findSome?_eq_none_iff]

theorem judge_anyOf {options : List Shape} {v : Json} :
    judge follow (.anyOf options) v = none ↔ ∃ s ∈ options, judge follow s v = none := by
  show refuseIf (!suits follow options v) _ = none ↔ _
  simp [refuseIf, suits_eq]

theorem judge_required {names : List String} {members : List (String × Json)} :
    judge follow (.required names) (.obj members) = none ↔
      ∀ name ∈ names, name ∈ members.map Prod.fst := by
  show (names.find? _).map _ = none ↔ _
  rw [Option.map_eq_none_iff, List.find?_eq_none]
  refine forall₂_congr fun name _ => ?_
  simp [Json.member?]

/-- Where no other members are allowed, each has to meet the shape under its name. -/
theorem judge_record {fields : List (String × Shape)} {members : List (String × Json)} :
    judge follow (.record fields none) (.obj members) = none ↔
      ∀ m ∈ members, ∃ s, fields.lookup m.1 = some s ∧ judge follow s m.2 = none := by
  have found (name : String) :
      (judges follow fields).lookup name = (fields.lookup name).map (judge follow) := by
    rw [judges_eq]
    induction fields with
    | nil => rfl
    | cons f rest ih =>
      rw [List.map_cons, List.lookup_cons, List.lookup_cons, ih]
      cases name == f.1 <;> rfl
  show judgeMembers _ (judges follow fields) none = none ↔ _
  rw [judgeMembers, firstFailure, List.findSome?_eq_none_iff]
  refine forall₂_congr fun m _ => ?_
  simp only [found]
  cases fields.lookup m.1 with
  | none => simp
  | some s => simp

end Verdicts

end Shape

namespace Validator

/-- A validator without references judges by its shape alone. -/
theorem judge_of_references {v : Validator} (none : v.shape.references = [])
    (follow : String → Json → Option Failure) (value : Json) :
    v.judge value = v.shape.judge follow value := by
  rw [judge, Shape.judge_congr v.shape (by simp [none])]

theorem compile?_eq_some {name : String} {schema : Json} {v : Validator}
    (done : compile? name schema = some v) :
    v.name = name ∧ Shape.Form.isSchema schema = true ∧ Shape.read? schema = some v.shape := by
  unfold compile? at done
  split at done
  · next passed =>
    simp only [Option.bind_eq_bind, Option.bind_eq_some_iff, Option.some.injEq] at done
    obtain ⟨shape, read, targets, _, rfl⟩ := done
    exact ⟨rfl, (Bool.and_eq_true_iff.mp passed).1, read⟩
  · cases done

end Validator

end ObjectQuery

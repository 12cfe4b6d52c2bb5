import ObjectQuery.Proofs.Chain.Wildcard

/-! Which steps of its chains a wildcard has added, and which it has found. The ways of a wildcard
are known before it marks anything or limits anything to IDs: they depend on the graph of types and
on the frontier alone. -/
namespace ObjectQuery.Chain

open Outcome

variable {schema : Schema} {down matched : Bool} {ids : Option IdList}

/-- The steps that a wildcard goes on from, which are none at the root, and the types that it steps
into. -/
structure Way where
  base : List Step
  onto : List ObjectType

namespace Way

/-- The new steps, the tip first. -/
def added (w : Way) (down : Bool) (ids : Option IdList) (matched : Bool) : List Step :=
  (w.onto.map fun type => ⟨down, type, ids, matched⟩).reverse

/-- The chain at the end of the way. -/
def reached (w : Way) (down : Bool) (ids : Option IdList) (scope : Scope) : List Step :=
  let steps := w.added down ids (scope == .all) ++ w.base
  if scope = .furthest then steps.modifyHead fun tip => { tip with matched := true } else steps

end Way

/-- The walks from each chain of the frontier. Without a frontier they begin at the root, with a
step to each type. -/
def ways (schema : Schema) (down : Bool) (frontier : List Chain) : List Way :=
  let walks (type : ObjectType) : List (List ObjectType) :=
    walksWithin schema down (schema.types.size + 1) type [type.name]
  if frontier.isEmpty then
    schema.types.values.flatMap fun type => (walks type).map fun walk => ⟨[], type :: walk⟩
  else frontier.flatMap fun c => (walks c.tip.type).map fun walk => ⟨c.steps, walk⟩

theorem steps_along (c : Chain) (walk : List ObjectType) :
    (c.along down ids matched walk).steps =
      Way.added ⟨c.steps, walk⟩ down ids matched ++ c.steps := by
  induction walk generalizing c with
  | nil => rfl
  | cons next walk ih =>
    have rest := ih ⟨⟨down, next, ids, matched⟩, c.steps⟩
    simpa [along, Way.added, steps] using rest

theorem expandAny_eq_ways {frontier chains : List Chain} (based : frontier = [] → down = true)
    (done : expandAny schema frontier down ids matched = .ok chains) :
    chains.map steps =
      (ways schema down frontier).map fun w => w.added down ids matched ++ w.base := by
  rw [expandAny_eq_walks done, List.map_flatMap]
  unfold origins ways
  split
  · next empty =>
    obtain rfl := based (List.isEmpty_iff.mp empty)
    have fromRoot (type : ObjectType) (walk : List ObjectType) :
        ((root type ids matched).along true ids matched walk).steps =
          Way.added ⟨[], type :: walk⟩ true ids matched := by
      rw [steps_along]
      simp [Way.added, steps, root]
    rw [List.flatMap_map, List.map_flatMap]
    simp only [List.map_map, Function.comp_def, fromRoot, List.append_nil]
    rfl
  · rw [List.map_flatMap]
    simp only [List.map_map, Function.comp_def, steps_along]

/-- A wildcard reaches the ends of its ways, and nothing else. -/
theorem expand_any_reaches {frontier chains : List Chain} {scope : Scope}
    (done : expand schema frontier down .any ids scope = .ok chains) :
    chains.map steps = (ways schema down frontier).map (·.reached down ids scope) := by
  obtain ⟨based, plain, settled, rfl⟩ := expand_any_eq_ok.mp done
  have reach := expandAny_eq_ways based settled
  unfold Way.reached
  split
  · have tips := congrArg
      (List.map (List.modifyHead fun tip : Step => { tip with matched := true })) reach
    rw [List.map_map, List.map_map] at tips
    rw [List.map_map]
    exact tips
  · rw [List.map_id']
    exact reach

/-- Chains that a wildcard marks furthest are marked at their tips, found or added. -/
theorem expand_any_tips {frontier chains : List Chain}
    (done : expand schema frontier down .any ids .furthest = .ok chains) :
    ∀ c ∈ chains, c.tip.matched = true := by
  intro c listed
  obtain ⟨_, plain, _, rfl⟩ := expand_any_eq_ok.mp done
  obtain ⟨d, _, rfl⟩ := List.mem_map.mp listed
  rfl

theorem steps_injective {c d : Chain} (same : c.steps = d.steps) : c = d := by
  obtain ⟨tip, before⟩ := List.cons.inj same
  cases c
  cases d
  congr

end ObjectQuery.Chain

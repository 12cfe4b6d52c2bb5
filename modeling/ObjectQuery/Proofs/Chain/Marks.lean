import ObjectQuery.Proofs.Chain.Way
import ObjectQuery.Proofs.Correspondence

/-! What marks have to do with an expansion. They decide nothing: two expansions that mark their
steps differently go side by side, round after round, over the same types to the same fault or to
the same chains. Only the marks of the steps that they add tell them apart. -/
namespace ObjectQuery.Chain

open Outcome

/-- Chains that are the same but for their marks. -/
def Remarked (c d : Chain) : Prop := c.unmarked = d.unmarked

structure Branch.Remarked (a b : Branch) : Prop where
  chain : a.chain.Remarked b.chain
  depth : a.depth = b.depth

namespace Remarked

theorem types {c d : Chain} (same : c.Remarked d) :
    c.steps.map Step.type = d.steps.map Step.type := by
  have parts := congrArg (List.map fun s : Bool × ObjectType × Option IdList => s.2.1) same
  rw [unmarked, unmarked, List.map_map, List.map_map] at parts
  exact parts

theorem type {c d : Chain} (same : c.Remarked d) : c.tip.type = d.tip.type :=
  (List.cons.inj same.types).1

/-- The same step added to both, with a mark or without. -/
theorem onward {c d : Chain} (same : c.Remarked d) (down : Bool) (type : ObjectType)
    (ids : Option IdList) (m n : Bool) :
    Remarked ⟨⟨down, type, ids, m⟩, c.steps⟩ ⟨⟨down, type, ids, n⟩, d.steps⟩ :=
  congrArg ((down, type, ids) :: ·) same

end Remarked

section Expansion

variable (schema : Schema) (down m n : Bool) (ids : Option IdList)

theorem make_remarked {b c : Option Chain} (bases : Option.Rel Remarked b c) (type : ObjectType) :
    Abreast True Remarked (make b down type ids m) (make c down type ids n) := by
  have admitted : checkBase b down type = checkBase c down type := by
    cases bases with
    | none => rfl
    | some same => simp only [checkBase, same.type]
  rw [make, make, admitted]
  cases checkBase c down type with
  | error fault => exact .fault fault
  | ok =>
    cases checkIds type ids with
    | error fault => exact .fault fault
    | ok =>
      cases bases with
      | none => exact .ok rfl
      | some same => exact .ok (same.onward down type ids m n)

theorem extend_remarked {c d : Chain} (same : c.Remarked d) (name : String) :
    Abreast True Remarked (extend schema down ids m c name) (extend schema down ids n d name) := by
  unfold extend
  cases relatedType schema down name with
  | error fault => exact .fault fault
  | ok type => exact make_remarked down m n ids (.some same) type

theorem expandName_remarked (frontier : List Chain) (name : String) :
    Abreast True (Matched True Remarked) (expandName schema frontier down name ids m)
      (expandName schema frontier down name ids n) := by
  unfold expandName
  split
  · cases schema.type? name with
    | none => exact .fault _
    | some type =>
      exact (make_remarked true m n ids .none type).map fun c d same => .single same
  · have extended := Abreast.mapM_same
      (frontier.filter fun c => (c.tip.type.related down).contains name)
      fun c => extend_remarked schema down m n ids (c := c) rfl name
    refine extended.bind fun grown others same => ?_
    cases grown with
    | nil =>
      rw [same.eq_nil_iff.mp rfl]
      exact .fault _
    | cons c grown =>
      cases others with
      | nil => exact absurd (same.eq_nil_iff.mpr rfl) (by simp)
      | cons d others => exact .ok same

theorem exits_remarked {a b : Branch} (same : a.Remarked b) : a.exits down = b.exits down := by
  have names := congrArg (List.map ObjectType.name) same.chain.types
  simp only [List.map_map, Function.comp_def] at names
  rw [Branch.exits, Branch.exits, Branch.visited, Branch.visited, List.map_take, List.map_take,
    names, same.chain.type, same.depth]

theorem grow_remarked {a b : Branch} (same : a.Remarked b) :
    Abreast True (Matched True Branch.Remarked) (a.grow schema down ids m)
      (b.grow schema down ids n) := by
  unfold Branch.grow
  rw [exits_remarked down same]
  split
  · exact .ok (.single same)
  · refine .mapM_same _ fun name => ?_
    exact (extend_remarked schema down m n ids same.chain name).map fun c d grown =>
      ⟨grown, by rw [same.depth]⟩

theorem round_remarked {as bs : List Branch} (same : Matched True Branch.Remarked as bs) :
    Abreast True (Matched True Branch.Remarked) (round schema down ids m as)
      (round schema down ids n bs) :=
  (Abreast.mapM same fun _ _ => grow_remarked schema down m n ids).map
    fun _ _ grown => grown.flatten

/-- The comparison of chains compares marks too, and yet both expansions stop after the same
round. -/
theorem settle_remarked (rounds : Nat) {as bs : List Branch}
    (same : Matched True Branch.Remarked as bs) :
    Abreast True (Matched True Branch.Remarked) (settle schema down ids m rounds as)
      (settle schema down ids n rounds bs) := by
  induction rounds generalizing as bs with
  | zero => exact .ok same
  | succ rounds ih =>
    -- The comparison sees marks, but all that it ever finds out is whether branches have exits.
    have finished : (∀ a ∈ as, a.exits down = []) ↔ ∀ b ∈ bs, b.exits down = [] :=
      same.forall_iff fun a b alike => by rw [exits_remarked down alike]
    rw [settle, settle]
    refine (round_remarked schema down m n ids same).bind_of_eq
      fun grown others ran ranToo related => ?_
    have stop := (settled_iff ran).trans (finished.trans (settled_iff ranToo).symm)
    by_cases settled : (others.map Branch.chain == bs.map Branch.chain) = true
    · rw [if_pos settled, if_pos (stop.mpr settled)]
      exact .ok related
    · rw [if_neg settled, if_neg (mt stop.mp settled)]
      exact ih related

theorem seeds_remarked (frontier : List Chain) :
    Abreast True (Matched True Branch.Remarked) (seeds schema frontier ids m)
      (seeds schema frontier ids n) := by
  unfold seeds
  split
  · refine .mapM_same _ fun type => ?_
    exact (make_remarked true m n ids .none type).map fun c d same => ⟨same, rfl⟩
  · exact .ok (.ofForall₂ (List.forall₂_same.mpr fun _ _ => ⟨rfl, rfl⟩))

theorem expandAny_remarked (frontier : List Chain) :
    Abreast True (Matched True Remarked) (expandAny schema frontier down ids m)
      (expandAny schema frontier down ids n) := by
  refine (seeds_remarked schema m n ids frontier).bind fun as bs starts => ?_
  refine (settle_remarked schema down m n ids _ starts).map fun x y settled => ?_
  exact settled.map fun a b same => same.chain

theorem expand_remarked (frontier : List Chain) (target : Target) (scope other : Scope) :
    Abreast True (Matched True Remarked) (expand schema frontier down target ids scope)
      (expand schema frontier down target ids other) := by
  by_cases based : frontier = [] → down = true
  · cases target with
    | named name =>
      rw [expand_named based, expand_named based]
      exact expandName_remarked schema down _ _ ids frontier name
    | any =>
      rw [expand_any based, expand_any based]
      refine (expandAny_remarked schema down _ _ ids frontier).map fun chains others alike => ?_
      refine alike.map fun c d same => ?_
      split <;> split <;> exact same
  · rw [expand_unbased based, expand_unbased based]
    exact .fault _

end Expansion

/-- The three scopes fail with one fault or come to the same chains but for the marks. A wildcard
marks none of the steps that it adds, all of them, or of each chain the tip alone, which is the tip
of the base where it adds nothing. All other steps of the base keep their marks. A named type is
marked alike by both scopes that mark it. -/
theorem expand_scopes (schema : Schema) (frontier : List Chain) (down : Bool) (target : Target)
    (ids : Option IdList) :
    (∃ fault, ∀ scope, expand schema frontier down target ids scope = .error fault) ∨
    ∃ result : Scope → List Chain,
      (∀ scope, expand schema frontier down target ids scope = .ok (result scope)) ∧
      (∀ scope, (result scope).map unmarked = (result .none).map unmarked) ∧
      (∀ name, target = .named name → result .all = result .furthest) ∧
      (target = .any →
        (result .none).map steps =
          (ways schema down frontier).map (fun w => w.added down ids false ++ w.base) ∧
        (result .all).map steps =
          (ways schema down frontier).map (fun w => w.added down ids true ++ w.base) ∧
        (result .furthest).map steps =
          (ways schema down frontier).map (fun w => (w.added down ids false ++ w.base).modifyHead
            fun tip => { tip with matched := true }) ∧
        ∀ c ∈ result .furthest, c.tip.matched = true) := by
  have alike := expand_remarked schema down ids frontier target .none
  cases plain : expand schema frontier down target ids .none with
  | error fault => exact .inl ⟨fault, fun scope => ((alike scope).error_iff trivial).mp plain⟩
  | ok chains =>
    obtain ⟨result, runs⟩ :=
      Classical.skolem.mp fun scope => (alike scope).ok_iff.mp ⟨chains, plain⟩
    refine .inr ⟨result, runs, fun scope => ?_, ?_, ?_⟩
    · exact (((alike scope).related (runs .none) (runs scope)).map_eq trivial fun _ _ => id).symm
    · rintro name rfl
      by_cases based : frontier = [] → down = true
      · have one := runs .all
        have other := runs .furthest
        rw [expand_named based] at one other
        exact Except.ok.inj (one.symm.trans other)
      · rw [expand_unbased based] at plain
        cases plain
    · rintro rfl
      refine ⟨expand_any_reaches (runs .none), expand_any_reaches (runs .all),
        expand_any_reaches (runs .furthest), fun c listed => ?_⟩
      exact expand_any_tips (runs .furthest) c listed

end ObjectQuery.Chain

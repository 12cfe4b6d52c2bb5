import Mathlib.Logic.Relation
import ObjectQuery.Proofs.Chain.Restriction

/-! Graphs of types without cycles. A walk may not return to a type that it has seen, but in such a
graph it never could: whatever it has seen leads to where it stands. So a wildcard ends only where
no relation leads on, whichever types its chains have come through before. -/
namespace ObjectQuery

open Outcome

/-- A relation of the schema leads from the one type to the other, to a child where `down`
holds. -/
def Schema.Leads (schema : Schema) (down : Bool) (a b : String) : Prop :=
  ∃ e ∈ schema.edges, e.relation.near down = a ∧ e.relation.far down = b

/-- No way from parents to children comes back to where it started. -/
def Schema.Acyclic (schema : Schema) : Prop :=
  ∀ name, ¬ Relation.TransGen (schema.Leads true) name name

namespace Schema

variable {description : Description} {schema : Schema}

/-- Ways up are ways down, walked backwards. -/
theorem Acyclic.not_leads_back (acyclic : schema.Acyclic) (down : Bool) (name : String) :
    ¬ Relation.TransGen (schema.Leads down) name name := by
  cases down with
  | true => exact acyclic name
  | false =>
    have swapped : schema.Leads false = Function.swap (schema.Leads true) := by
      funext a b
      exact propext (exists_congr fun e => and_congr_right fun _ => and_comm)
    rw [swapped, Relation.transGen_swap]
    exact acyclic name

/-- A graph is acyclic if its relations all lead up a rank. -/
theorem acyclic_of_rank (rank : String → Nat)
    (ascends : ∀ e ∈ schema.edges, rank e.relation.parent < rank e.relation.child) :
    schema.Acyclic := by
  intro name cycle
  have higher : Relation.TransGen (· < ·) (rank name) (rank name) :=
    cycle.lift rank fun a b ⟨e, inside, near, far⟩ => by
      have step := ascends e inside
      rwa [← near, ← far]
  rw [Relation.transGen_eq_self] at higher
  exact Nat.lt_irrefl _ higher

theorem mem_related_iff (accepted : ofDescription description = .ok schema) {type : ObjectType}
    (known : type ∈ schema.types.values) {down : Bool} {name : String} :
    name ∈ (type.related down).keys ↔ schema.Leads down type.name name := by
  rw [Table.keys, entries_of_edges accepted known down, List.map_map, List.mem_map]
  simp only [List.mem_filter, decide_eq_true_eq, and_assoc]
  rfl

end Schema

namespace Chain

variable {description : Description} {schema : Schema} {down matched : Bool} {ids : Option IdList}

theorem tip_along (c : Chain) (walk : List ObjectType) :
    (c.along down ids matched walk).tip.type = walk.getLastD c.tip.type := by
  induction walk generalizing c with
  | nil => rfl
  | cons next walk ih => rw [along, ih, List.getLastD_cons]

/-- A walk ends where no relation leads on, if all that it has seen leads to where it stands. -/
theorem walk_ends (accepted : Schema.ofDescription description = .ok schema)
    (acyclic : schema.Acyclic) {type : ObjectType} {seen : List String} {walk : List ObjectType}
    (known : type ∈ schema.types.values)
    (behind : ∀ name ∈ seen, Relation.ReflTransGen (schema.Leads down) name type.name)
    (walks : Walk schema down type seen walk) :
    ((walk.getLastD type).related down).keys = [] := by
  induction walks with
  | @stop type seen closed =>
    refine List.eq_nil_iff_forall_not_mem.mpr fun name related => ?_
    have onward := (Schema.mem_related_iff accepted known).mp related
    exact acyclic.not_leads_back down name
      (.tail' (behind name (closed name related)) onward)
  | @step type next seen rest related _ found _ ih =>
    rw [List.getLastD_cons]
    have onward := (Schema.mem_related_iff accepted known).mp related
    refine ih (Schema.type?_mem found) fun name member => ?_
    rcases List.mem_cons.mp member with rfl | earlier
    · exact .refl
    · exact (behind name earlier).tail onward

theorem mem_origins {frontier : List Chain}
    (known : ∀ c ∈ frontier, c.tip.type ∈ schema.types.values) :
    ∀ c ∈ origins schema frontier ids matched, c.tip.type ∈ schema.types.values := by
  unfold origins
  split
  · exact List.forall_mem_map.mpr fun type inside => inside
  · exact known

section Accepted

variable (accepted : Schema.ofDescription description = .ok schema)
include accepted

theorem expand_any_ends (acyclic : schema.Acyclic) {frontier chains : List Chain} {scope : Scope}
    (known : ∀ c ∈ frontier, c.tip.type ∈ schema.types.values)
    (done : expand schema frontier down .any ids scope = .ok chains) :
    ∀ c ∈ chains, (c.tip.type.related down).keys = [] := by
  obtain ⟨_, plain, settled, rfl⟩ := expand_any_eq_ok.mp done
  have ends : ∀ c ∈ plain, (c.tip.type.related down).keys = [] := by
    rw [expandAny_eq_walks settled]
    intro c member
    obtain ⟨start, inside, reached⟩ := List.mem_flatMap.mp member
    obtain ⟨walk, listed, rfl⟩ := List.mem_map.mp reached
    have room := room_le_size schema [start.tip.type.name]
    have walks := (mem_walksWithin (Schema.ofDescription_sound accepted) (by omega)).mp listed
    rw [tip_along]
    refine walk_ends accepted acyclic (mem_origins known start inside) ?_ walks
    simpa using .refl
  refine List.forall_mem_map.mpr fun c inside => ?_
  split
  · exact ends c inside
  · exact ends c inside

/-- No chain is ever given up. -/
theorem origins_of_expandAny_nil {frontier : List Chain}
    (known : ∀ c ∈ frontier, c.tip.type ∈ schema.types.values)
    (done : expandAny schema frontier down ids matched = .ok []) :
    origins schema frontier ids matched = [] := by
  have none := List.flatMap_eq_nil_iff.mp (expandAny_eq_walks done).symm
  refine List.eq_nil_iff_forall_not_mem.mpr fun c member => ?_
  exact walksWithin_ne_nil accepted (mem_origins known c member)
    (List.map_eq_nil_iff.mp (none c member))

end Accepted

theorem settle_closed {branches : List Branch} (closed : ∀ b ∈ branches, b.exits down = [])
    (rounds : Nat) : settle schema down ids matched rounds branches = .ok branches := by
  cases rounds with
  | zero => rfl
  | succ rounds =>
    have each : branches.mapM (Branch.grow schema down ids matched) =
        .ok (branches.map fun b => [b]) := by
      rw [mapM_eq_ok, List.map_map]
      exact List.map_congr_left fun b member => Branch.grow_closed (closed b member)
    have ran : round schema down ids matched branches = .ok branches := by
      simp [round, each, ← List.flatMap_def]
    rw [settle, ran]
    exact if_pos BEq.rfl

theorem expandAny_closed {frontier : List Chain} (nonempty : frontier ≠ [])
    (closed : ∀ c ∈ frontier, (c.tip.type.related down).keys = []) :
    expandAny schema frontier down ids matched = .ok frontier := by
  have started : seeds schema frontier ids matched = .ok (frontier.map fun c => ⟨c, 0⟩) := by
    simp [seeds, nonempty]
  have still : ∀ b ∈ frontier.map fun c => (⟨c, 0⟩ : Branch), b.exits down = [] :=
    List.forall_mem_map.mpr fun c inside => by simp [Branch.exits, closed c inside]
  rw [expandAny, started]
  simp [settle_closed still, Function.comp_def]

/-- From where no relation leads on, a further wildcard changes nothing, whatever IDs it has. -/
theorem expand_any_again (accepted : Schema.ofDescription description = .ok schema)
    {frontier chains : List Chain} {scope other : Scope} {others : Option IdList}
    (known : ∀ c ∈ frontier, c.tip.type ∈ schema.types.values)
    (done : expand schema frontier down .any ids scope = .ok chains)
    (closed : ∀ c ∈ chains, (c.tip.type.related down).keys = []) (marks : other ≠ .furthest) :
    expand schema chains down .any others other = .ok chains := by
  obtain ⟨based, plain, settled, rfl⟩ := expand_any_eq_ok.mp done
  by_cases none : plain = []
  · -- Nothing can come of a wildcard only if it has nothing to start from, not even a type.
    subst none
    have started := origins_of_expandAny_nil accepted known settled
    unfold origins at started
    split at started
    · next empty =>
      have types : schema.types.values = [] := by simpa using started
      have still : ∀ b ∈ ([] : List Branch), b.exits down = [] := by simp
      have again : expandAny schema [] down others (other == .all) = .ok [] := by
        simp [expandAny, seeds, types, settle_closed still]
      exact expand_any_eq_ok.mpr ⟨fun _ => based (List.isEmpty_iff.mp empty), [], again, rfl⟩
    · next nonempty => simp [started] at nonempty
  · refine expand_any_eq_ok.mpr ⟨fun empty => absurd (List.map_eq_nil_iff.mp empty) none, _,
      expandAny_closed (mt List.map_eq_nil_iff.mp none) closed, ?_⟩
    simp [marks]

theorem root_tips (accepted : Schema.ofDescription description = .ok schema)
    (acyclic : schema.Acyclic) {chains : List Chain} {scope : Scope}
    (done : expand schema [] true .any ids scope = .ok chains) (type : ObjectType) :
    (∃ c ∈ chains, c.tip.type = type) ↔
      type ∈ schema.types.values ∧ type.children.keys = [] := by
  constructor
  · rintro ⟨c, member, rfl⟩
    exact ⟨(tip_kept schema ids).expand (fun _ => id) (by simp) done c member,
      expand_any_ends accepted acyclic (by simp) done c member⟩
  · rintro ⟨known, childless⟩
    obtain ⟨_, plain, settled, rfl⟩ := expand_any_eq_ok.mp done
    have closed : type.exits true [type.name] = [] :=
      exits_eq_nil.mpr (by simp [ObjectType.related, childless])
    have reached : root type ids (scope == .all) ∈ plain := by
      rw [expandAny_eq_walks settled]
      refine List.mem_flatMap.mpr ⟨root type ids (scope == .all), ?_, ?_⟩
      · simpa [origins] using ⟨type, known, rfl⟩
      · simp [root, walksWithin, closed, along]
    refine ⟨_, List.mem_map_of_mem reached, ?_⟩
    split <;> rfl

/-- Where the graph of types has no cycle, a wildcard comes to chains that no relation leads on
from, and a further one in the same direction leaves these as they are unless it marks their tips.
From the root it comes to all types without children, and to no others. -/
theorem wildcard_comes_to_ends (accepted : Schema.ofDescription description = .ok schema)
    (acyclic : schema.Acyclic) :
    (∀ frontier : List Chain, (∀ c ∈ frontier, ∀ s ∈ c.steps, s.type ∈ schema.types.values) →
      ∀ down ids scope chains, expand schema frontier down .any ids scope = .ok chains →
        (∀ c ∈ chains, (c.tip.type.related down).keys = []) ∧
        ∀ others other, other ≠ .furthest →
          expand schema chains down .any others other = .ok chains) ∧
    (∀ scope, ∃ chains, expand schema [] true .any none scope = .ok chains) ∧
    ∀ ids scope chains, expand schema [] true .any ids scope = .ok chains → ∀ type,
      (∃ c ∈ chains, c.tip.type = type) ↔
        type ∈ schema.types.values ∧ type.children.keys = [] := by
  refine ⟨fun frontier within down ids scope chains done => ?_, fun scope => ?_,
    fun ids scope chains done => root_tips accepted acyclic done⟩
  · have known : ∀ c ∈ frontier, c.tip.type ∈ schema.types.values := fun c inside =>
      within c inside c.tip List.mem_cons_self
    have closed := expand_any_ends accepted acyclic known done
    exact ⟨closed, fun others other => expand_any_again accepted known done closed⟩
  · exact (expand_any_measured accepted (by simp) (fun _ => rfl) none scope).ok_iff.mpr
      fun _ _ _ absent => by cases absent

/-- From `a` to `d` there is a way through `b`, one through `c` and one through neither. -/
def crossing : Description :=
  .ofList [("a", letter ["d", "b", "c"]), ("d", letter []), ("b", letter ["d"]),
    ("c", letter ["d"]), ("e", letter [])]

/-- Up from `d`, behind a step down that has seen all types above, and down from the root. -/
theorem wildcard_comes_to_ends_of_crossing : ∃ schema frontier upwards downwards,
    Schema.ofDescription crossing = .ok schema ∧ schema.Acyclic ∧
    parse schema ">a>b>d" none = .ok frontier ∧
    expand schema frontier false .any (some [[some "x"]]) .furthest = .ok upwards ∧
    upwards.map (fun c => c.steps.map fun s => s.type.name) =
      [["a", "d", "b", "a"], ["a", "b", "d", "b", "a"], ["a", "c", "d", "b", "a"]] ∧
    expand schema upwards false .any (some [[]]) .all = .ok upwards ∧
    expand schema [] true .any none .none = .ok downwards ∧
    ∀ type, (∃ c ∈ downwards, c.tip.type = type) ↔
      type ∈ schema.types.values ∧ type.children.keys = [] := by
  have run : (do
      let schema ← (Schema.ofDescription crossing).toOption
      let frontier ← (parse schema ">a>b>d" none).toOption
      let upwards ← (expand schema frontier false .any (some [[some "x"]]) .furthest).toOption
      pure (schema.edges.map fun e => (e.relation.parent, e.relation.child),
        upwards.map fun c => c.steps.map fun s => s.type.name)) =
      some ([("a", "d"), ("a", "b"), ("a", "c"), ("b", "d"), ("c", "d")],
        [["a", "d", "b", "a"], ["a", "b", "d", "b", "a"], ["a", "c", "d", "b", "a"]]) := by
    decide +kernel
  simp only [Option.bind_eq_bind, Option.pure_def, Option.bind_eq_some_iff, toOption_eq_some,
    Option.some.injEq, Prod.mk.injEq] at run
  obtain ⟨schema, accepted, frontier, parsed, upwards, done, pairs, names⟩ := run
  have acyclic : schema.Acyclic := by
    refine Schema.acyclic_of_rank ["a", "b", "c", "d"].idxOf fun e inside => ?_
    have listed := List.mem_map_of_mem (f := fun e => (e.relation.parent, e.relation.child)) inside
    rw [pairs] at listed
    have ascending : ∀ pair ∈ [("a", "d"), ("a", "b"), ("a", "c"), ("b", "d"), ("c", "d")],
        ["a", "b", "c", "d"].idxOf pair.1 < ["a", "b", "c", "d"].idxOf pair.2 := by decide
    exact ascending _ listed
  have within : ∀ c ∈ frontier, ∀ s ∈ c.steps, s.type ∈ schema.types.values :=
    Keeps.parse (fun _ _ => .ofSteps (fun _ _ _ known => known) fun _ known => known)
      (fun _ inside => inside) parsed
  obtain ⟨further, exists_downwards, tips⟩ := wildcard_comes_to_ends accepted acyclic
  obtain ⟨downwards, fromRoot⟩ := exists_downwards .none
  exact ⟨schema, frontier, upwards, downwards, accepted, acyclic, parsed, done, names,
    (further frontier within false _ _ upwards done).2 _ .all (by simp), fromRoot,
    tips none .none downwards fromRoot⟩

end Chain

end ObjectQuery

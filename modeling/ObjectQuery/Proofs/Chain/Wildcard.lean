import ObjectQuery.Proofs.Chain.Growth
import ObjectQuery.Proofs.Chain.Walk
import ObjectQuery.Report

/-! Wildcard expansion goes round by round over all branches, but what it comes to is the listing
of all walks, one starting chain after the other. A round is the last where no branch has grown,
which can be seen from the numbers of steps alone. -/
namespace ObjectQuery.Chain

open Outcome

variable {schema : Schema} {down matched : Bool} {ids : Option IdList}

namespace Branch

/-- The branch with one more step. -/
def advance (down : Bool) (ids : Option IdList) (matched : Bool) (b : Branch)
    (next : ObjectType) : Branch :=
  ⟨⟨⟨down, next, ids, matched⟩, b.chain.steps⟩, b.depth + 1⟩

/-- What a branch becomes in one round. -/
def offspring (schema : Schema) (down : Bool) (ids : Option IdList) (matched : Bool)
    (b : Branch) : List Branch :=
  if b.exits down = [] then [b]
  else ((b.exits down).filterMap schema.type?).map (b.advance down ids matched)

theorem exits_eq (b : Branch) (down : Bool) :
    b.exits down = b.chain.tip.type.exits down b.visited := rfl

theorem offspring_closed {b : Branch} (closed : b.exits down = []) :
    b.offspring schema down ids matched = [b] := if_pos closed

theorem grow_closed {b : Branch} (closed : b.exits down = []) :
    b.grow schema down ids matched = .ok [b] := by
  rw [grow, closed]

theorem visited_advance (b : Branch) (next : ObjectType) :
    (b.advance down ids matched next).visited = next.name :: b.visited := by
  simp [visited, advance, steps]

theorem advance_of_extend {b g : Branch} {name : String}
    (done : (do pure ⟨← extend schema down ids matched b.chain name, b.depth + 1⟩) =
      (.ok g : Except PatternFault Branch)) :
    ∃ next, schema.type? name = some next ∧ b.advance down ids matched next = g := by
  obtain ⟨c, made, rfl⟩ : ∃ c, extend schema down ids matched b.chain name = .ok c ∧
      ⟨c, b.depth + 1⟩ = g := by simpa using done
  obtain ⟨next, found, made⟩ := extend_eq_ok.mp made
  obtain ⟨_, _, rfl⟩ := make_eq_ok.mp made
  exact ⟨next, found, rfl⟩

theorem grow_eq_offspring {b : Branch} {grown : List Branch}
    (done : b.grow schema down ids matched = .ok grown) :
    b.offspring schema down ids matched = grown := by
  unfold grow at done
  unfold offspring
  split at done
  · next closed => rw [if_pos closed, Except.ok.inj done]
  · next opened =>
    rw [if_neg opened, List.map_filterMap]
    refine filterMap_of_mapM (fun name _ g step => ?_) done
    obtain ⟨next, found, rfl⟩ := advance_of_extend step
    rw [found, Option.map_some]

/-- The number of steps. -/
def length (b : Branch) : Nat := b.chain.steps.length

/-- The number of steps of all branches. -/
def total : List Branch → Nat
  | [] => 0
  | b :: rest => b.length + total rest

@[simp] theorem total_nil : total [] = 0 := rfl

@[simp] theorem total_cons (b : Branch) (rest : List Branch) :
    total (b :: rest) = b.length + total rest := rfl

@[simp] theorem total_append (front back : List Branch) :
    total (front ++ back) = total front + total back := by
  induction front with
  | nil => simp
  | cons b front ih => simp [ih, Nat.add_assoc]

theorem total_eq_outlines (branches : List Branch) :
    total branches = ((branches.map chain).map outline).flatten.length := by
  induction branches with
  | nil => rfl
  | cons b branches ih =>
    simp only [total_cons, ih, List.map_cons, List.flatten_cons, List.length_append, length,
      outline, List.length_map]

/-- A branch that has exits gets longer, however many branches it becomes. -/
theorem grow_longer {b : Branch} {grown : List Branch}
    (done : b.grow schema down ids matched = .ok grown) (opened : b.exits down ≠ []) :
    b.length < total grown := by
  unfold grow at done
  split at done
  · contradiction
  · obtain ⟨name, exit⟩ := List.exists_mem_of_ne_nil _ opened
    obtain ⟨g, member, step⟩ := ok_of_mapM done exit
    obtain ⟨next, _, rfl⟩ := advance_of_extend step
    obtain ⟨front, back, rfl⟩ := List.append_of_mem member
    have one : (b.advance down ids matched next).length = b.length + 1 := by
      simp [length, advance, steps]
    simp [one]
    omega

end Branch

theorem flatMap_eq_map {α β : Type} {f : α → List β} {g : α → β} {l : List α}
    (single : ∀ a ∈ l, f a = [g a]) : l.flatMap f = l.map g := by
  rw [List.flatMap_def, List.map_congr_left single, ← List.flatMap_def, ← List.map_eq_flatMap]

theorem round_eq_offspring {branches grown : List Branch}
    (done : round schema down ids matched branches = .ok grown) :
    branches.flatMap (Branch.offspring schema down ids matched) = grown := by
  obtain ⟨lists, each, rfl⟩ : ∃ lists, branches.mapM (Branch.grow schema down ids matched) =
      .ok lists ∧ lists.flatten = grown := by simpa [round] using done
  have same := map_of_mapM (g := id)
    (fun b _ list step => (Branch.grow_eq_offspring step).symm) each
  rw [List.flatMap_def, ← same, List.map_id]

/-- A round makes the branches longer together, unless none of them has an exit. -/
theorem round_longer {branches grown : List Branch}
    (done : round schema down ids matched branches = .ok grown) :
    Branch.total branches ≤ Branch.total grown ∧
      (Branch.total branches = Branch.total grown → ∀ b ∈ branches, b.exits down = []) := by
  induction branches generalizing grown with
  | nil =>
    obtain rfl : [] = grown := by simpa [round] using done
    simp
  | cons b branches ih =>
    obtain ⟨first, grows, lists, each, rfl⟩ : ∃ first, b.grow schema down ids matched = .ok first ∧
        ∃ lists, branches.mapM (Branch.grow schema down ids matched) = .ok lists ∧
          first ++ lists.flatten = grown := by simpa [round] using done
    have later : round schema down ids matched branches = .ok lists.flatten := by
      simp [round, each]
    obtain ⟨longer, equal⟩ := ih later
    by_cases closed : b.exits down = []
    · have same := Branch.grow_eq_offspring grows
      rw [Branch.offspring_closed closed] at same
      subst same
      simp only [List.singleton_append, Branch.total_cons, List.forall_mem_cons]
      exact ⟨by omega, fun sums => ⟨closed, equal (by omega)⟩⟩
    · have grew := Branch.grow_longer grows closed
      simp only [Branch.total_append, Branch.total_cons]
      exact ⟨by omega, fun sums => by omega⟩

theorem map_outline_eq {as bs : List Chain} (same : (as == bs) = true) :
    as.map outline = bs.map outline := by
  induction as generalizing bs with
  | nil =>
    cases bs with
    | nil => rfl
    | cons => cases same
  | cons a as ih =>
    cases bs with
    | nil => cases same
    | cons b bs =>
      obtain ⟨first, rest⟩ : (a == b) = true ∧ (as == bs) = true := by simpa using same
      rw [List.map_cons, List.map_cons, beq_iff.mp first, ih rest]

/-- Where a round leaves the chains equal, no branch had an exit, and the branches are the same. -/
theorem round_settled {branches grown : List Branch}
    (done : round schema down ids matched branches = .ok grown)
    (same : (grown.map Branch.chain == branches.map Branch.chain) = true) :
    (∀ b ∈ branches, b.exits down = []) ∧ grown = branches := by
  have totals : Branch.total grown = Branch.total branches := by
    rw [Branch.total_eq_outlines, Branch.total_eq_outlines, map_outline_eq same]
  have closed := (round_longer done).2 totals.symm
  refine ⟨closed, ?_⟩
  rw [← round_eq_offspring done,
    flatMap_eq_map fun b member => Branch.offspring_closed (closed b member), List.map_id']

/-- Rounds are over where no branch has an exit. -/
theorem settled_iff {branches grown : List Branch}
    (done : round schema down ids matched branches = .ok grown) :
    (grown.map Branch.chain == branches.map Branch.chain) = true ↔
      ∀ b ∈ branches, b.exits down = [] := by
  constructor
  · intro same
    exact (round_settled done same).1
  · intro closed
    have stays : grown = branches := by
      rw [← round_eq_offspring done,
        flatMap_eq_map fun b member => Branch.offspring_closed (closed b member), List.map_id']
    rw [stays]
    exact BEq.rfl

/-- A chain with a step to each type of a walk. -/
def along (down : Bool) (ids : Option IdList) (matched : Bool) (c : Chain) :
    List ObjectType → Chain
  | [] => c
  | next :: rest => along down ids matched ⟨⟨down, next, ids, matched⟩, c.steps⟩ rest

/-- The chains that a branch leads to. -/
def Branch.outcomes (schema : Schema) (down : Bool) (ids : Option IdList) (matched : Bool)
    (rounds : Nat) (b : Branch) : List Chain :=
  (walksWithin schema down rounds b.chain.tip.type b.visited).map (b.chain.along down ids matched)

theorem outcomes_closed {b : Branch} (closed : b.exits down = []) (rounds : Nat) :
    b.outcomes schema down ids matched rounds = [b.chain] := by
  rw [Branch.exits_eq] at closed
  cases rounds <;> simp [Branch.outcomes, walksWithin, closed, along]

theorem outcomes_succ (b : Branch) (rounds : Nat) :
    b.outcomes schema down ids matched (rounds + 1) =
      (b.offspring schema down ids matched).flatMap
        (Branch.outcomes schema down ids matched rounds) := by
  by_cases closed : b.exits down = []
  · rw [Branch.offspring_closed closed, List.flatMap_singleton, outcomes_closed closed,
      outcomes_closed closed]
  · rw [Branch.offspring, if_neg closed, Branch.outcomes, walksWithin,
      if_neg (Branch.exits_eq b down ▸ closed), List.map_flatMap, List.flatMap_map, Branch.exits_eq]
    congr 1
    funext next
    rw [Branch.outcomes, Branch.visited_advance, List.map_map]
    rfl

/-- However many rounds it takes, each branch comes to its walks. -/
theorem settle_eq_outcomes {rounds : Nat} {branches settled : List Branch}
    (done : settle schema down ids matched rounds branches = .ok settled) :
    settled.map Branch.chain =
      branches.flatMap (Branch.outcomes schema down ids matched rounds) := by
  induction rounds generalizing branches with
  | zero =>
    obtain rfl : branches = settled := by simpa [settle] using done
    exact (flatMap_eq_map fun b _ => rfl).symm
  | succ rounds ih =>
    rw [settle] at done
    obtain ⟨grown, first, done⟩ := bind_eq_ok.mp done
    split at done
    · next same =>
      obtain rfl := pure_eq_ok.mp done
      obtain ⟨closed, rfl⟩ := round_settled first same
      exact (flatMap_eq_map fun b member => outcomes_closed (closed b member) (rounds + 1)).symm
    · rw [ih done, ← round_eq_offspring first, List.flatMap_assoc]
      congr 1
      funext b
      exact (outcomes_succ b rounds).symm

/-- All but the marks. -/
def unmarked (c : Chain) : List (Bool × ObjectType × Option IdList) :=
  c.steps.map fun s => (s.down, s.type, s.ids)

theorem unmarked_along (c d : Chain) (same : c.unmarked = d.unmarked) (other : Bool)
    (walk : List ObjectType) :
    (c.along down ids matched walk).unmarked = (d.along down ids other walk).unmarked := by
  induction walk generalizing c d with
  | nil => exact same
  | cons next rest ih =>
    refine ih ⟨⟨down, next, ids, matched⟩, c.steps⟩ ⟨⟨down, next, ids, other⟩, d.steps⟩ ?_
    simpa [unmarked, steps] using same

/-- The chain of a single step to a type. -/
def root (type : ObjectType) (ids : Option IdList) (matched : Bool) : Chain :=
  ⟨⟨true, type, ids, matched⟩, []⟩

/-- The chains that a wildcard goes on from, root steps to all types where there is no frontier. -/
def origins (schema : Schema) (frontier : List Chain) (ids : Option IdList) (matched : Bool) :
    List Chain :=
  if frontier.isEmpty then schema.types.values.map fun type => root type ids matched else frontier

theorem seeds_eq_origins {frontier : List Chain} {branches : List Branch}
    (done : seeds schema frontier ids matched = .ok branches) :
    branches.map (fun b => (b.chain, b.visited)) =
      (origins schema frontier ids matched).map fun c => (c, [c.tip.type.name]) := by
  unfold seeds at done
  unfold origins
  split at done
  · next empty =>
    rw [if_pos empty, List.map_map]
    refine map_of_mapM (fun type _ b step => ?_) done
    obtain ⟨c, made, rfl⟩ : ∃ c, make none true type ids matched = .ok c ∧ ⟨c, 1⟩ = b := by
      simpa using step
    obtain ⟨_, _, rfl⟩ := make_eq_ok.mp made
    rfl
  · next nonempty =>
    obtain rfl : frontier.map (fun c => ⟨c, 0⟩) = branches := by simpa using done
    rw [if_neg nonempty, List.map_map]
    rfl

/-- Expansion of a wildcard is the listing of walks from one origin after the other. -/
theorem expandAny_eq_walks {frontier chains : List Chain}
    (done : expandAny schema frontier down ids matched = .ok chains) :
    chains = (origins schema frontier ids matched).flatMap fun c =>
      (walksWithin schema down (schema.types.size + 1) c.tip.type [c.tip.type.name]).map
        (c.along down ids matched) := by
  obtain ⟨branches, first, settled, last, rfl⟩ : ∃ branches,
      seeds schema frontier ids matched = .ok branches ∧ ∃ settled,
      settle schema down ids matched (schema.types.size + 1) branches = .ok settled ∧
      settled.map Branch.chain = chains := by simpa [expandAny] using done
  have starts := congrArg
    (List.flatMap fun p : Chain × List String =>
      (walksWithin schema down (schema.types.size + 1) p.1.tip.type p.2).map
        (p.1.along down ids matched)) (seeds_eq_origins first)
  rw [List.flatMap_map, List.flatMap_map] at starts
  rw [settle_eq_outcomes last, ← starts]
  rfl

/-- Marks apart, every scope comes to the same chains. -/
theorem expand_any_unmarked {frontier chains : List Chain} {scope : Scope}
    (done : expand schema frontier down .any ids scope = .ok chains) :
    (frontier = [] → down = true) ∧
      chains.map unmarked = (origins schema frontier ids false).flatMap fun c =>
        (walksWithin schema down (schema.types.size + 1) c.tip.type [c.tip.type.name]).map
          fun walk => (c.along down ids false walk).unmarked := by
  obtain ⟨based, plain, settled, rfl⟩ := expand_any_eq_ok.mp done
  have same : (plain.map fun c => if scope = .furthest then c.mark true else c).map unmarked =
      plain.map unmarked := by
    rw [List.map_map]
    refine List.map_congr_left fun c _ => ?_
    rw [Function.comp_apply]
    split <;> rfl
  have spread (c d : Chain) (alike : c.unmarked = d.unmarked) (tips : c.tip.type = d.tip.type) :
      ((walksWithin schema down (schema.types.size + 1) c.tip.type [c.tip.type.name]).map
          (c.along down ids (scope == .all))).map unmarked =
        (walksWithin schema down (schema.types.size + 1) d.tip.type [d.tip.type.name]).map
          fun walk => (d.along down ids false walk).unmarked := by
    rw [List.map_map, tips]
    exact List.map_congr_left fun walk _ => unmarked_along c d alike false walk
  refine ⟨based, ?_⟩
  rw [same, expandAny_eq_walks settled, List.map_flatMap]
  unfold origins
  split
  · rw [List.flatMap_map, List.flatMap_map]
    congr 1
    funext type
    exact spread _ _ rfl rfl
  · congr 1
    funext c
    exact spread c c rfl rfl

/-- A wildcard goes on from each chain along all walks from its type, listed depth first, and
without a frontier from a root step to each type. Where there is nothing to step into, the chain
stays as it is. -/
theorem wildcard_lists_walks {description : Description}
    (accepted : Schema.ofDescription description = .ok schema) {frontier chains : List Chain}
    {scope : Scope} (done : expand schema frontier down .any ids scope = .ok chains) :
    ∃ walks : ObjectType → List (List ObjectType),
      (∀ type, Walk.Listing schema down type [type.name] (walks type)) ∧
      (∀ type, (∀ name ∈ (type.related down).keys, name = type.name) → walks type = [[]]) ∧
      (frontier ≠ [] → chains.map unmarked = frontier.flatMap fun c =>
        (walks c.tip.type).map fun walk => (c.along down ids false walk).unmarked) ∧
      (frontier = [] → down = true ∧ schema.types.keys = description.keys ∧
        chains.map unmarked = schema.types.values.flatMap fun type =>
          (walks type).map fun walk =>
            ((root type ids false).along down ids false walk).unmarked) := by
  obtain ⟨based, lists⟩ := expand_any_unmarked done
  have sound := Schema.ofDescription_sound accepted
  refine ⟨fun type => walksWithin schema down (schema.types.size + 1) type [type.name],
    fun type => ?_, fun type closed => ?_, fun nonempty => ?_,
    fun empty => ⟨based empty, Schema.ofDescription_keys accepted, ?_⟩⟩
  · have := room_le_size schema [type.name]
    exact walksWithin_listing sound (by omega)
  · exact if_pos (exits_eq_nil.mpr (by simpa using closed))
  · simpa [origins, nonempty] using lists
  · simpa [origins, empty, List.flatMap_map, root] using lists

/-- A letter is an ID and nothing else. -/
def letter (children : List String) : TypeDescription :=
  Report.describeParent [("id", Report.text)] ["id"] "id" "id" children

/-- A type for each letter, with a relation to itself, cycles, and two ways from `a` to `d`. -/
def letters : Description :=
  .ofList [("a", letter ["a", "b", "c"]), ("b", letter ["d"]), ("c", letter ["d", "a"]),
    ("d", letter ["b"])]

theorem wildcard_lists_walks_of_letters : ∃ schema frontier chains,
    Schema.ofDescription letters = .ok schema ∧
    expand schema frontier true .any (some [[some "x"]]) .furthest = .ok chains ∧
    chains.map (fun c => c.steps.map fun s => s.type.name) =
      [["b", "d", "c"], ["d", "b", "a", "c"]] ∧
    ∃ walks : ObjectType → List (List ObjectType),
      (∀ type, Walk.Listing schema true type [type.name] (walks type)) ∧
      chains.map unmarked = frontier.flatMap fun c => (walks c.tip.type).map fun walk =>
        (c.along true (some [[some "x"]]) false walk).unmarked := by
  have run : (do
      let schema ← (Schema.ofDescription letters).toOption
      let type ← schema.type? "c"
      let chains ← (expand schema [root type none false] true .any (some [[some "x"]])
        .furthest).toOption
      pure (chains.map fun c => c.steps.map fun s => s.type.name)) =
        some [["b", "d", "c"], ["d", "b", "a", "c"]] := by decide +kernel
  simp only [Option.bind_eq_bind, Option.pure_def, Option.bind_eq_some_iff, toOption_eq_some,
    Option.some.injEq] at run
  obtain ⟨schema, accepted, type, _, chains, expanded, names⟩ := run
  obtain ⟨walks, listed, _, spread, _⟩ := wildcard_lists_walks accepted expanded
  exact ⟨schema, [root type none false], chains, accepted, expanded, names, walks, listed,
    spread (by simp)⟩

end ObjectQuery.Chain

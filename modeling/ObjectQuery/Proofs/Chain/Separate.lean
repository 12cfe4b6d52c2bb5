import ObjectQuery.Proofs.Chain.Wildcard
import ObjectQuery.Proofs.Correspondence

/-! A wildcard goes on from each chain by itself. Its rounds go over all branches at once, and they
go on until none of them grows, but a branch that has come to its end is not touched by the rounds
that others still need. Nor does it matter how a root step came about: a wildcard without a frontier
goes on as it would from a frontier of root steps. -/
namespace ObjectQuery.Chain

open Outcome

variable {schema : Schema} {down matched : Bool} {ids : Option IdList}

namespace Branch

/-- The branch, and whatever it grows to, can be grown for so many rounds. -/
def Lasts (schema : Schema) (down : Bool) (ids : Option IdList) (matched : Bool) :
    Nat → Branch → Prop
  | 0, _ => True
  | rounds + 1, b => ∃ grown, b.grow schema down ids matched = .ok grown ∧
      ∀ g ∈ grown, g.Lasts schema down ids matched rounds

theorem lasts_of_closed {b : Branch} (closed : b.exits down = []) (rounds : Nat) :
    b.Lasts schema down ids matched rounds := by
  induction rounds with
  | zero => trivial
  | succ rounds ih => exact ⟨[b], grow_closed closed, by simpa using ih⟩

end Branch

/-- Branches settle together where each of them lasts for itself. -/
theorem settle_ok_iff {rounds : Nat} {branches : List Branch} :
    (∃ settled, settle schema down ids matched rounds branches = .ok settled) ↔
      ∀ b ∈ branches, b.Lasts schema down ids matched rounds := by
  induction rounds generalizing branches with
  | zero => simp [settle, Branch.Lasts]
  | succ rounds ih =>
    constructor
    · rintro ⟨settled, done⟩ b member
      rw [settle] at done
      obtain ⟨grown, first, done⟩ := bind_eq_ok.mp done
      split at done
      · next same => exact Branch.lasts_of_closed ((round_settled first same).1 b member) _
      · have later := ih.mp ⟨settled, done⟩
        obtain ⟨lists, each, rfl⟩ : ∃ lists, branches.mapM (Branch.grow schema down ids matched) =
            .ok lists ∧ lists.flatten = grown := by simpa [round] using first
        obtain ⟨own, inside, grew⟩ := ok_of_mapM each member
        exact ⟨own, grew, fun g within => later g (List.mem_flatten.mpr ⟨own, inside, within⟩)⟩
    · intro lasts
      obtain ⟨lists, each⟩ := mapM_ok_iff.mpr fun b member => (lasts b member).imp fun _ => And.left
      have first : round schema down ids matched branches = .ok lists.flatten := by
        simp [round, each]
      have later : ∀ g ∈ lists.flatten, g.Lasts schema down ids matched rounds := by
        intro g within
        obtain ⟨own, inside, within⟩ := List.mem_flatten.mp within
        obtain ⟨b, member, grew⟩ := mem_of_mapM each inside
        obtain ⟨same, again, further⟩ := lasts b member
        obtain rfl := Except.ok.inj (grew.symm.trans again)
        exact further g within
      rw [settle, first]
      simp only [bind, Except.bind]
      split
      · exact ⟨_, rfl⟩
      · exact ih.mpr later

theorem expandAny_ok_iff {frontier : List Chain} (nonempty : frontier ≠ []) :
    (∃ chains, expandAny schema frontier down ids matched = .ok chains) ↔
      ∀ c ∈ frontier, Branch.Lasts schema down ids matched (schema.types.size + 1) ⟨c, 0⟩ := by
  have started : seeds schema frontier ids matched = .ok (frontier.map fun c => ⟨c, 0⟩) := by
    simp [seeds, nonempty]
  have lasts : (∃ settled, settle schema down ids matched (schema.types.size + 1)
      (frontier.map fun c => ⟨c, 0⟩) = .ok settled) ↔
      ∀ b ∈ frontier.map fun c => (⟨c, 0⟩ : Branch),
        b.Lasts schema down ids matched (schema.types.size + 1) := settle_ok_iff
  rw [List.forall_mem_map] at lasts
  rw [← lasts, expandAny, started]
  simp

theorem expandAny_append {first second chains : List Chain} (some : first ≠ [])
    (others : second ≠ []) :
    expandAny schema (first ++ second) down ids matched = .ok chains ↔
      ∃ left right, expandAny schema first down ids matched = .ok left ∧
        expandAny schema second down ids matched = .ok right ∧ left ++ right = chains := by
  have both : first ++ second ≠ [] := by simp [some]
  have result {left right joined : List Chain}
      (onLeft : expandAny schema first down ids matched = .ok left)
      (onRight : expandAny schema second down ids matched = .ok right)
      (onBoth : expandAny schema (first ++ second) down ids matched = .ok joined) :
      left ++ right = joined := by
    rw [expandAny_eq_walks onLeft, expandAny_eq_walks onRight, expandAny_eq_walks onBoth]
    simp [origins, some, others]
  constructor
  · intro done
    have lasts := List.forall_mem_append.mp ((expandAny_ok_iff both).mp ⟨chains, done⟩)
    obtain ⟨left, onLeft⟩ := (expandAny_ok_iff some).mpr lasts.1
    obtain ⟨right, onRight⟩ := (expandAny_ok_iff others).mpr lasts.2
    exact ⟨left, right, onLeft, onRight, result onLeft onRight done⟩
  · rintro ⟨left, right, onLeft, onRight, rfl⟩
    obtain ⟨joined, done⟩ := (expandAny_ok_iff both).mpr (List.forall_mem_append.mpr
      ⟨(expandAny_ok_iff some).mp ⟨left, onLeft⟩, (expandAny_ok_iff others).mp ⟨right, onRight⟩⟩)
    rw [done, result onLeft onRight done]

theorem expand_any_append {first second chains : List Chain} (some : first ≠ [])
    (others : second ≠ []) {scope : Scope} :
    expand schema (first ++ second) down .any ids scope = .ok chains ↔
      ∃ left right, expand schema first down .any ids scope = .ok left ∧
        expand schema second down .any ids scope = .ok right ∧ left ++ right = chains := by
  have both : first ++ second ≠ [] := by simp [some]
  simp only [expand_any_eq_ok, expandAny_append some others, some, others, both, false_implies,
    true_and]
  constructor
  · rintro ⟨_, ⟨left, right, onLeft, onRight, rfl⟩, rfl⟩
    exact ⟨_, _, ⟨left, onLeft, rfl⟩, ⟨right, onRight, rfl⟩, List.map_append.symm⟩
  · rintro ⟨_, _, ⟨left, onLeft, rfl⟩, ⟨right, onRight, rfl⟩, rfl⟩
    exact ⟨_, ⟨left, right, onLeft, onRight, rfl⟩, List.map_append⟩

/-- Branches that go on alike, though they may have started elsewhere. -/
structure Branch.Level (a b : Branch) : Prop where
  chain : a.chain = b.chain
  visited : a.visited = b.visited

section Level

variable (schema down matched ids)

theorem grow_level {a b : Branch} (level : a.Level b) :
    Abreast True (Matched True Branch.Level) (a.grow schema down ids matched)
      (b.grow schema down ids matched) := by
  have exits : a.exits down = b.exits down := by
    rw [Branch.exits_eq, Branch.exits_eq, level.chain, level.visited]
  rw [Branch.grow, Branch.grow, exits]
  split
  · exact .ok (.single level)
  · refine .mapM_same _ fun name => ?_
    rw [level.chain]
    cases extended : extend schema down ids matched b.chain name with
    | error fault => exact .fault fault
    | ok c =>
      obtain ⟨next, _, made⟩ := extend_eq_ok.mp extended
      obtain ⟨_, _, rfl⟩ := make_eq_ok.mp made
      exact .ok ⟨rfl, by simpa [Branch.visited, steps, level.chain] using level.visited⟩

theorem settle_level (rounds : Nat) {as bs : List Branch}
    (level : Matched True Branch.Level as bs) :
    Abreast True (Matched True Branch.Level) (settle schema down ids matched rounds as)
      (settle schema down ids matched rounds bs) := by
  induction rounds generalizing as bs with
  | zero => exact .ok level
  | succ rounds ih =>
    have first : Abreast True (Matched True Branch.Level) (round schema down ids matched as)
        (round schema down ids matched bs) :=
      (Abreast.mapM level fun _ _ => grow_level schema down matched ids).map
        fun _ _ grown => grown.flatten
    rw [settle, settle]
    refine first.bind fun grown others further => ?_
    rw [level.map_eq trivial fun _ _ => Branch.Level.chain,
      further.map_eq trivial fun _ _ => Branch.Level.chain]
    split
    · exact .ok further
    · exact ih further

end Level

/-- The root steps to all types, or the fault of the first that cannot be made. -/
def rootSteps (schema : Schema) (ids : Option IdList) (matched : Bool) :
    Except PatternFault (List Chain) :=
  schema.types.values.mapM fun type => make none true type ids matched

theorem seeds_root : seeds schema [] ids matched =
    (do pure ((← rootSteps schema ids matched).map fun c => ⟨c, 1⟩)) :=
  mapM_pure _ _ _

theorem rootSteps_before {roots : List Chain} (made : rootSteps schema ids matched = .ok roots) :
    ∀ c ∈ roots, c.before = [] := by
  intro c member
  obtain ⟨type, _, step⟩ := mem_of_mapM made member
  obtain ⟨_, _, rfl⟩ := make_eq_ok.mp step
  rfl

/-- A root step has been added to nothing, so it does not matter whether it counts as added. -/
theorem roots_level {roots : List Chain} (made : rootSteps schema ids matched = .ok roots) :
    Matched True Branch.Level (roots.map fun c => ⟨c, 1⟩) (roots.map fun c => ⟨c, 0⟩) := by
  have lone : Matched True (fun c d : Chain => c = d ∧ c.before = []) roots roots :=
    (Matched.refl roots).imp fun c inside d _ same => ⟨same, rootSteps_before made c inside⟩
  refine lone.map fun c d ⟨same, first⟩ => ⟨same, ?_⟩
  subst same
  simp [Branch.visited, steps, first]

theorem expandAny_rootSteps {roots : List Chain}
    (made : rootSteps schema ids matched = .ok roots) :
    expandAny schema [] down ids matched = expandAny schema roots down ids matched := by
  by_cases none : roots = []
  · rw [none]
  · have started : seeds schema roots ids matched = .ok (roots.map fun c => ⟨c, 0⟩) := by
      simp [seeds, none]
    have settled := settle_level schema down matched ids (schema.types.size + 1) (roots_level made)
    rw [expandAny, expandAny, seeds_root, made, started]
    simp only [bind, Except.bind, pure, Except.pure]
    rcases settled.outcomes trivial with ⟨fault, left, right⟩ | ⟨as, bs, left, right, level⟩
    · rw [left, right]
    · rw [left, right]
      simp only [level.map_eq trivial fun _ _ => Branch.Level.chain]

theorem expand_any_rootSteps {roots : List Chain} {scope : Scope}
    (made : rootSteps schema ids (scope == .all) = .ok roots) :
    expand schema [] true .any ids scope = expand schema roots true .any ids scope := by
  rw [expand_any (fun _ => rfl), expand_any (fun _ => rfl), expandAny_rootSteps made]

theorem expand_any_rootSteps_error {fault : PatternFault} {scope : Scope}
    (failed : rootSteps schema ids (scope == .all) = .error fault) :
    expand schema [] true .any ids scope = .error fault := by
  rw [expand_any (fun _ => rfl), expandAny, seeds_root, failed]
  rfl

/-- The first root step that cannot be made is at fault, and in it the first ID of a wrong
length. -/
theorem rootSteps_error {fault : PatternFault}
    (failed : rootSteps schema ids matched = .error fault) :
    ∃ before type after list id, schema.types.values = before ++ type :: after ∧
      (∀ other ∈ before, Fits other ids) ∧ ids = some list ∧
      list.find? (fun id => id.length ≠ type.idFields.length) = some id ∧
      fault = .idLength type.name type.idFields.length id.length := by
  obtain ⟨before, type, after, split, ⟨_, earlier⟩, blamed⟩ := error_of_mapM failed
  have fits : ∀ other ∈ before, Fits other ids := fun other inside => by
    obtain ⟨_, _, made⟩ := ok_of_mapM earlier inside
    exact (make_eq_ok.mp made).2.1
  have checked : checkIds type ids = .error fault := by
    have based : checkBase none true type = .ok () := rfl
    rw [make, based] at blamed
    rcases bind_eq_error.mp blamed with unbased | ⟨_, _, blamed⟩
    · cases unbased
    · rcases bind_eq_error.mp blamed with checked | ⟨_, _, made⟩
      · exact checked
      · cases made
  unfold checkIds at checked
  split at checked
  · next id found =>
    obtain rfl := Except.error.inj checked
    cases ids with
    | none => cases found
    | some list => exact ⟨before, type, after, list, id, split, fits, rfl, found, rfl⟩
  · cases checked

/-- From two frontiers, one behind the other, a wildcard comes to what it comes to from each of
them, and it fails from both if it fails from one. Without a frontier it does what it does from a
frontier of root steps to all types, or fails for the first of these that does not fit the IDs. -/
theorem wildcard_goes_by_chain (schema : Schema) (down : Bool) (ids : Option IdList)
    (scope : Scope) :
    (∀ first second : List Chain, first ≠ [] → second ≠ [] → ∀ chains,
      expand schema (first ++ second) down .any ids scope = .ok chains ↔
        ∃ left right, expand schema first down .any ids scope = .ok left ∧
          expand schema second down .any ids scope = .ok right ∧ left ++ right = chains) ∧
    (∀ roots, rootSteps schema ids (scope == .all) = .ok roots →
      expand schema [] true .any ids scope = expand schema roots true .any ids scope) ∧
    ∀ fault, rootSteps schema ids (scope == .all) = .error fault →
      expand schema [] true .any ids scope = .error fault ∧
      ∃ before type after list id, schema.types.values = before ++ type :: after ∧
        (∀ other ∈ before, Fits other ids) ∧ ids = some list ∧
        list.find? (fun id => id.length ≠ type.idFields.length) = some id ∧
        fault = .idLength type.name type.idFields.length id.length :=
  ⟨fun _ _ some others _ => expand_any_append some others, fun _ => expand_any_rootSteps,
    fun _ failed => ⟨expand_any_rootSteps_error failed, rootSteps_error failed⟩⟩

/-- From the letter `c` and from a test, which is no letter and leads nowhere. Over reports, two
components fit a revision but not a checkout. -/
theorem wildcard_goes_by_chain_of_letters : ∃ schema reports first second left right roots,
    Schema.ofDescription letters = .ok schema ∧ Report.schema = .ok reports ∧
    expand schema [first] true .any (some [[some "x"]]) .furthest = .ok left ∧
    expand schema [second] true .any (some [[some "x"]]) .furthest = .ok right ∧
    expand schema [first, second] true .any (some [[some "x"]]) .furthest = .ok (left ++ right) ∧
    (left ++ right).map (fun c => c.steps.map fun s => s.type.name) =
      [["b", "d", "c"], ["d", "b", "a", "c"], ["test"]] ∧
    rootSteps schema none true = .ok roots ∧ roots.length = 4 ∧
    expand schema [] true .any none .all = expand schema roots true .any none .all ∧
    expand reports [] true .any (some [[some "x", none]]) .none =
      .error (.idLength "checkout" 1 2) := by
  have run : (do
      let schema ← (Schema.ofDescription letters).toOption
      let reports ← Report.schema.toOption
      let c ← schema.type? "c"
      let test ← reports.type? "test"
      let left ← (expand schema [root c none false] true .any (some [[some "x"]])
        .furthest).toOption
      let right ← (expand schema [root test none false] true .any (some [[some "x"]])
        .furthest).toOption
      let roots ← (rootSteps schema none true).toOption
      let fault ← error? (rootSteps reports (some [[some "x", none]]) false)
      pure ((left ++ right).map (fun c => c.steps.map fun s => s.type.name), roots.length,
        fault)) =
      some ([["b", "d", "c"], ["d", "b", "a", "c"], ["test"]], 4, .idLength "checkout" 1 2) := by
    decide +kernel
  simp only [Option.bind_eq_bind, Option.pure_def, Option.bind_eq_some_iff, toOption_eq_some,
    error?_eq_some, Option.some.injEq, Prod.mk.injEq] at run
  obtain ⟨schema, accepted, reports, ofReports, c, _, test, _, left, onLeft, right, onRight, roots,
    made, _, failed, names, four, rfl⟩ := run
  have joined := ((wildcard_goes_by_chain schema true (some [[some "x"]]) .furthest).1
    [root c none false] [root test none false] (by simp) (by simp) _).mpr
    ⟨left, right, onLeft, onRight, rfl⟩
  have fromRoots := (wildcard_goes_by_chain schema true none .all).2.1 roots made
  have refuses := (wildcard_goes_by_chain reports true (some [[some "x", none]]) .none).2.2 _ failed
  exact ⟨schema, reports, _, _, left, right, roots, accepted, ofReports, onLeft, onRight, joined,
    names, made, four, fromRoots, refuses.1⟩

end ObjectQuery.Chain

import ObjectQuery.Proofs.Chain.Wildcard

/-! The paths that chains take through the graph of types. The chains that a pattern string comes to
take different paths, and none of them goes on from where another ends. Expansion keeps this:
chains that have parted never meet again, and what goes on from one chain parts at its next
steps. -/
namespace ObjectQuery

open Outcome

/-- Neither of the two goes on from the other. -/
def Apart {α : Type} (p q : List α) : Prop := ¬ p <+: q ∧ ¬ q <+: p

namespace Apart

variable {α : Type} {p q : List α}

theorem symm (apart : Apart p q) : Apart q p := ⟨apart.2, apart.1⟩

theorem append (apart : Apart p q) (x y : List α) : Apart (p ++ x) (q ++ y) := by
  have parted {p q : List α} (apart : Apart p q) (x y : List α) : ¬ p ++ x <+: q ++ y := by
    intro longer
    have first : p <+: q ++ y := (List.prefix_append p x).trans longer
    have second : q <+: q ++ y := List.prefix_append q y
    rcases List.prefix_or_prefix_of_prefix first second with goesOn | goesOn
    · exact apart.1 goesOn
    · exact apart.2 goesOn
  exact ⟨parted apart x y, parted apart.symm y x⟩

theorem behind (p : List α) {x y : List α} (apart : Apart x y) : Apart (p ++ x) (p ++ y) :=
  ⟨mt (List.prefix_append_right_inj p).mp apart.1, mt (List.prefix_append_right_inj p).mp apart.2⟩

theorem heads {a b : α} (other : a ≠ b) (x y : List α) : Apart (a :: x) (b :: y) :=
  ⟨fun goesOn => other (List.cons_prefix_cons.mp goesOn).1,
    fun goesOn => other (List.cons_prefix_cons.mp goesOn).1.symm⟩

end Apart

theorem Walk.Before.apart {down : Bool} {type : ObjectType} {as bs : List ObjectType}
    (before : Before down type as bs) :
    Apart (as.map fun t => (down, t.name)) (bs.map fun t => (down, t.name)) := by
  induction before with
  | @parted type a b as bs first =>
    have distinct : (type.related down).keys.Pairwise (· ≠ ·) := (type.related down).distinct
    have other : a.name ≠ b.name := List.pairwise_iff_forall_sublist.mp distinct first
    exact .heads (by simp [other]) _ _
  | along _ ih => exact ih.behind [_]

namespace Chain

/-- The directions and the names of the types of a chain, from the root to the tip. -/
def path (c : Chain) : List (Bool × String) := c.steps.reverse.map fun s => (s.down, s.type.name)

theorem path_cons (s : Step) (before : List Step) :
    path ⟨s, before⟩ = (before.reverse.map fun s => (s.down, s.type.name)) ++
      [(s.down, s.type.name)] := by
  simp [path, steps]

theorem path_mark (c : Chain) (matched : Bool) : (c.mark matched).path = c.path := by
  simp [path, steps, mark]

variable {schema : Schema} {down matched : Bool} {ids : Option IdList}

theorem path_along (c : Chain) (walk : List ObjectType) :
    (c.along down ids matched walk).path = c.path ++ walk.map fun t => (down, t.name) := by
  induction walk generalizing c with
  | nil => simp [along]
  | cons next rest ih =>
    rw [along, ih, path_cons]
    simp [path]

/-- No two of the chains take the same path, and none goes on from another. -/
def Diverging (chains : List Chain) : Prop := chains.Pairwise fun a b => Apart a.path b.path

theorem Diverging.of_paths {chains others : List Chain} (diverging : Diverging chains)
    (same : others.map path = chains.map path) : Diverging others := by
  have pairs : (chains.map path).Pairwise Apart := List.pairwise_map.mpr diverging
  rw [← same] at pairs
  exact List.pairwise_map.mp pairs

section Expansion

variable (sound : schema.Sound)
include sound

theorem path_extend {c grown : Chain} {name : String}
    (done : extend schema down ids matched c name = .ok grown) :
    grown.path = c.path ++ [(down, name)] := by
  obtain ⟨type, found, made⟩ := extend_eq_ok.mp done
  obtain ⟨_, _, rfl⟩ := make_eq_ok.mp made
  obtain rfl := sound.name_of_type? found
  exact path_cons _ _

theorem expandName_diverging {frontier chains : List Chain} {name : String}
    (diverging : Diverging frontier)
    (done : expandName schema frontier down name ids matched = .ok chains) : Diverging chains := by
  unfold expandName at done
  split at done
  · split at done
    · obtain ⟨c, _, rfl⟩ : ∃ c, make none true _ ids matched = .ok c ∧ [c] = chains := by
        simpa using done
      exact List.pairwise_singleton _ c
    · cases done
  · obtain ⟨grown, each, done⟩ := bind_eq_ok.mp done
    have same : grown = chains := by
      split at done
      · cases done
      · exact pure_eq_ok.mp done
    subst same
    have paths : grown.map path = (frontier.filter fun c =>
        (c.tip.type.related down).contains name).map fun c => c.path ++ [(down, name)] :=
      map_of_mapM (fun c _ g step => path_extend sound step) each
    have pairs : ((frontier.filter fun c => (c.tip.type.related down).contains name).map
        fun c => c.path ++ [(down, name)]).Pairwise Apart :=
      List.pairwise_map.mpr ((diverging.sublist List.filter_sublist).imp fun apart =>
        apart.append _ _)
    rw [← paths] at pairs
    exact List.pairwise_map.mp pairs

/-- Root steps to different types part at once. -/
theorem origins_diverging {frontier : List Chain} (diverging : Diverging frontier) :
    Diverging (origins schema frontier ids matched) := by
  unfold origins
  split
  · have names : (schema.types.values.map ObjectType.name).Nodup := by
      rw [sound.names]
      exact schema.types.distinct
    refine List.pairwise_map.mpr ((List.pairwise_map.mp names).imp fun other => ?_)
    exact .heads (by simpa [root] using other) _ _
  · exact diverging

/-- Walks from one chain part where the first of their steps differ, and what goes on from chains
that have parted stays apart. -/
theorem expandAny_diverging {frontier chains : List Chain} (diverging : Diverging frontier)
    (done : expandAny schema frontier down ids matched = .ok chains) : Diverging chains := by
  rw [expandAny_eq_walks done]
  refine List.pairwise_flatMap.mpr ⟨fun c _ => ?_, ?_⟩
  · have ordered : (walksWithin schema down (schema.types.size + 1) c.tip.type
        [c.tip.type.name]).Pairwise (Walk.Before down c.tip.type) :=
      walksWithin_ordered sound _ _ _
    refine List.pairwise_map.mpr (ordered.imp fun before => ?_)
    rw [path_along, path_along]
    exact before.apart.behind c.path
  · refine (origins_diverging sound diverging).imp fun {a b} apart => ?_
    intro x insideX y insideY
    obtain ⟨walk, _, rfl⟩ := List.mem_map.mp insideX
    obtain ⟨other, _, rfl⟩ := List.mem_map.mp insideY
    rw [path_along, path_along]
    exact apart.append _ _

theorem expand_diverging {frontier chains : List Chain} {target : Target} {scope : Scope}
    (diverging : Diverging frontier)
    (done : expand schema frontier down target ids scope = .ok chains) : Diverging chains := by
  cases target with
  | named name => exact expandName_diverging sound diverging (expand_named_eq_ok.mp done).2
  | any =>
    obtain ⟨_, plain, settled, rfl⟩ := expand_any_eq_ok.mp done
    refine (expandAny_diverging sound diverging settled).of_paths ?_
    rw [List.map_map]
    refine List.map_congr_left fun c _ => ?_
    rw [Function.comp_apply]
    split
    · exact path_mark c true
    · rfl

end Expansion

/-- The chains of a pattern string take different paths, and no path goes on from another. -/
theorem parse_paths_apart {description : Description}
    (accepted : Schema.ofDescription description = .ok schema) {text : String}
    {lists : Option (List IdList)} {chains : List Chain}
    (done : parse schema text lists = .ok chains) {i j : Nat} (hi : i < chains.length)
    (hj : j < chains.length) (other : i ≠ j) :
    chains[i].path ≠ chains[j].path ∧ ¬ chains[i].path <+: chains[j].path := by
  have sound := Schema.ofDescription_sound accepted
  have diverging : Diverging chains := parse_induction Diverging List.Pairwise.nil
    (fun _ _ _ _ _ _ _ start expanded => expand_diverging sound start expanded) done
  have pairs := List.pairwise_iff_getElem.mp diverging
  have apart : Apart chains[i].path chains[j].path := by
    rcases Nat.lt_or_gt_of_ne other with before | after
    · exact pairs i j hi hj before
    · exact (pairs j i hj hi after).symm
  exact ⟨fun same => apart.1 (same ▸ List.prefix_rfl), apart.1⟩

/-- Down and up again over letters. The second chain has fewer steps than the first and parts from
it behind `d`. -/
theorem parse_paths_apart_of_letters : ∃ schema first second others,
    Schema.ofDescription letters = .ok schema ∧
    parse schema ">a%>*<*$" (some [[[some "x"]]]) = .ok (first :: second :: others) ∧
    first.path = [(true, "a"), (true, "b"), (true, "d"), (false, "b"), (false, "a"),
      (false, "c")] ∧
    second.path = [(true, "a"), (true, "b"), (true, "d"), (false, "c"), (false, "a")] ∧
    second.path ≠ first.path ∧ ¬ second.path <+: first.path := by
  have run : (do
      let schema ← (Schema.ofDescription letters).toOption
      let chains ← (parse schema ">a%>*<*$" (some [[[some "x"]]])).toOption
      pure (chains.map path)) = some
        [[(true, "a"), (true, "b"), (true, "d"), (false, "b"), (false, "a"), (false, "c")],
          [(true, "a"), (true, "b"), (true, "d"), (false, "c"), (false, "a")],
          [(true, "a"), (true, "c"), (true, "d"), (true, "b"), (false, "a"), (false, "c")],
          [(true, "a"), (true, "c"), (true, "d"), (true, "b"), (false, "d"), (false, "c"),
            (false, "a")]] := by
    decide +kernel
  simp only [Option.bind_eq_bind, Option.pure_def, Option.bind_eq_some_iff, toOption_eq_some,
    Option.some.injEq] at run
  obtain ⟨schema, accepted, chains, parsed, paths⟩ := run
  obtain ⟨first, tail, rfl, ofFirst, paths⟩ := List.map_eq_cons_iff.mp paths
  obtain ⟨second, others, rfl, ofSecond, _⟩ := List.map_eq_cons_iff.mp paths
  have apart := parse_paths_apart accepted parsed (i := 1) (j := 0) (by simp) (by simp) (by simp)
  exact ⟨schema, first, second, others, accepted, parsed, ofFirst, ofSecond, apart⟩

end Chain

end ObjectQuery

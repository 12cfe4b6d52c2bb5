import ObjectQuery.Proofs.Chain.Wildcard

/-! How long a wildcard takes. Its rounds go on until one of them leaves the list of chains as it
is, and nothing else bounds their number. There are never more than the schema has types, and one:
whatever a branch is extended to is a type of the schema that the branch has not seen. -/
namespace ObjectQuery.Chain

open Outcome

variable {schema : Schema} {down matched : Bool} {ids : Option IdList}

namespace Branch

/-- A round goes on from the branch by one step, to one type or to several. -/
def Grows (schema : Schema) (down : Bool) (ids : Option IdList) (matched : Bool) (b : Branch) :
    Prop :=
  ∃ grown, b.grow schema down ids matched = .ok grown ∧ ∃ g ∈ grown, g.chain.before = b.chain.steps

theorem before_ne_steps (c : Chain) : c.before ≠ c.steps := fun same => by
  have sizes := congrArg List.length same
  simp [steps] at sizes

theorem grows_iff {b : Branch} {grown : List Branch}
    (done : b.grow schema down ids matched = .ok grown) :
    b.Grows schema down ids matched ↔ b.exits down ≠ [] := by
  constructor
  · rintro ⟨_, again, g, member, onward⟩ closed
    rw [← grow_eq_offspring again, offspring_closed closed, List.mem_singleton] at member
    exact before_ne_steps b.chain (member ▸ onward)
  · intro opened
    refine ⟨grown, done, ?_⟩
    unfold grow at done
    split at done
    · contradiction
    · obtain ⟨name, exit⟩ := List.exists_mem_of_ne_nil _ opened
      obtain ⟨g, member, step⟩ := ok_of_mapM done exit
      obtain ⟨next, _, rfl⟩ := advance_of_extend step
      exact ⟨_, member, rfl⟩

end Branch

/-- The comparison of the two lists of chains tells whether a branch has grown. -/
theorem settled_iff_grows {branches grown : List Branch}
    (done : round schema down ids matched branches = .ok grown) :
    (grown.map Branch.chain == branches.map Branch.chain) = true ↔
      ∀ b ∈ branches, ¬ b.Grows schema down ids matched := by
  obtain ⟨lists, each, _⟩ := bind_eq_ok.mp done
  rw [settled_iff done]
  refine forall₂_congr fun b member => ?_
  obtain ⟨_, _, grows⟩ := ok_of_mapM each member
  rw [Branch.grows_iff grows, ne_eq, Classical.not_not]

/-- The rounds of a wildcard: the branches that the first round starts from, those that each later
one starts from, and what the last one comes to. -/
inductive Rounds (schema : Schema) (down : Bool) (ids : Option IdList) (matched : Bool) :
    List Branch → List (List Branch) → Except PatternFault (List Branch) → Prop
  | failed {branches : List Branch} {fault : PatternFault} :
      round schema down ids matched branches = .error fault →
      Rounds schema down ids matched branches [] (.error fault)
  | last {branches grown : List Branch} : round schema down ids matched branches = .ok grown →
      (grown.map Branch.chain == branches.map Branch.chain) = true →
      Rounds schema down ids matched branches [] (.ok grown)
  | onward {branches grown : List Branch} {later : List (List Branch)}
      {outcome : Except PatternFault (List Branch)} :
      round schema down ids matched branches = .ok grown →
      (grown.map Branch.chain == branches.map Branch.chain) = false →
      Rounds schema down ids matched grown later outcome →
      Rounds schema down ids matched branches (grown :: later) outcome

namespace Rounds

variable {branches : List Branch} {later : List (List Branch)}
  {outcome : Except PatternFault (List Branch)}

/-- A limit that allows for all rounds is never noticed. -/
theorem settle (rounds : Rounds schema down ids matched branches later outcome) {limit : Nat}
    (enough : later.length < limit) :
    Chain.settle schema down ids matched limit branches = outcome := by
  induction rounds generalizing limit with
  | failed done =>
    obtain ⟨limit, rfl⟩ := Nat.exists_eq_succ_of_ne_zero (Nat.ne_of_gt enough)
    rw [Chain.settle, done]
    rfl
  | last done same =>
    obtain ⟨limit, rfl⟩ := Nat.exists_eq_succ_of_ne_zero (Nat.ne_of_gt enough)
    rw [Chain.settle, done]
    exact if_pos same
  | @onward branches grown later outcome done other _ ih =>
    obtain ⟨limit, rfl⟩ := Nat.exists_eq_succ_of_ne_zero (Nat.ne_zero_of_lt enough)
    have rest := @ih limit (by simpa using enough)
    have goesOn : ¬ (grown.map Branch.chain == branches.map Branch.chain) = true := by simp [other]
    rw [Chain.settle, done]
    exact (if_neg goesOn).trans rest

/-- Every round but the last extends a branch. -/
theorem extends_branch (rounds : Rounds schema down ids matched branches later outcome) :
    ∀ starts ∈ (branches :: later).dropLast, ∃ b ∈ starts, b.Grows schema down ids matched := by
  induction rounds with
  | failed => simp
  | last => simp
  | onward done other _ ih =>
    rw [List.dropLast_cons_cons, List.forall_mem_cons]
    have grows := mt (settled_iff_grows done).mpr (by simp [other])
    exact ⟨by simpa using grows, ih⟩

/-- A last round that does not fail extends none, and leaves the branches as they are. -/
theorem extends_none (rounds : Rounds schema down ids matched branches later outcome)
    {settled : List Branch} (done : outcome = .ok settled) :
    (branches :: later).getLast? = some settled ∧
      ∀ b ∈ settled, ¬ b.Grows schema down ids matched := by
  induction rounds with
  | failed => cases done
  | last ran same =>
    obtain rfl := Except.ok.inj done
    have none := (settled_iff_grows ran).mp same
    obtain ⟨_, rfl⟩ := round_settled ran same
    exact ⟨rfl, none⟩
  | onward _ _ _ ih => exact ih done

end Rounds

section Bound

variable (sound : schema.Sound)
include sound

/-- What a branch grows to has a new type of the schema behind it. -/
theorem room_offspring {b g : Branch} (opened : b.exits down ≠ [])
    (member : g ∈ b.offspring schema down ids matched) :
    room schema g.visited < room schema b.visited := by
  rw [Branch.offspring, if_neg opened, Branch.exits_eq] at member
  obtain ⟨next, step, rfl⟩ := List.mem_map.mp member
  obtain ⟨_, new, found⟩ := (mem_nexts sound).mp step
  have known : next.name ∈ schema.types.keys :=
    List.mem_map.mpr ⟨_, Table.get?_eq_some.mp found, rfl⟩
  rw [Branch.visited_advance]
  exact room_step known new

/-- Each round takes from the room of all branches that still grow. -/
theorem round_room {branches grown : List Branch} {left : Nat}
    (done : round schema down ids matched branches = .ok grown)
    (short : ∀ b ∈ branches, b.exits down = [] ∨ room schema b.visited ≤ left) :
    ∀ g ∈ grown, g.exits down = [] ∨ room schema g.visited < left := by
  rw [← round_eq_offspring done]
  intro g member
  obtain ⟨b, inside, member⟩ := List.mem_flatMap.mp member
  by_cases closed : b.exits down = []
  · rw [Branch.offspring_closed closed, List.mem_singleton] at member
    exact .inl (member ▸ closed)
  · have room := (short b inside).resolve_left closed
    exact .inr (Nat.lt_of_lt_of_le (room_offspring sound closed member) room)

/-- Where no branch has room there is no round that extends one. -/
theorem round_without_room {branches grown : List Branch}
    (done : round schema down ids matched branches = .ok grown)
    (short : ∀ b ∈ branches, b.exits down = [] ∨ room schema b.visited ≤ 0) :
    (grown.map Branch.chain == branches.map Branch.chain) = true := by
  obtain ⟨lists, each, _⟩ := bind_eq_ok.mp done
  refine (settled_iff_grows done).mpr fun b member grows => ?_
  obtain ⟨_, _, grew⟩ := ok_of_mapM each member
  have opened := (Branch.grows_iff grew).mp grows
  obtain ⟨_, again, g, inside, _⟩ := grows
  rw [← Branch.grow_eq_offspring again] at inside
  have full := (short b member).resolve_left opened
  have less := room_offspring sound opened inside
  omega

theorem exists_rounds {left : Nat} {branches : List Branch}
    (short : ∀ b ∈ branches, b.exits down = [] ∨ room schema b.visited ≤ left) :
    ∃ later outcome, Rounds schema down ids matched branches later outcome ∧
      later.length ≤ left := by
  -- On the room that is left to the branches that still grow, which every round takes from.
  induction left generalizing branches with
  | zero =>
    cases done : round schema down ids matched branches with
    | error fault => exact ⟨[], _, .failed done, Nat.le_refl 0⟩
    | ok grown =>
      exact ⟨[], _, .last done (round_without_room sound done short), Nat.le_refl 0⟩
  | succ left ih =>
    cases done : round schema down ids matched branches with
    | error fault => exact ⟨[], _, .failed done, Nat.zero_le _⟩
    | ok grown =>
      cases same : grown.map Branch.chain == branches.map Branch.chain with
      | true => exact ⟨[], _, .last done same, Nat.zero_le _⟩
      | false =>
        obtain ⟨later, outcome, rounds, few⟩ := ih fun g member =>
          (round_room sound done short g member).imp_right Nat.le_of_lt_succ
        exact ⟨grown :: later, outcome, .onward done same rounds, Nat.succ_le_succ few⟩

end Bound

/-- A wildcard goes through its rounds with no limit on their number, and there are at most one more
than the schema has types. Each of them but the last extends a branch. The last extends none,
unless it fails, and whether a round extends one is what the comparison of the chains tells. -/
theorem wildcard_rounds {description : Description}
    (accepted : Schema.ofDescription description = .ok schema) (frontier : List Chain)
    (down : Bool) (ids : Option IdList) (matched : Bool) :
    (∀ branches grown, round schema down ids matched branches = .ok grown →
      ((grown.map Branch.chain == branches.map Branch.chain) = true ↔
        ∀ b ∈ branches, ¬ b.Grows schema down ids matched)) ∧
    ∀ branches, seeds schema frontier ids matched = .ok branches →
      ∃ later outcome, Rounds schema down ids matched branches later outcome ∧
        later.length + 1 ≤ schema.types.size + 1 ∧
        (∀ starts ∈ (branches :: later).dropLast,
          ∃ b ∈ starts, b.Grows schema down ids matched) ∧
        (∀ settled, outcome = .ok settled → (branches :: later).getLast? = some settled ∧
          ∀ b ∈ settled, ¬ b.Grows schema down ids matched) ∧
        expandAny schema frontier down ids matched = outcome.map (List.map Branch.chain) := by
  refine ⟨fun branches grown done => settled_iff_grows done, fun branches started => ?_⟩
  have sound := Schema.ofDescription_sound accepted
  obtain ⟨later, outcome, rounds, few⟩ : ∃ later outcome,
      Rounds schema down ids matched branches later outcome ∧ later.length ≤ schema.types.size :=
    exists_rounds sound fun b _ => .inr (room_le_size schema b.visited)
  refine ⟨later, outcome, rounds, Nat.succ_le_succ few, rounds.extends_branch,
    fun settled done => rounds.extends_none done, ?_⟩
  rw [expandAny, started]
  simp only [bind, Except.bind]
  rw [rounds.settle (Nat.lt_succ_of_le few)]
  rfl

/-- Words, which begin with the letter `a`. -/
def words : Description :=
  .ofList [("word", letter ["a"]), ("a", letter [])]

/-- From a word, which is no letter, one way leads through all four letters. It takes as many rounds
as there can be. -/
theorem wildcard_rounds_of_letters : ∃ schema word branches later outcome chains,
    Schema.ofDescription letters = .ok schema ∧ schema.types.size = 4 ∧
    schema.type? word.tip.type.name = none ∧ seeds schema [word] none false = .ok branches ∧
    Rounds schema true none false branches later outcome ∧ later.length + 1 ≤ 5 ∧
    (∀ starts ∈ (branches :: later).dropLast, ∃ b ∈ starts, b.Grows schema true none false) ∧
    outcome.map (List.map Branch.chain) = .ok chains ∧
    chains.map (fun c => c.steps.map fun s => s.type.name) =
      [["d", "b", "a", "word"], ["b", "d", "c", "a", "word"]] := by
  have run : (do
      let schema ← (Schema.ofDescription letters).toOption
      let other ← (Schema.ofDescription words).toOption
      let type ← other.type? "word"
      let chains ← (expandAny schema [root type none false] true none false).toOption
      pure (schema.types.size, (schema.type? type.name).isNone,
        chains.map fun c => c.steps.map fun s => s.type.name)) =
        some (4, true, [["d", "b", "a", "word"], ["b", "d", "c", "a", "word"]]) := by
    decide +kernel
  simp only [Option.bind_eq_bind, Option.pure_def, Option.bind_eq_some_iff, toOption_eq_some,
    Option.some.injEq, Prod.mk.injEq] at run
  obtain ⟨schema, accepted, _, _, type, _, chains, expanded, size, unknown, names⟩ := run
  obtain ⟨later, outcome, rounds, few, growing, _, whole⟩ :=
    (wildcard_rounds accepted [root type none false] true none false).2 _ rfl
  exact ⟨schema, root type none false, _, later, outcome, chains, accepted, size,
    Option.isNone_iff_eq_none.mp unknown, rfl, rounds, by omega, growing,
    whole.symm.trans expanded, names⟩

end ObjectQuery.Chain

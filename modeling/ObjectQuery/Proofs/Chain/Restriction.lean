import ObjectQuery.Proofs.Chain.Way
import ObjectQuery.Proofs.Schema.Graph

/-! IDs for a wildcard. They are measured against every type that it steps into, whichever branch
and whichever round that is in, and against nothing else. No branch is ever given up, so that the
types they are measured against are those on the ways. -/
namespace ObjectQuery.Chain

open Outcome

variable {α β : Type} {ids : Option IdList}

/-- A computation that measures IDs against types. It fails with an ID that does not fit one of
them, and for nothing else. -/
inductive Measured (ids : Option IdList) (types : List ObjectType) : Except PatternFault α → Prop
  | ok {a : α} : (∀ type ∈ types, Fits type ids) → Measured ids types (.ok a)
  | error {type : ObjectType} {list : IdList} {id : Id} : type ∈ types → ids = some list →
      id ∈ list → id.length ≠ type.idFields.length →
      Measured ids types (.error (.idLength type.name type.idFields.length id.length))

namespace Measured

variable {types others : List ObjectType} {x : Except PatternFault α}

theorem nothing (a : α) : Measured ids [] (.ok a) := .ok (by simp)

theorem congr (measured : Measured ids types x)
    (same : ∀ type, type ∈ types ↔ type ∈ others) : Measured ids others x := by
  cases measured with
  | ok fits => exact .ok fun type given => fits type ((same type).mpr given)
  | error given limited member other => exact .error ((same _).mp given) limited member other

theorem ok_iff (measured : Measured ids types x) :
    (∃ a, x = .ok a) ↔ ∀ type ∈ types, Fits type ids := by
  cases measured with
  | ok fits => simpa using fits
  | error given limited member other =>
    refine ⟨by simp, fun fits => ?_⟩
    exact absurd (fits _ given _ limited _ member) other

theorem bind {f : α → Except PatternFault β} (first : Measured ids types x)
    (later : ∀ a, x = .ok a → Measured ids others (f a)) :
    Measured ids (types ++ others) (x >>= f) := by
  cases first with
  | error given limited member other =>
    exact .error (List.mem_append_left _ given) limited member other
  | @ok a fits =>
    show Measured ids (types ++ others) (f a)
    have rest := later a rfl
    generalize f a = y at rest
    cases rest with
    | ok fitsLater => exact .ok (List.forall_mem_append.mpr ⟨fits, fitsLater⟩)
    | error given limited member other =>
      exact .error (List.mem_append_right _ given) limited member other

theorem map (measured : Measured ids types x) (f : α → β) :
    Measured ids types (do pure (f (← x))) := by
  have whole := measured.bind fun a _ => nothing (f a)
  rwa [List.append_nil] at whole

theorem mapM {types : α → List ObjectType} {f : α → Except PatternFault β} {l : List α}
    (each : ∀ a ∈ l, Measured ids (types a) (f a)) :
    Measured ids (l.flatMap types) (l.mapM f) := by
  induction l with
  | nil => exact nothing _
  | cons a l ih =>
    rw [List.mapM_cons, List.flatMap_cons]
    have rest := ih fun x member => each x (List.mem_cons_of_mem a member)
    exact (each a List.mem_cons_self).bind fun b _ => rest.map (b :: ·)

end Measured

variable {description : Description} {schema : Schema} {down matched : Bool}

theorem checkIds_measured (type : ObjectType) : Measured ids [type] (checkIds type ids) := by
  cases checked : checkIds type ids with
  | ok => exact .ok (by simpa using checkIds_eq_ok.mp checked)
  | error fault =>
    unfold checkIds at checked
    split at checked
    · next id found =>
      obtain rfl := Except.error.inj checked
      have member := List.mem_of_find?_eq_some found
      cases ids with
      | none => cases member
      | some list =>
        exact .error List.mem_cons_self rfl member (by simpa using List.find?_some found)
    · cases checked

theorem make_measured (ids : Option IdList) (matched : Bool) {base : Option Chain}
    {type : ObjectType} (admits : Admits base down type) :
    Measured ids [type] (make base down type ids matched) := by
  have passed : checkBase base down type = .ok () := checkBase_eq_ok.mpr admits
  rw [make, passed]
  exact (checkIds_measured type).map _

/-- Without a frontier the IDs are measured against all types of the schema. -/
theorem seeds_measured (frontier : List Chain) :
    Measured ids (if frontier.isEmpty then schema.types.values else [])
      (seeds schema frontier ids matched) := by
  unfold seeds
  split
  · have each : Measured ids (schema.types.values.flatMap fun type => [type]) _ :=
      Measured.mapM fun type _ =>
        (make_measured ids matched (show Admits none true type from rfl)).map
          fun c => (⟨c, 1⟩ : Branch)
    rwa [List.flatMap_singleton'] at each
  · exact .nothing _

/-- The types that a branch meets on its walks. -/
def Branch.met (schema : Schema) (down : Bool) (rounds : Nat) (b : Branch) : List ObjectType :=
  (walksWithin schema down rounds b.chain.tip.type b.visited).flatten

theorem Branch.met_closed {b : Branch} (closed : b.exits down = []) (rounds : Nat) :
    b.met schema down rounds = [] := by
  rw [Branch.exits_eq] at closed
  cases rounds <;> simp [Branch.met, walksWithin, closed]

/-- What is met on walks that first step into one of some types, if there is one from each. -/
theorem mem_first_or_later {nexts : List ObjectType} {walks : ObjectType → List (List ObjectType)}
    (walked : ∀ next ∈ nexts, walks next ≠ []) {type : ObjectType} :
    type ∈ nexts.flatMap (fun next => (walks next).flatMap (next :: ·)) ↔
      type ∈ nexts ∨ type ∈ nexts.flatMap fun next => (walks next).flatten := by
  simp only [List.mem_flatMap, List.mem_cons, List.mem_flatten]
  constructor
  · rintro ⟨next, step, walk, inside, rfl | later⟩
    · exact .inl step
    · exact .inr ⟨next, step, walk, inside, later⟩
  · rintro (step | ⟨next, step, walk, inside, later⟩)
    · obtain ⟨walk, inside⟩ := List.exists_mem_of_ne_nil _ (walked type step)
      exact ⟨type, step, walk, inside, .inl rfl⟩
    · exact ⟨next, step, walk, inside, .inr later⟩

/-- New tips are of types of the schema. -/
theorem tip_kept (schema : Schema) (ids : Option IdList) :
    Keeps (fun c => c.tip.type ∈ schema.types.values) (· ∈ schema.types.values) ids where
  made _ member done := by
    obtain ⟨_, _, rfl⟩ := make_eq_ok.mp done
    exact member
  marked := id

section Accepted

variable (accepted : Schema.ofDescription description = .ok schema)
include accepted

/-- Every type has a walk, so that no step is taken that leads nowhere. -/
theorem walksWithin_ne_nil {steps : Nat} {type : ObjectType} {seen : List String}
    (known : type ∈ schema.types.values) : walksWithin schema down steps type seen ≠ [] := by
  induction steps generalizing type seen with
  | zero => simp [walksWithin]
  | succ steps ih =>
    rw [walksWithin]
    split
    · simp
    · next opened =>
      obtain ⟨name, exit⟩ := List.exists_mem_of_ne_nil _ opened
      obtain ⟨next, found⟩ := Schema.type?_related accepted known (mem_exits.mp exit).1
      have step : next ∈ (type.exits down seen).filterMap schema.type? :=
        List.mem_filterMap.mpr ⟨name, exit, found⟩
      obtain ⟨walk, inside⟩ := List.exists_mem_of_ne_nil _ (ih (Schema.type?_mem found))
      exact List.ne_nil_of_mem
        (List.mem_flatMap.mpr ⟨next, step, List.mem_map_of_mem inside⟩)

/-- What a branch meets, it meets in the first round or in its offspring. -/
theorem mem_met_succ (ids : Option IdList) (matched : Bool) {b : Branch} {rounds : Nat}
    {type : ObjectType} :
    type ∈ b.met schema down (rounds + 1) ↔ type ∈ (b.exits down).filterMap schema.type? ∨
      type ∈ (b.offspring schema down ids matched).flatMap (Branch.met schema down rounds) := by
  by_cases closed : b.exits down = []
  · simp [Branch.met_closed closed, Branch.offspring_closed closed, closed]
  · have onward (next : ObjectType) : (b.advance down ids matched next).met schema down rounds =
        (walksWithin schema down rounds next (next.name :: b.visited)).flatten := by
      rw [Branch.met, Branch.visited_advance]
      rfl
    -- A step of the first round is on a way only if the branch goes on from it to an end.
    have walked : ∀ next ∈ (b.exits down).filterMap schema.type?,
        walksWithin schema down rounds next (next.name :: b.visited) ≠ [] := fun next step => by
      obtain ⟨_, _, found⟩ := List.mem_filterMap.mp step
      exact walksWithin_ne_nil accepted (Schema.type?_mem found)
    rw [Branch.offspring, if_neg closed, List.flatMap_map, Branch.met, walksWithin,
      ← Branch.exits_eq, if_neg closed, ← List.flatMap_id', List.flatMap_assoc]
    simp only [List.flatMap_map, onward]
    exact mem_first_or_later walked

theorem extend_measured {c : Chain} {name : String} (known : c.tip.type ∈ schema.types.values)
    (related : name ∈ (c.tip.type.related down).keys) :
    Measured ids (schema.type? name).toList (extend schema down ids matched c name) := by
  obtain ⟨next, found⟩ := Schema.type?_related accepted known related
  have admits : Admits (some c) down next := by
    rwa [Admits, (Schema.ofDescription_sound accepted).name_of_type? found]
  have resolved : relatedType schema down name = .ok next := relatedType_eq_ok.mpr found
  rw [extend, resolved, found]
  exact make_measured ids matched admits

theorem grow_measured {b : Branch} (known : b.chain.tip.type ∈ schema.types.values) :
    Measured ids ((b.exits down).filterMap schema.type?) (b.grow schema down ids matched) := by
  unfold Branch.grow
  split
  · next closed =>
    rw [closed]
    exact .nothing _
  · refine Measured.congr (Measured.mapM fun name exit =>
      (extend_measured accepted known (mem_exits.mp exit).1).map _) fun type => ?_
    simp

theorem round_measured {branches : List Branch}
    (known : ∀ b ∈ branches, b.chain.tip.type ∈ schema.types.values) :
    Measured ids (branches.flatMap fun b => (b.exits down).filterMap schema.type?)
      (round schema down ids matched branches) :=
  (Measured.mapM fun b member => grow_measured accepted (known b member)).map List.flatten

/-- All rounds together measure the IDs against every type that a branch meets. -/
theorem settle_measured {rounds : Nat} {branches : List Branch}
    (known : ∀ b ∈ branches, b.chain.tip.type ∈ schema.types.values) :
    Measured ids (branches.flatMap (Branch.met schema down rounds))
      (settle schema down ids matched rounds branches) := by
  induction rounds generalizing branches with
  | zero => exact (Measured.nothing _).congr (by simp [Branch.met, walksWithin])
  | succ rounds ih =>
    have later (grown : List Branch) (ran : round schema down ids matched branches = .ok grown) :
        Measured ids ((branches.flatMap (Branch.offspring schema down ids matched)).flatMap
            (Branch.met schema down rounds))
          (if grown.map Branch.chain == branches.map Branch.chain then pure grown
            else settle schema down ids matched rounds grown) := by
      rw [round_eq_offspring ran]
      split
      · next same =>
        obtain ⟨closed, rfl⟩ := round_settled ran same
        -- The rounds that are saved here would have met no type.
        refine (Measured.nothing grown).congr fun type => ?_
        simpa using fun b member => by simp [Branch.met_closed (closed b member)]
      · exact ih ((tip_kept schema ids).round (fun _ => id) known ran)
    rw [settle]
    refine ((round_measured accepted known).bind later).congr fun type => ?_
    simp only [List.flatMap_assoc, List.mem_append, List.mem_flatMap,
      mem_met_succ accepted ids matched, and_or_left, exists_or]

/-- The types on the ways of a wildcard: those of the root steps, and those on the walks. -/
theorem mem_onto {frontier : List Chain} {type : ObjectType} (ids : Option IdList)
    (matched : Bool) :
    type ∈ (ways schema down frontier).flatMap Way.onto ↔
      type ∈ (if frontier.isEmpty then schema.types.values else []) ∨
      type ∈ (origins schema frontier ids matched).flatMap fun c =>
        (walksWithin schema down (schema.types.size + 1) c.tip.type [c.tip.type.name]).flatten := by
  unfold ways origins
  split
  · simp only [List.flatMap_assoc, List.flatMap_map]
    exact mem_first_or_later fun type known => walksWithin_ne_nil accepted known
  · simp only [List.flatMap_assoc, List.flatMap_map, ← List.flatMap_id']
    simp

/-- A wildcard measures the IDs against every type that one of its ways steps into. -/
theorem expandAny_measured {frontier : List Chain}
    (known : ∀ c ∈ frontier, c.tip.type ∈ schema.types.values) :
    Measured ids ((ways schema down frontier).flatMap Way.onto)
      (expandAny schema frontier down ids matched) := by
  have later (branches : List Branch) (started : seeds schema frontier ids matched = .ok branches) :
      Measured ids ((origins schema frontier ids matched).flatMap fun c =>
          (walksWithin schema down (schema.types.size + 1) c.tip.type [c.tip.type.name]).flatten)
        (do pure ((← settle schema down ids matched (schema.types.size + 1) branches).map
          Branch.chain)) := by
    have starts := congrArg
      (List.flatMap fun p : Chain × List String =>
        (walksWithin schema down (schema.types.size + 1) p.1.tip.type p.2).flatten)
      (seeds_eq_origins started)
    rw [List.flatMap_map, List.flatMap_map] at starts
    rw [← starts]
    exact (settle_measured accepted ((tip_kept schema ids).seeds (fun _ => id) known started)).map _
  exact ((seeds_measured frontier).bind later).congr
    fun type => by rw [List.mem_append, mem_onto accepted ids matched]

theorem expand_any_measured {frontier : List Chain}
    (known : ∀ c ∈ frontier, c.tip.type ∈ schema.types.values)
    (based : frontier = [] → down = true) (ids : Option IdList) (scope : Scope) :
    Measured ids ((ways schema down frontier).flatMap Way.onto)
      (expand schema frontier down .any ids scope) := by
  rw [expand_any based]
  exact (expandAny_measured accepted known).map _

theorem walksWithin_unmoved {steps : Nat} {type : ObjectType} {seen : List String}
    (known : type ∈ schema.types.values)
    (unmoved : ∀ walk ∈ walksWithin schema down (steps + 1) type seen, walk = []) :
    walksWithin schema down (steps + 1) type seen = [[]] := by
  obtain ⟨walk, inside⟩ : ∃ walk, walk ∈ walksWithin schema down (steps + 1) type seen :=
    List.exists_mem_of_ne_nil _ (walksWithin_ne_nil accepted known)
  have none := unmoved walk inside
  rw [walksWithin] at inside ⊢
  split at inside
  · next closed => exact if_pos closed
  · obtain ⟨next, _, inside⟩ := List.mem_flatMap.mp inside
    obtain ⟨_, _, rfl⟩ := List.mem_map.mp inside
    cases none

/-- Where nothing is added, there is one way from each chain. -/
theorem ways_unmoved {frontier : List Chain}
    (known : ∀ c ∈ frontier, c.tip.type ∈ schema.types.values)
    (unmoved : ∀ w ∈ ways schema down frontier, w.onto = []) :
    (ways schema down frontier).map Way.base = frontier.map steps := by
  cases frontier with
  | nil =>
    have none : ways schema down [] = [] := List.eq_nil_iff_forall_not_mem.mpr fun w member => by
      have still := unmoved w member
      obtain ⟨type, _, inside⟩ := List.mem_flatMap.mp member
      obtain ⟨_, _, rfl⟩ := List.mem_map.mp inside
      cases still
    rw [none]
    rfl
  | cons first rest =>
    have single (c : Chain) (member : c ∈ first :: rest) :
        walksWithin schema down (schema.types.size + 1) c.tip.type [c.tip.type.name] = [[]] :=
      walksWithin_unmoved accepted (known c member) fun walk inside =>
        unmoved ⟨c.steps, walk⟩ (List.mem_flatMap.mpr ⟨c, member, List.mem_map_of_mem inside⟩)
    have all : ways schema down (first :: rest) = (first :: rest).map fun c => ⟨c.steps, []⟩ :=
      flatMap_eq_map fun c member => congrArg (List.map (Way.mk c.steps)) (single c member)
    rw [all, List.map_map]
    rfl

end Accepted

theorem Way.reached_unmoved {w : Way} (unmoved : w.onto = []) (ids : Option IdList)
    (scope : Scope) : (w.reached down ids scope).map Step.ids = w.base.map Step.ids := by
  simp only [Way.reached, Way.added, unmoved, List.map_nil, List.reverse_nil, List.nil_append]
  split
  · cases w.base <;> rfl
  · rfl

/-- The chains that a wildcard reaches without IDs are there, and it reaches them with IDs if these
fit every type that it steps into. The IDs are then those of the steps that it has added, and of no
other. If they do not fit, it fails for one that does not. Where it adds nothing they are not looked
at, and all chains keep the IDs they have. -/
theorem wildcard_measures_ids (accepted : Schema.ofDescription description = .ok schema)
    {frontier : List Chain} (known : ∀ c ∈ frontier, c.tip.type ∈ schema.types.values)
    (based : frontier = [] → down = true) (scope : Scope) (list : IdList) :
    ∃ plain, expand schema frontier down .any none scope = .ok plain ∧
      plain.map steps = (ways schema down frontier).map (·.reached down none scope) ∧
      ((∃ limited, expand schema frontier down .any (some list) scope = .ok limited) ↔
        ∀ w ∈ ways schema down frontier, ∀ type ∈ w.onto, ∀ id ∈ list,
          id.length = type.idFields.length) ∧
      (∀ limited, expand schema frontier down .any (some list) scope = .ok limited →
        limited.map steps = (ways schema down frontier).map (·.reached down (some list) scope)) ∧
      (∀ fault, expand schema frontier down .any (some list) scope = .error fault →
        ∃ w ∈ ways schema down frontier, ∃ type ∈ w.onto, ∃ id ∈ list,
          id.length ≠ type.idFields.length ∧
          fault = .idLength type.name type.idFields.length id.length) ∧
      ((∀ w ∈ ways schema down frontier, w.onto = []) →
        expand schema frontier down .any (some list) scope = .ok plain ∧
        plain.map (fun c => c.steps.map Step.ids) =
          frontier.map fun c => c.steps.map Step.ids) := by
  have measured (ids : Option IdList) := expand_any_measured accepted known based ids scope
  obtain ⟨plain, done⟩ := (measured none).ok_iff.mpr fun _ _ _ absent => by cases absent
  have lengths : (∃ limited, expand schema frontier down .any (some list) scope = .ok limited) ↔
      ∀ w ∈ ways schema down frontier, ∀ type ∈ w.onto, ∀ id ∈ list,
        id.length = type.idFields.length := by
    rw [(measured (some list)).ok_iff]
    simp only [List.forall_mem_flatMap, Fits, Option.mem_def, Option.some.injEq, forall_eq']
  refine ⟨plain, done, expand_any_reaches done, lengths, fun limited => expand_any_reaches,
    fun fault failed => ?_, fun unmoved => ?_⟩
  · have refused := measured (some list)
    rw [failed] at refused
    cases refused with
    | @error type _ id given limited member other =>
      obtain rfl := Option.some.inj limited
      obtain ⟨w, way, onto⟩ := List.mem_flatMap.mp given
      exact ⟨w, way, type, onto, id, member, other, rfl⟩
  · obtain ⟨limited, unchecked⟩ := lengths.mpr fun w way => by simp [unmoved w way]
    have same : limited.map steps = plain.map steps := by
      rw [expand_any_reaches unchecked, expand_any_reaches done]
      exact List.map_congr_left fun w way => by
        simp only [Way.reached, Way.added, unmoved w way, List.map_nil]
    obtain rfl := (List.map_inj_right fun _ _ => steps_injective).mp same
    refine ⟨unchecked, ?_⟩
    calc limited.map (fun c => c.steps.map Step.ids)
        = (limited.map steps).map (List.map Step.ids) := by rw [List.map_map]; rfl
      _ = ((ways schema down frontier).map Way.base).map (List.map Step.ids) := by
        rw [expand_any_reaches done, List.map_map, List.map_map]
        exact List.map_congr_left fun w way => Way.reached_unmoved (unmoved w way) none scope
      _ = frontier.map fun c => c.steps.map Step.ids := by
        rw [ways_unmoved accepted known unmoved, List.map_map]
        rfl

/-- The checkout above a build takes IDs of one component, and the revision above that of two. -/
theorem wildcard_measures_ids_of_reports : ∃ schema build plain fault,
    Report.schema = .ok schema ∧ schema.type? "build" = some build ∧
    expand schema [root build none false] false .any none .furthest = .ok plain ∧
    plain.map (fun c => c.steps.map fun s => (s.type.name, s.type.idFields.length, s.matched)) =
      [[("revision", 2, true), ("checkout", 1, false), ("build", 1, false)]] ∧
    expand schema [root build none false] false .any (some [[some "x"]]) .furthest =
      .error fault ∧
    ∃ w ∈ ways schema false [root build none false], ∃ type ∈ w.onto, ∃ id ∈ [[some "x"]],
      id.length ≠ type.idFields.length ∧
      fault = .idLength type.name type.idFields.length id.length := by
  have run : (do
      let schema ← Report.schema.toOption
      let build ← schema.type? "build"
      let plain ← (expand schema [root build none false] false .any none .furthest).toOption
      pure (plain.map (fun c => c.steps.map fun s => (s.type.name, s.type.idFields.length,
          s.matched)),
        (expand schema [root build none false] false .any (some [[some "x"]])
          .furthest).toOption.isNone)) =
        some ([[("revision", 2, true), ("checkout", 1, false), ("build", 1, false)]], true) := by
    decide +kernel
  simp only [Option.bind_eq_bind, Option.pure_def, Option.bind_eq_some_iff, toOption_eq_some,
    Option.some.injEq, Prod.mk.injEq] at run
  obtain ⟨schema, accepted, build, found, plain, done, steps, failed⟩ := run
  have known : ∀ c ∈ [root build none false], c.tip.type ∈ schema.types.values := by
    simpa [root] using Schema.type?_mem found
  have based : [root build none false] = [] → false = true := by simp
  obtain ⟨_, _, _, _, _, faults, _⟩ :=
    wildcard_measures_ids accepted known based .furthest [[some "x"]]
  cases refused : expand schema [root build none false] false .any (some [[some "x"]])
      .furthest with
  | ok chains =>
    rw [refused] at failed
    cases failed
  | error fault =>
    exact ⟨schema, build, plain, fault, accepted, found, done, steps, refused, faults fault refused⟩

end ObjectQuery.Chain

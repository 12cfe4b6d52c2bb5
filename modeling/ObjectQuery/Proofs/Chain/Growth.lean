import ObjectQuery.Chain.Collection
import ObjectQuery.Pattern.Reading
import ObjectQuery.Proofs.Schema.Accepted

/-! What a new step of a chain has to meet, and properties of chains that every new step keeps.
Such a property holds of all chains that come from expansion, from a pattern string or from a
collection, if it holds of those that they start from. -/
namespace ObjectQuery

open Outcome

namespace Chain

/-- A step without a base goes down, one with a base along a relation of the base's own type. -/
def Admits (base : Option Chain) (down : Bool) (type : ObjectType) : Prop :=
  match base with
  | none => down = true
  | some c => type.name ∈ (c.tip.type.related down).keys

/-- Every ID has as many components as the type has ID fields. -/
def Fits (type : ObjectType) (ids : Option IdList) : Prop :=
  ∀ list ∈ ids, ∀ id ∈ list, id.length = type.idFields.length

theorem fits_some {type : ObjectType} {ids : IdList} :
    Fits type (some ids) ↔ ∀ id ∈ ids, id.length = type.idFields.length := by
  simp [Fits]

theorem checkBase_eq_ok {base : Option Chain} {down : Bool} {type : ObjectType} {u : Unit} :
    checkBase base down type = .ok u ↔ Admits base down type := by
  cases base with
  | none => cases down <;> simp [checkBase, Admits]
  | some c =>
    by_cases related : type.name ∈ (c.tip.type.related down).keys
    · simp [checkBase, Admits, Table.contains, related]
    · simp [checkBase, Admits, Table.contains, related]

theorem checkIds_eq_ok {type : ObjectType} {ids : Option IdList} {u : Unit} :
    checkIds type ids = .ok u ↔ Fits type ids := by
  unfold checkIds Fits
  split
  · next id found =>
    have bad := List.find?_some found
    have member := List.mem_of_find?_eq_some found
    cases ids with
    | none => simp at member
    | some list =>
      have short : id.length ≠ type.idFields.length := by simpa using bad
      simpa using ⟨id, member, short⟩
  · next missing =>
    cases ids with
    | none => simp
    | some list => simpa using missing

theorem make_eq_ok {base : Option Chain} {down : Bool} {type : ObjectType} {ids : Option IdList}
    {matched : Bool} {c : Chain} :
    make base down type ids matched = .ok c ↔
      Admits base down type ∧ Fits type ids ∧
        c = ⟨⟨down, type, ids, matched⟩, base.elim [] steps⟩ := by
  simp only [make, bind_eq_ok, pure_eq_ok, checkBase_eq_ok, checkIds_eq_ok]
  constructor
  · rintro ⟨_, admits, _, fits, rfl⟩
    exact ⟨admits, fits, rfl⟩
  · rintro ⟨admits, fits, rfl⟩
    exact ⟨(), admits, (), fits, rfl⟩

theorem relatedType_eq_ok {schema : Schema} {down : Bool} {name : String} {type : ObjectType} :
    relatedType schema down name = .ok type ↔ schema.type? name = some type := by
  unfold relatedType
  split <;> simp_all

theorem extend_eq_ok {schema : Schema} {down : Bool} {ids : Option IdList} {matched : Bool}
    {c grown : Chain} {name : String} :
    extend schema down ids matched c name = .ok grown ↔
      ∃ type, schema.type? name = some type ∧ make (some c) down type ids matched = .ok grown := by
  simp [extend, relatedType_eq_ok]

section Targets

variable {schema : Schema} {frontier chains : List Chain} {down : Bool} {ids : Option IdList}
  {scope : Scope}

theorem expand_named (based : frontier = [] → down = true) (name : String) (scope : Scope) :
    expand schema frontier down (.named name) ids scope =
      expandName schema frontier down name ids (scope != .none) := by
  rw [expand, if_neg (by simpa using based)]

theorem expand_any (based : frontier = [] → down = true) (scope : Scope) :
    expand schema frontier down .any ids scope =
      (do pure ((← expandAny schema frontier down ids (scope == .all)).map fun c =>
        if scope = .furthest then c.mark true else c)) := by
  rw [expand, if_neg (by simpa using based)]
  cases scope <;> simp

theorem expand_unbased (unbased : ¬(frontier = [] → down = true)) (target : Target)
    (scope : Scope) : expand schema frontier down target ids scope = .error .missingParentBase :=
  if_pos (by simpa using unbased)

theorem expand_named_eq_ok {name : String} :
    expand schema frontier down (.named name) ids scope = .ok chains ↔
      (frontier = [] → down = true) ∧
        expandName schema frontier down name ids (scope != .none) = .ok chains := by
  by_cases based : frontier = [] → down = true
  · rw [expand_named based, and_iff_right based]
  · simp [expand_unbased based, based]

theorem expand_any_eq_ok :
    expand schema frontier down .any ids scope = .ok chains ↔
      (frontier = [] → down = true) ∧ ∃ plain,
        expandAny schema frontier down ids (scope == .all) = .ok plain ∧
        plain.map (fun c => if scope = .furthest then c.mark true else c) = chains := by
  by_cases based : frontier = [] → down = true
  · rw [expand_any based, and_iff_right based]
    exact map_eq_ok
  · simp [expand_unbased based, based]

end Targets

/-- A property of chains that a new step of one of the types keeps, and a mark too. -/
structure Keeps (property : Chain → Prop) (types : ObjectType → Prop) (ids : Option IdList) :
    Prop where
  made : ∀ {base down type matched c}, (∀ b ∈ base, property b) → types type →
    make base down type ids matched = .ok c → property c
  marked : ∀ {c}, property c → property (c.mark true)

theorem Keeps.both {property other : Chain → Prop} {types : ObjectType → Prop} {ids : Option IdList}
    (keeps : Keeps property types ids) (keepsOther : Keeps other types ids) :
    Keeps (fun c => property c ∧ other c) types ids where
  made start member done :=
    ⟨keeps.made (fun b inside => (start b inside).1) member done,
      keepsOther.made (fun b inside => (start b inside).2) member done⟩
  marked good := ⟨keeps.marked good.1, keepsOther.marked good.2⟩

/-- What holds of each new step, marked or not, holds of all steps. -/
theorem Keeps.ofSteps {types : ObjectType → Prop} {ids : Option IdList} {holds : Step → Prop}
    (new : ∀ down type matched, types type → holds ⟨down, type, ids, matched⟩)
    (marked : ∀ s, holds s → holds { s with matched := true }) :
    Keeps (fun c => ∀ s ∈ c.steps, holds s) types ids where
  made := by
    intro base down type matched c start member done s inside
    obtain ⟨_, _, rfl⟩ := make_eq_ok.mp done
    rcases List.mem_cons.mp inside with rfl | earlier
    · exact new down type matched member
    · cases base with
      | none => cases earlier
      | some b => exact start b rfl s earlier
  marked := by
    intro c good s inside
    rcases List.mem_cons.mp inside with rfl | earlier
    · exact marked c.tip (good c.tip List.mem_cons_self)
    · exact good s (List.mem_cons_of_mem c.tip earlier)

namespace Keeps

variable {property : Chain → Prop} {types : ObjectType → Prop} {ids : Option IdList}
  {schema : Schema} (keeps : Keeps property types ids)
  (known : ∀ type ∈ schema.types.values, types type)
include keeps known

theorem extend {down matched : Bool} {c grown : Chain} {name : String} (start : property c)
    (done : Chain.extend schema down ids matched c name = .ok grown) : property grown := by
  obtain ⟨type, found, made⟩ := extend_eq_ok.mp done
  exact keeps.made (by simpa using start) (known type (Schema.type?_mem found)) made

theorem expandName {frontier chains : List Chain} {down matched : Bool} {name : String}
    (start : ∀ c ∈ frontier, property c)
    (done : Chain.expandName schema frontier down name ids matched = .ok chains) :
    ∀ c ∈ chains, property c := by
  unfold Chain.expandName at done
  split at done
  · split at done
    · next type found =>
      obtain ⟨c, made, rfl⟩ : ∃ c, make none true type ids matched = .ok c ∧ [c] = chains := by
        simpa using done
      simpa using keeps.made (by simp) (known type (Schema.type?_mem found)) made
    · cases done
  · obtain ⟨grown, each, done⟩ := bind_eq_ok.mp done
    have same : grown = chains := by
      split at done
      · cases done
      · exact pure_eq_ok.mp done
    intro c member
    obtain ⟨b, inside, made⟩ := mem_of_mapM each (same ▸ member)
    exact keeps.extend known (start b (List.mem_filter.mp inside).1) made

theorem grow {b : Branch} {grown : List Branch} {down matched : Bool} (start : property b.chain)
    (done : Branch.grow schema down ids matched b = .ok grown) :
    ∀ g ∈ grown, property g.chain := by
  intro g member
  unfold Branch.grow at done
  split at done
  · obtain rfl : [b] = grown := by simpa using done
    rwa [List.mem_singleton.mp member]
  · obtain ⟨name, _, step⟩ := mem_of_mapM done member
    obtain ⟨c, made, rfl⟩ : ∃ c, Chain.extend schema down ids matched b.chain name = .ok c ∧
        ⟨c, b.depth + 1⟩ = g := by simpa using step
    exact keeps.extend known start made

theorem round {branches grown : List Branch} {down matched : Bool}
    (start : ∀ b ∈ branches, property b.chain)
    (done : Chain.round schema down ids matched branches = .ok grown) :
    ∀ g ∈ grown, property g.chain := by
  obtain ⟨lists, each, rfl⟩ : ∃ lists, branches.mapM (Branch.grow schema down ids matched) =
      .ok lists ∧ lists.flatten = grown := by simpa [Chain.round] using done
  intro g member
  obtain ⟨list, inside, member⟩ := List.mem_flatten.mp member
  obtain ⟨b, within, grows⟩ := mem_of_mapM each inside
  exact keeps.grow known (start b within) grows g member

theorem settle {rounds : Nat} {branches settled : List Branch} {down matched : Bool}
    (start : ∀ b ∈ branches, property b.chain)
    (done : Chain.settle schema down ids matched rounds branches = .ok settled) :
    ∀ b ∈ settled, property b.chain := by
  induction rounds generalizing branches with
  | zero =>
    obtain rfl : branches = settled := by simpa [Chain.settle] using done
    exact start
  | succ rounds ih =>
    rw [Chain.settle] at done
    obtain ⟨grown, first, done⟩ := bind_eq_ok.mp done
    have next := keeps.round known start first
    split at done
    · obtain rfl := pure_eq_ok.mp done
      exact next
    · exact ih next done

theorem seeds {frontier : List Chain} {branches : List Branch} {matched : Bool}
    (start : ∀ c ∈ frontier, property c)
    (done : Chain.seeds schema frontier ids matched = .ok branches) :
    ∀ b ∈ branches, property b.chain := by
  intro b member
  unfold Chain.seeds at done
  split at done
  · obtain ⟨type, inside, step⟩ := mem_of_mapM done member
    obtain ⟨c, made, rfl⟩ : ∃ c, make none true type ids matched = .ok c ∧ ⟨c, 1⟩ = b := by
      simpa using step
    exact keeps.made (by simp) (known type inside) made
  · obtain rfl : frontier.map (fun c => ⟨c, 0⟩) = branches := by simpa using done
    obtain ⟨c, inside, rfl⟩ := List.mem_map.mp member
    exact start c inside

theorem expandAny {frontier chains : List Chain} {down matched : Bool}
    (start : ∀ c ∈ frontier, property c)
    (done : Chain.expandAny schema frontier down ids matched = .ok chains) :
    ∀ c ∈ chains, property c := by
  obtain ⟨branches, first, settled, last, rfl⟩ : ∃ branches,
      Chain.seeds schema frontier ids matched = .ok branches ∧ ∃ settled,
      Chain.settle schema down ids matched (schema.types.size + 1) branches = .ok settled ∧
      settled.map Branch.chain = chains := by simpa [Chain.expandAny] using done
  have reached := keeps.settle known (keeps.seeds known start first) last
  intro c member
  obtain ⟨b, inside, rfl⟩ := List.mem_map.mp member
  exact reached b inside

/-- Expansion makes new steps and marks tips, and does nothing else. -/
theorem expand {frontier chains : List Chain} {down : Bool} {target : Target} {scope : Scope}
    (start : ∀ c ∈ frontier, property c)
    (done : Chain.expand schema frontier down target ids scope = .ok chains) :
    ∀ c ∈ chains, property c := by
  cases target with
  | named name => exact keeps.expandName known start (expand_named_eq_ok.mp done).2
  | any =>
    obtain ⟨_, plain, settled, rfl⟩ := expand_any_eq_ok.mp done
    intro c member
    obtain ⟨b, inside, rfl⟩ := List.mem_map.mp member
    have reached := keeps.expandAny known start settled b inside
    split
    · exact keeps.marked reached
    · exact reached

end Keeps

/-- Where the ID list of a step may come from. -/
inductive Supply (lists : Option (List IdList)) : Option IdList → Prop
  | absent : Supply lists none
  | listed {list : List IdList} {ids : IdList} : lists = some list → ids ∈ list →
      Supply lists (some ids)
  | inline {inner : List Char} {ids : IdList} : IdList.read inner = .ok ids →
      Supply lists (some ids)

theorem resolve_supply {source : IdSource} {position : Nat} {lists left : Option (List IdList)}
    {ids : Option IdList} (done : source.resolve position lists = .ok (ids, left)) :
    Supply lists ids ∧ ∀ other, Supply left other → Supply lists other := by
  cases source with
  | absent =>
    obtain ⟨rfl, rfl⟩ := Prod.mk.inj (Except.ok.inj done)
    exact ⟨.absent, fun _ supply => supply⟩
  | placeholder =>
    match lists, done with
    | some (first :: rest), done =>
      obtain ⟨rfl, rfl⟩ := Prod.mk.inj (Except.ok.inj done)
      refine ⟨.listed rfl List.mem_cons_self, fun other supply => ?_⟩
      cases supply with
      | absent => exact .absent
      | listed same member =>
        obtain rfl := Option.some.inj same
        exact .listed rfl (List.mem_cons_of_mem _ member)
      | inline read => exact .inline read
  | inline inner =>
    simp only [IdSource.resolve] at done
    split at done
    · next list read =>
      obtain ⟨rfl, rfl⟩ := Prod.mk.inj (Except.ok.inj done)
      exact ⟨.inline read, fun _ supply => supply⟩
    · cases done

end Chain

namespace Reading

/-- A step draws its IDs, expands the frontier, and goes on behind the text of its
specification. -/
theorem step_eq_ok {schema : Schema} {r next : Reading} {s : Specification} :
    step schema r s = .ok next ↔
      ∃ ids left grown, s.ids.resolve r.position r.lists = .ok (ids, left) ∧
        Chain.expand schema r.frontier s.down s.target ids s.scope = .ok grown ∧
        next = ⟨r.position + Pattern.bytes s.text, r.rest.drop s.text.length, grown, left⟩ := by
  constructor
  · intro done
    obtain ⟨⟨ids, left⟩, resolved, done⟩ := bind_eq_ok.mp done
    dsimp only at done
    split at done
    · next grown expanded => exact ⟨ids, left, grown, resolved, expanded, (pure_eq_ok.mp done).symm⟩
    · cases done
  · rintro ⟨ids, left, grown, resolved, expanded, rfl⟩
    rw [step, resolved]
    simp only [bind, Except.bind, expanded]
    rfl

theorem finish_eq_ok {text : String} {r : Reading} {chains : List Chain} :
    r.finish text = .ok chains ↔
      r.rest = [] ∧ (∀ list ∈ r.lists, list = []) ∧ r.frontier = chains := by
  unfold finish
  split
  · next onward => simp_all
  · next ended =>
    split
    · simp_all
    · next none =>
      cases lists : r.lists with
      | none => simp_all
      | some list => cases list <;> simp_all

/-- What expansion with every ID list at hand keeps of a frontier holds wherever a reading comes
to. -/
theorem fold_induction {schema : Schema} {specifications : List Specification} {cs : List Char}
    {lists : Option (List IdList)} {last : Reading} (property : List Chain → Prop)
    (start : property [])
    (expands : ∀ frontier down target ids scope grown, Chain.Supply lists ids → property frontier →
      Chain.expand schema frontier down target ids scope = .ok grown → property grown)
    (run : specifications.foldlM (step schema) (.start cs lists) = .ok last) :
    property last.frontier := by
  have reached : property last.frontier ∧
      ∀ ids, Chain.Supply last.lists ids → Chain.Supply lists ids := by
    refine foldlM_invariant
      (fun r => property r.frontier ∧ ∀ ids, Chain.Supply r.lists ids → Chain.Supply lists ids)
      ?_ ⟨start, fun _ supply => supply⟩ run
    intro r s next ⟨good, left⟩ step
    obtain ⟨ids, rest, grown, resolved, expanded, rfl⟩ := step_eq_ok.mp step
    obtain ⟨supply, fewer⟩ := Chain.resolve_supply resolved
    exact ⟨expands _ _ _ ids _ _ (left ids supply) good expanded,
      fun other later => left other (fewer other later)⟩
  exact reached.1

end Reading

namespace Chain

theorem parse_induction {schema : Schema} {text : String} {lists : Option (List IdList)}
    {chains : List Chain} (property : List Chain → Prop) (start : property [])
    (expands : ∀ frontier down target ids scope grown, Supply lists ids → property frontier →
      expand schema frontier down target ids scope = .ok grown → property grown)
    (done : parse schema text lists = .ok chains) : property chains := by
  obtain ⟨last, run, finish⟩ := bind_eq_ok.mp done
  obtain ⟨_, _, rfl⟩ := Reading.finish_eq_ok.mp finish
  exact Reading.fold_induction property start expands run

/-- A property that steps with every ID list at hand keep holds of all chains of a pattern
string. -/
theorem Keeps.parse {property : Chain → Prop} {types : ObjectType → Prop} {schema : Schema}
    {text : String} {lists : Option (List IdList)} {chains : List Chain}
    (keeps : ∀ ids, Supply lists ids → Keeps property types ids)
    (known : ∀ type ∈ schema.types.values, types type)
    (done : Chain.parse schema text lists = .ok chains) : ∀ c ∈ chains, property c :=
  parse_induction (fun frontier => ∀ c ∈ frontier, property c) (by simp)
    (fun _ _ _ ids _ _ supply start expanded => (keeps ids supply).expand known start expanded)
    done

theorem Keeps.ofCollection {property : Chain → Prop} {types : ObjectType → Prop} {schema : Schema}
    {data : Json} {chains : List Chain} (keeps : ∀ ids, Keeps property types ids)
    (known : ∀ type ∈ schema.types.values, types type)
    (done : Chain.ofCollection schema data = .ok chains) : ∀ c ∈ chains, property c := by
  intro c member
  obtain ⟨type, inside, step⟩ := mem_of_mapM done member
  obtain ⟨ids, _, made⟩ := bind_eq_ok.mp step
  exact (keeps _).made (by simp) (known type (List.mem_filter.mp inside).1) made

end Chain

end ObjectQuery

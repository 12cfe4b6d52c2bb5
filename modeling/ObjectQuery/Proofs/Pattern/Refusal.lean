import ObjectQuery.Proofs.Chain.Restriction
import ObjectQuery.Proofs.Pattern.Evaluation

/-! What pattern strings are refused for. An expansion is refused for one of four reasons, whatever
frontier it starts from: each step that it makes itself is along a relation, and so passes the check
of its base. The ID list between the brackets of a specification is never one that cannot be
read. -/
namespace ObjectQuery

open Outcome Pattern Grammar

namespace Chain

variable {description : Description} {schema : Schema} {frontier : List Chain} {down : Bool}
  {target : Target} {ids : Option IdList} {scope : Scope} {fault : PatternFault}

/-- What an expansion is refused for, and where it is. -/
inductive Refusal (schema : Schema) (frontier : List Chain) (down : Bool) (ids : Option IdList) :
    Target → PatternFault → Prop
  | unbased {target : Target} : frontier = [] → down = false →
      Refusal schema frontier down ids target .missingParentBase
  | unknown {name : String} : frontier = [] → schema.type? name = none →
      Refusal schema frontier down ids (.named name) (.unknownType .root name)
  | unrelated {name : String} : frontier ≠ [] →
      (∀ c ∈ frontier, name ∉ (c.tip.type.related down).keys) →
      Refusal schema frontier down ids (.named name) (.unknownType (.along down) name)
  | length {target : Target} {type : ObjectType} {list : IdList} {id : Id} :
      type ∈ schema.types.values → ids = some list → id ∈ list →
      id.length ≠ type.idFields.length →
      Refusal schema frontier down ids target
        (.idLength type.name type.idFields.length id.length)

/-- A computation that measures IDs against types of the schema is refused for their lengths. -/
theorem Measured.refusal {α : Type} {types : List ObjectType}
    (measured : Measured ids types (.error fault : Except PatternFault α))
    (known : ∀ type ∈ types, type ∈ schema.types.values) :
    Refusal schema frontier down ids target fault := by
  cases measured with
  | error given limited member other => exact .length (known _ given) limited member other

theorem walksWithin_known {steps : Nat} {type : ObjectType} {seen : List String} :
    ∀ walk ∈ walksWithin schema down steps type seen, ∀ next ∈ walk,
      next ∈ schema.types.values := by
  induction steps generalizing type seen with
  | zero => simp [walksWithin]
  | succ steps ih =>
    intro walk inside next member
    rw [walksWithin] at inside
    split at inside
    · rw [List.mem_singleton.mp inside] at member
      cases member
    · obtain ⟨first, exit, inside⟩ := List.mem_flatMap.mp inside
      obtain ⟨rest, later, rfl⟩ := List.mem_map.mp inside
      obtain ⟨_, _, found⟩ := List.mem_filterMap.mp exit
      rcases List.mem_cons.mp member with rfl | member
      · exact Schema.type?_mem found
      · exact ih rest later next member

/-- A wildcard steps into types of the schema only. -/
theorem onto_known : ∀ type ∈ (ways schema down frontier).flatMap Way.onto,
    type ∈ schema.types.values := by
  intro type member
  obtain ⟨w, way, onto⟩ := List.mem_flatMap.mp member
  unfold ways at way
  split at way
  · obtain ⟨first, known, way⟩ := List.mem_flatMap.mp way
    obtain ⟨walk, inside, rfl⟩ := List.mem_map.mp way
    rcases List.mem_cons.mp onto with rfl | onto
    · exact known
    · exact walksWithin_known walk inside type onto
  · obtain ⟨c, _, way⟩ := List.mem_flatMap.mp way
    obtain ⟨walk, inside, rfl⟩ := List.mem_map.mp way
    exact walksWithin_known walk inside type onto

section Accepted

variable (accepted : Schema.ofDescription description = .ok schema)
  (known : ∀ c ∈ frontier, c.tip.type ∈ schema.types.values)
include accepted known

theorem expandName_refused {name : String} {matched : Bool}
    (failed : expandName schema frontier down name ids matched = .error fault) :
    Refusal schema frontier down ids (.named name) fault := by
  unfold expandName at failed
  split at failed
  · next root =>
    have empty : frontier = [] := List.isEmpty_iff.mp root
    split at failed
    · next type found =>
      have measured := (make_measured ids matched (show Admits none true type from rfl)).map
        fun c => [c]
      rw [failed] at measured
      exact measured.refusal (by simpa using Schema.type?_mem found)
    · next missing =>
      obtain rfl := Except.error.inj failed
      exact .unknown empty missing
  · next onward =>
    have started : frontier ≠ [] := mt List.isEmpty_iff.mpr onward
    let bases := frontier.filter fun c => (c.tip.type.related down).contains name
    have each : Measured ids (bases.flatMap fun _ => (schema.type? name).toList)
        (bases.mapM fun c => extend schema down ids matched c name) :=
      Measured.mapM fun c member => by
        obtain ⟨inside, related⟩ := List.mem_filter.mp member
        exact extend_measured accepted (known c inside) (by simpa [Table.contains] using related)
    rcases bind_eq_error.mp failed with refused | ⟨grown, ran, failed⟩
    · rw [refused] at each
      refine each.refusal fun type given => ?_
      obtain ⟨_, _, found⟩ := List.mem_flatMap.mp given
      exact Schema.type?_mem (Option.mem_toList.mp found)
    · split at failed
      · obtain rfl := Except.error.inj failed
        refine .unrelated started fun c inside related => ?_
        obtain ⟨_, given, _⟩ := ok_of_mapM ran
          (List.mem_filter.mpr ⟨inside, by simpa [Table.contains] using related⟩)
        cases given
      · cases failed

/-- An expansion of chains over the types of a schema is refused for nothing else. -/
theorem expand_refused (failed : expand schema frontier down target ids scope = .error fault) :
    Refusal schema frontier down ids target fault := by
  by_cases based : frontier = [] → down = true
  · cases target with
    | named name =>
      rw [expand_named based] at failed
      exact expandName_refused accepted known failed
    | any =>
      have measured := expand_any_measured accepted known based ids scope
      rw [failed] at measured
      exact measured.refusal onto_known
  · rw [expand_unbased based] at failed
    obtain rfl := Except.error.inj failed
    obtain ⟨empty, up⟩ : frontier = [] ∧ ¬ down = true := by simpa using based
    exact .unbased empty (by simpa using up)

end Accepted

end Chain

namespace Reading

variable {schema : Schema} {text : String} {fault : PatternFault}

/-- Why a reading does not go on from where it has come to. -/
inductive Halts (schema : Schema) (text : String) (r : Reading) : PatternFault → Prop
  | noIdLists : r.rest ≠ [] → Halts schema text r (.noIdLists r.position)
  | notEnoughIdLists : r.rest ≠ [] → Halts schema text r (.notEnoughIdLists r.position)
  | expansion {down : Bool} {target : Target} {ids : Option IdList} {scope : Scope}
      {cause : PatternFault} : r.rest ≠ [] →
      Chain.expand schema r.frontier down target ids scope = .error cause →
      Halts schema text r (.expansion r.position (String.ofList r.rest) cause)
  | syntaxError : r.rest ≠ [] → Specification.read? r.rest = none →
      Halts schema text r (.syntaxError text r.position (String.ofList r.rest))
  | tooManyIdLists : r.rest = [] → Halts schema text r (.tooManyIdLists text)

/-- The chains of a frontier end at types of the schema. -/
theorem tips_known {specifications : List Specification} {cs : List Char}
    {lists : Option (List IdList)} {reached : Reading}
    (run : specifications.foldlM (step schema) (.start cs lists) = .ok reached) :
    ∀ c ∈ reached.frontier, c.tip.type ∈ schema.types.values :=
  fold_induction (fun frontier => ∀ c ∈ frontier, c.tip.type ∈ schema.types.values) (by simp)
    (fun _ _ _ ids _ _ _ known done => (Chain.tip_kept schema ids).expand (fun _ => id) known done)
    run

/-- The list of a specification that means something has been read already. -/
theorem step_halts {r : Reading} {s : Specification} {c : Clause} (means : s.Means c)
    (onward : r.rest ≠ []) (failed : step schema r s = .error fault) :
    Halts schema text r fault := by
  rcases bind_eq_error.mp failed with refused | ⟨⟨ids, lists⟩, _, failed⟩
  · rw [means.ids.resolve] at refused
    rcases (resolve_error refused).2 with ⟨_, rfl⟩ | ⟨_, rfl⟩
    · exact .noIdLists onward
    · exact .notEnoughIdLists onward
  · dsimp only at failed
    split at failed
    · cases failed
    · next cause refused =>
      obtain rfl := Except.error.inj failed
      exact .expansion onward refused

theorem finish_halts {r : Reading} (stuck : Specification.read? r.rest = none)
    (failed : finish text r = .error fault) : Halts schema text r fault := by
  unfold finish at failed
  split at failed
  · next onward =>
    obtain rfl := Except.error.inj failed
    exact .syntaxError (by simpa using onward) stuck
  · next ended =>
    split at failed
    · obtain rfl := Except.error.inj failed
      exact .tooManyIdLists (by simpa using ended)
    · cases failed

end Reading

theorem Specification.read?_readAll (cs : List Char) : read? (readAll cs).2 = none := by
  fun_induction readAll cs with
  | case1 _ missing => exact missing
  | case2 _ _ _ _ ih => exact ih

namespace Chain

variable {description : Description} {schema : Schema} {text : String}
  {lists : Option (List IdList)} {fault : PatternFault}

/-- A reading that fails has come to some place behind the first specifications, and halts
there. -/
theorem parse_halts (failed : parse schema text lists = .error fault) :
    ∃ front reached, front <+: (Specification.readAll text.toList).1 ∧
      front.foldlM (Reading.step schema) (.start text.toList lists) = .ok reached ∧
      text.toList = front.flatMap Specification.text ++ reached.rest ∧
      reached.Halts schema text fault := by
  have split := Specification.readAll_text text.toList
  rcases bind_eq_error.mp failed with failed | ⟨last, run, failed⟩
  · obtain ⟨front, s, after, reached, all, run, failed⟩ := error_of_foldlM failed
    obtain ⟨c, means⟩ := Specification.readAll_means text.toList s (by simp [all])
    rw [all, List.flatMap_append, List.flatMap_cons, List.append_assoc] at split
    obtain ⟨_, rest⟩ := Reading.fold_reached run split.symm
    refine ⟨front, reached, ⟨s :: after, all.symm⟩, run, rest ▸ split.symm, ?_⟩
    exact Reading.step_halts means (by simp [rest, Specification.text_ne_nil]) failed
  · obtain ⟨_, rest⟩ := Reading.fold_reached run split.symm
    refine ⟨_, last, List.prefix_rfl, run, rest ▸ split.symm, ?_⟩
    exact Reading.finish_halts (rest ▸ Specification.read?_readAll text.toList) failed

end Chain

/-- What a pattern string is refused for, if the schema has been accepted. -/
inductive PatternFault.OfReading (schema : Schema) (text : String) : PatternFault → Prop
  | syntaxError {position : Nat} {rest : String} :
      OfReading schema text (.syntaxError text position rest)
  | noIdLists {position : Nat} : OfReading schema text (.noIdLists position)
  | notEnoughIdLists {position : Nat} : OfReading schema text (.notEnoughIdLists position)
  | tooManyIdLists : OfReading schema text (.tooManyIdLists text)
  | expansion {position : Nat} {rest : String} {frontier : List Chain} {down : Bool}
      {ids : Option IdList} {target : Target} {cause : PatternFault} :
      Chain.Refusal schema frontier down ids target cause →
      OfReading schema text (.expansion position rest cause)

namespace Chain

variable {description : Description} {schema : Schema}

/-- A pattern string is refused for its syntax, for the number of ID lists, or for an expansion to a
type that is not there, to parents of nothing, or with an ID of another length. No ID list within it
is ever refused, and no step that an expansion makes is without the relation it needs. -/
theorem parse_refusals (accepted : Schema.ofDescription description = .ok schema) (text : String)
    (lists : Option (List IdList)) {fault : PatternFault}
    (failed : parse schema text lists = .error fault) :
    fault.OfReading schema text ∧ ∀ cause ∈ fault.causes,
      (∀ inner position, cause ≠ .invalidIdList inner position) ∧
      (∀ kind type base, cause ≠ .notRelated kind type base) ∧
      ∀ type, cause ≠ .rootParent type := by
  obtain ⟨front, reached, _, run, _, halts⟩ := parse_halts failed
  cases halts with
  | noIdLists => exact ⟨.noIdLists, by simp [PatternFault.causes]⟩
  | notEnoughIdLists => exact ⟨.notEnoughIdLists, by simp [PatternFault.causes]⟩
  | syntaxError => exact ⟨.syntaxError, by simp [PatternFault.causes]⟩
  | tooManyIdLists => exact ⟨.tooManyIdLists, by simp [PatternFault.causes]⟩
  | expansion _ refused =>
    have refusal := expand_refused accepted (Reading.tips_known run) refused
    refine ⟨.expansion refusal, ?_⟩
    cases refusal <;> simp [PatternFault.causes]

/-- The wildcard steps up to revisions, which have two ID fields. -/
theorem parse_refusals_of_reports : ∃ reports fault,
    Report.schema = .ok reports ∧
    parse reports ">build[\"]\"] < * [a]" none = .error fault ∧
    fault = .expansion 12 "< * [a]" (.idLength "revision" 2 1) ∧
    fault.OfReading reports ">build[\"]\"] < * [a]" ∧
    ∀ cause ∈ fault.causes,
      (∀ inner position, cause ≠ .invalidIdList inner position) ∧
      (∀ kind type base, cause ≠ .notRelated kind type base) ∧
      ∀ type, cause ≠ .rootParent type := by
  have run : (do
      let reports ← Report.schema.toOption
      error? (parse reports ">build[\"]\"] < * [a]" none)) =
        some (.expansion 12 "< * [a]" (.idLength "revision" 2 1)) := by
    decide +kernel
  simp only [Option.bind_eq_bind, Option.bind_eq_some_iff, toOption_eq_some, error?_eq_some]
    at run
  obtain ⟨reports, accepted, failed⟩ := run
  exact ⟨reports, _, accepted, failed, rfl, parse_refusals accepted _ _ failed⟩

end Chain

end ObjectQuery

import ObjectQuery.Proofs.Chain.Acyclic
import ObjectQuery.Proofs.Pattern.Refusal

/-! Frontiers that are not empty. Without a frontier an expansion starts at the root, so one that
comes to no chains would send the next one back there. It does not happen where there are types: a
name that leads nowhere is refused, and a wildcard gives no chain up. -/
namespace ObjectQuery

open Outcome Pattern

variable {description : Description} {schema : Schema}

namespace Chain

variable {frontier chains : List Chain} {down matched : Bool} {ids : Option IdList}

theorem expandName_ne_nil {name : String}
    (done : expandName schema frontier down name ids matched = .ok chains) : chains ≠ [] := by
  unfold expandName at done
  split at done
  · split at done
    · obtain ⟨c, _, rfl⟩ := map_eq_ok.mp done
      simp
    · cases done
  · obtain ⟨grown, _, done⟩ := bind_eq_ok.mp done
    split at done
    · cases done
    · next some =>
      obtain rfl := pure_eq_ok.mp done
      exact some

theorem origins_eq_nil :
    origins schema frontier ids matched = [] ↔ frontier = [] ∧ schema.types.values = [] := by
  unfold origins
  split
  · next empty => simp [List.isEmpty_iff.mp empty]
  · next some => simp_all

/-- Nothing can come only of a wildcard at the root, where there is no type to step into. -/
theorem expand_eq_nil (accepted : Schema.ofDescription description = .ok schema)
    (known : ∀ c ∈ frontier, c.tip.type ∈ schema.types.values) {target : Target} {scope : Scope}
    (done : expand schema frontier down target ids scope = .ok []) :
    target = .any ∧ frontier = [] ∧ schema.types.values = [] := by
  cases target with
  | named name => exact absurd rfl (expandName_ne_nil (expand_named_eq_ok.mp done).2)
  | any =>
    obtain ⟨_, plain, settled, none⟩ := expand_any_eq_ok.mp done
    obtain rfl := List.map_eq_nil_iff.mp none
    exact ⟨rfl, origins_eq_nil.mp (origins_of_expandAny_nil accepted known settled)⟩

end Chain

namespace Reading

variable {specifications : List Specification} {cs : List Char} {lists : Option (List IdList)}
  {reached : Reading}

/-- A reading is at the root only before its first specification. -/
theorem frontier_eq_nil_iff (accepted : Schema.ofDescription description = .ok schema)
    (typed : schema.types.values ≠ [])
    (run : specifications.foldlM (step schema) (.start cs lists) = .ok reached) :
    reached.frontier = [] ↔ specifications = [] := by
  constructor
  · intro empty
    -- Only the last specification matters: it alone has left the frontier as it is.
    rcases List.eq_nil_or_concat specifications with none | ⟨earlier, s, rfl⟩
    · exact none
    · rw [List.concat_eq_append, List.foldlM_append] at run
      obtain ⟨before, ran, last⟩ := bind_eq_ok.mp run
      obtain ⟨_, _, grown, _, expanded, rfl⟩ := step_eq_ok.mp (by simpa using last)
      obtain rfl : grown = [] := empty
      exact absurd (Chain.expand_eq_nil accepted (tips_known ran) expanded).2.2 typed
  · rintro rfl
    obtain rfl := pure_eq_ok.mp run
    rfl

end Reading

namespace Chain

/-- Over a schema with types no specification that goes through leaves the frontier empty, so none
behind it is taken for one at the root. Only the empty text comes to nothing, and parents of nothing
are asked for only by the first specification of a text. -/
theorem parse_never_starts_over (accepted : Schema.ofDescription description = .ok schema)
    (typed : schema.types.values ≠ []) (text : String) (lists : Option (List IdList)) :
    (∀ front reached, front <+: (Specification.readAll text.toList).1 →
      front.foldlM (Reading.step schema) (.start text.toList lists) = .ok reached →
      (reached.frontier = [] ↔ front = [])) ∧
    (parse schema text lists = .ok [] → text = "") ∧
    ∀ position rest,
      parse schema text lists = .error (.expansion position rest .missingParentBase) →
      position = 0 ∧ rest = text := by
  refine ⟨fun front reached _ run => Reading.frontier_eq_nil_iff accepted typed run,
    fun done => ?_, fun position rest failed => ?_⟩
  · obtain ⟨last, run, finish⟩ := bind_eq_ok.mp done
    obtain ⟨ended, _, empty⟩ := Reading.finish_eq_ok.mp finish
    have split := Specification.readAll_text text.toList
    have left : last.rest = (Specification.readAll text.toList).2 :=
      (Reading.fold_reached run split.symm).2
    have none := (Reading.frontier_eq_nil_iff accepted typed run).mp empty
    rw [none, ← left, ended] at split
    simpa using split.symm
  · obtain ⟨front, reached, _, run, split, halts⟩ := parse_halts failed
    cases halts with
    | expansion _ refused =>
      cases expand_refused accepted (Reading.tips_known run) refused with
      | unbased empty =>
        obtain rfl := (Reading.frontier_eq_nil_iff accepted typed run).mp empty
        obtain rfl := pure_eq_ok.mp run
        exact ⟨rfl, by simp [Reading.start]⟩

/-- Tests have no children, so the wildcard leaves them as they are, and the step up goes on from
there. A step up at the start of a text is refused, and shown with the blanks before it. -/
theorem parse_never_starts_over_of_reports : ∃ reports front reached position rest,
    Report.schema = .ok reports ∧ reports.types.values ≠ [] ∧
    front <+: (Specification.readAll ">test>*$<build".toList).1 ∧
    front.foldlM (Reading.step reports) (.start ">test>*$<build".toList none) = .ok reached ∧
    front.length = 2 ∧ reached.frontier ≠ [] ∧
    parse reports " <build>*" none = .error (.expansion position rest .missingParentBase) ∧
    position = 0 ∧ rest = " <build>*" := by
  have run : (do
      let reports ← Report.schema.toOption
      let front := (Specification.readAll ">test>*$<build".toList).1.take 2
      let reached ← (front.foldlM (Reading.step reports)
        (.start ">test>*$<build".toList none)).toOption
      let fault ← error? (parse reports " <build>*" none)
      pure (reports.types.values.length, front.length, reached.position, fault)) =
      some (4, 2, 8, .expansion 0 " <build>*" .missingParentBase) := by
    decide +kernel
  simp only [Option.bind_eq_bind, Option.pure_def, Option.bind_eq_some_iff, toOption_eq_some,
    error?_eq_some, Option.some.injEq, Prod.mk.injEq] at run
  obtain ⟨reports, accepted, reached, ran, _, failed, four, two, _, rfl⟩ := run
  have typed : reports.types.values ≠ [] := fun none => by simp [none] at four
  have front := List.take_prefix 2 (Specification.readAll ">test>*$<build".toList).1
  have stays := (parse_never_starts_over accepted typed ">test>*$<build" none).1 _ reached front ran
  have first := (parse_never_starts_over accepted typed " <build>*" none).2.2 _ _ failed
  refine ⟨reports, _, reached, _, _, accepted, typed, front, ran, two, fun lost => ?_, failed,
    first⟩
  rw [stays.mp lost] at two
  cases two

/-- A schema may have no types. A wildcard at its root comes to nothing, and what stands behind the
wildcard is expanded as if nothing stood before it. -/
theorem parse_starts_over_without_types : ∃ schema,
    Schema.ofDescription Table.empty = .ok schema ∧ schema.types.values = [] ∧
    parse schema ">*" none = .ok [] ∧
    parse schema ">*<*" none = .error (.expansion 2 "<*" .missingParentBase) := by
  have run : (do
      let schema ← (Schema.ofDescription Table.empty).toOption
      let chains ← (parse schema ">*" none).toOption
      let fault ← error? (parse schema ">*<*" none)
      pure (schema.types.values.length, chains.length, fault)) =
      some (0, 0, .expansion 2 "<*" .missingParentBase) := by
    decide +kernel
  simp only [Option.bind_eq_bind, Option.pure_def, Option.bind_eq_some_iff, toOption_eq_some,
    error?_eq_some, Option.some.injEq, Prod.mk.injEq, List.length_eq_zero_iff] at run
  obtain ⟨schema, accepted, chains, done, _, failed, untyped, rfl, rfl⟩ := run
  exact ⟨schema, accepted, untyped, done, failed⟩

end Chain

end ObjectQuery

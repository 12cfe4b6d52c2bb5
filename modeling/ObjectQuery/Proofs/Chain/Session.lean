import ObjectQuery.Proofs.Chain.Growth
import ObjectQuery.Report

/-! Sessions: calls that make, expand, read and collect chains, in any order and with any schemas.
A call may go on from whatever earlier calls have produced. Along every chain of a session each
step belongs to the type before it, also where the types come from different schemas. -/
namespace ObjectQuery

open Outcome

/-- Steps from the tip back to the root. The root goes down, and every other step along a relation
of the type before it. -/
inductive Linked : List Step → Prop
  | root {s : Step} : s.down = true → Chain.Fits s.type s.ids → Linked [s]
  | onward {s t : Step} {rest : List Step} : s.type.name ∈ (t.type.related s.down).keys →
      Chain.Fits s.type s.ids → Linked (t :: rest) → Linked (s :: t :: rest)

def Chain.WellFormed (c : Chain) : Prop := Linked c.steps

theorem Linked.fits {steps : List Step} (linked : Linked steps) :
    ∀ s ∈ steps, Chain.Fits s.type s.ids := by
  induction linked with
  | root _ fits => simpa using fits
  | onward _ fits _ ih => simpa using ⟨fits, by simpa using ih⟩

theorem Linked.last {steps : List Step} (linked : Linked steps) :
    ∀ s ∈ steps.getLast?, s.down = true := by
  induction linked with
  | root down => simpa using down
  | onward _ _ _ ih => simpa using ih

theorem Linked.consecutive {steps before after : List Step} {s t : Step} (linked : Linked steps)
    (split : steps = before ++ s :: t :: after) : s.type.name ∈ (t.type.related s.down).keys := by
  induction linked generalizing before with
  | root =>
    have size := congrArg List.length split
    simp at size
    omega
  | onward related _ _ ih =>
    cases before with
    | nil =>
      obtain ⟨rfl, tail⟩ := List.cons.inj split
      obtain ⟨rfl, _⟩ := List.cons.inj tail
      exact related
    | cons head before => exact ih (List.cons.inj split).2

/-- The steps before any step of a chain make a well formed chain again. -/
theorem Linked.suffix {steps shorter : List Step} (linked : Linked steps)
    (suffix : shorter <:+ steps) (nonempty : shorter ≠ []) : Linked shorter := by
  induction linked with
  | root down fits =>
    rcases List.suffix_cons_iff.mp suffix with rfl | none
    · exact .root down fits
    · exact absurd (List.suffix_nil.mp none) nonempty
  | onward related fits earlier ih =>
    rcases List.suffix_cons_iff.mp suffix with rfl | shorter
    · exact .onward related fits earlier
    · exact ih shorter

theorem Linked.mark {s : Step} {rest : List Step} (linked : Linked (s :: rest)) (matched : Bool) :
    Linked ({ s with matched := matched } :: rest) := by
  cases linked with
  | root down fits => exact .root down fits
  | onward related fits earlier => exact .onward related fits earlier

namespace Chain

theorem make_wellFormed {base : Option Chain} {down matched : Bool} {type : ObjectType}
    {ids : Option IdList} {c : Chain} (start : ∀ b ∈ base, b.WellFormed)
    (done : make base down type ids matched = .ok c) : c.WellFormed := by
  obtain ⟨admits, fits, rfl⟩ := make_eq_ok.mp done
  cases base with
  | none => exact .root admits fits
  | some b => exact .onward admits fits (start b rfl)

theorem wellFormed_kept (types : ObjectType → Prop) (ids : Option IdList) :
    Keeps WellFormed types ids where
  made start _ done := make_wellFormed start done
  marked good := good.mark true

end Chain

/-- A call on chains, with the chains that it is fed. -/
inductive Call where
  | make (base : Option Chain) (down : Bool) (type : ObjectType) (ids : Option IdList)
      (matched : Bool)
  | expand (schema : Schema) (frontier : List Chain) (down : Bool) (target : Target)
      (ids : Option IdList) (scope : Scope)
  | parse (schema : Schema) (text : String) (lists : Option (List IdList))
  | collect (schema : Schema) (data : Json)

namespace Call

def fed : Call → List Chain
  | .make base _ _ _ _ => base.toList
  | .expand _ frontier _ _ _ _ => frontier
  | .parse _ _ _ => []
  | .collect _ _ => []

def answer : Call → Except PatternFault (List Chain)
  | .make base down type ids matched => do return [← Chain.make base down type ids matched]
  | .expand schema frontier down target ids scope =>
    Chain.expand schema frontier down target ids scope
  | .parse schema text lists => Chain.parse schema text lists
  | .collect schema data => Chain.ofCollection schema data

/-- One call, fed with well formed chains, answers with well formed chains. -/
theorem answer_wellFormed {call : Call} {chains : List Chain}
    (start : ∀ c ∈ call.fed, c.WellFormed) (done : call.answer = .ok chains) :
    ∀ c ∈ chains, c.WellFormed := by
  cases call with
  | make base down type ids matched =>
    obtain ⟨c, made, rfl⟩ : ∃ c, Chain.make base down type ids matched = .ok c ∧ [c] = chains := by
      simpa [answer] using done
    simpa using Chain.make_wellFormed (by simpa [fed] using start) made
  | expand schema frontier down target ids scope =>
    exact (Chain.wellFormed_kept (fun _ => True) ids).expand (by simp) start done
  | parse schema text lists =>
    exact Chain.Keeps.parse (fun ids _ => Chain.wellFormed_kept (fun _ => True) ids) (by simp) done
  | collect schema data =>
    exact Chain.Keeps.ofCollection (Chain.wellFormed_kept fun _ => True) (by simp) done

end Call

/-- The calls made so far, and the chains that they have produced. A call is fed with produced
chains, or with chains that produced ones go on from. A refused call produces nothing. -/
inductive Session : List Call → List Chain → Prop
  | start : Session [] []
  | answered {calls : List Call} {pool chains : List Chain} {call : Call} : Session calls pool →
      (∀ c ∈ call.fed, ∃ p ∈ pool, c.steps <:+ p.steps) → call.answer = .ok chains →
      Session (calls ++ [call]) (pool ++ chains)
  | refused {calls : List Call} {pool : List Chain} {call : Call} {fault : PatternFault} :
      Session calls pool → (∀ c ∈ call.fed, ∃ p ∈ pool, c.steps <:+ p.steps) →
      call.answer = .error fault → Session (calls ++ [call]) pool

namespace Session

variable {calls : List Call} {pool : List Chain}

theorem wellFormed (session : Session calls pool) : ∀ c ∈ pool, c.WellFormed := by
  induction session with
  | start => simp
  | answered _ fed done ih =>
    intro c member
    rcases List.mem_append.mp member with earlier | new
    · exact ih c earlier
    · refine Call.answer_wellFormed (fun b inside => ?_) done c new
      obtain ⟨p, produced, suffix⟩ := fed b inside
      exact (ih p produced).suffix suffix (by simp [Chain.steps])
  | refused _ _ _ ih => exact ih

/-- The root of every chain goes down, every other step along a relation of the type before it, and
every ID has as many components as its type has ID fields. -/
theorem steps_linked (session : Session calls pool) :
    ∀ c ∈ pool,
      (∀ s ∈ c.steps.getLast?, s.down = true) ∧
      (∀ before s t after, c.steps = before ++ s :: t :: after →
        s.type.name ∈ (if s.down then t.type.children else t.type.parents).keys) ∧
      ∀ s ∈ c.steps, ∀ ids ∈ s.ids, ∀ id ∈ ids, id.length = s.type.idFields.length := by
  intro c member
  have linked : Linked c.steps := session.wellFormed c member
  exact ⟨linked.last, fun before s t after split => linked.consecutive split, linked.fits⟩

/-- Tests that are run by other tests. -/
def nestedTests : Description :=
  .ofList [("test", Report.describe [("name", Report.text), ("runner", Report.text)] ["name"]
    ["name", "runner"] [("test", ["name", "runner"])])]

/-- A chain over reports goes on over another schema, in which tests have two ID fields. -/
theorem steps_linked_across_schemas : ∃ reports nested first second,
    Session [.parse reports ">checkout#>build" none,
      .expand nested first true .any (some [[some "a", none]]) .furthest] (first ++ second) ∧
    second.map (fun c => c.tip.type.idFields) = [["name", "runner"]] ∧
    ∀ c ∈ first ++ second,
      (∀ s ∈ c.steps.getLast?, s.down = true) ∧
      (∀ before s t after, c.steps = before ++ s :: t :: after →
        s.type.name ∈ (if s.down then t.type.children else t.type.parents).keys) ∧
      ∀ s ∈ c.steps, ∀ ids ∈ s.ids, ∀ id ∈ ids, id.length = s.type.idFields.length := by
  have run : (do
      let reports ← Report.schema.toOption
      let nested ← (Schema.ofDescription nestedTests).toOption
      let first ← (Chain.parse reports ">checkout#>build" none).toOption
      let second ← (Chain.expand nested first true .any (some [[some "a", none]])
        .furthest).toOption
      pure (second.map fun c => c.tip.type.idFields)) = some [["name", "runner"]] := by
    decide +kernel
  simp only [Option.bind_eq_bind, Option.pure_def, Option.bind_eq_some_iff, toOption_eq_some,
    Option.some.injEq] at run
  obtain ⟨reports, _, nested, _, first, parsed, second, expanded, fields⟩ := run
  have asked : (Call.parse reports ">checkout#>build" none).answer = .ok first := parsed
  have asksAgain : (Call.expand nested first true .any (some [[some "a", none]]) .furthest).answer =
      .ok second := expanded
  have opening : Session [.parse reports ">checkout#>build" none] first :=
    Session.start.answered (by simp [Call.fed]) asked
  have session := opening.answered
    (by intro c member; exact ⟨c, member, List.suffix_rfl⟩) asksAgain
  exact ⟨reports, nested, first, second, session, fields, session.steps_linked⟩

end Session

end ObjectQuery

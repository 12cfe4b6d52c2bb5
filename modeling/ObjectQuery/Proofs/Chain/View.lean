import ObjectQuery.Chain.View
import ObjectQuery.Proofs.Chain.Rounds
import ObjectQuery.Proofs.Pattern.Decoding

/-! Three views of a chain: what chains are compared by, the JSON value, which nests each step
around the one before it, and the text, in which one step follows on the other. They tell the same
chains apart, also where the chains come from different schemas and where ID lists are empty. -/
namespace ObjectQuery

open Outcome

namespace Step

theorem arr_map_inj {α : Type} {f : α → Json} (inj : ∀ a b, f a = f b → a = b) {l m : List α} :
    Json.arr (l.map f) = .arr (m.map f) ↔ l = m := by
  rw [Json.arr.injEq, List.map_inj_right inj]

theorem ofText?_inj (a b : Option String) (same : Json.ofText? a = Json.ofText? b) : a = b := by
  cases a <;> cases b <;> simp_all [Json.ofText?]

/-- A missing list, an empty list and a list of empty IDs are three values. -/
theorem idsJson_inj {ids others : Option IdList} :
    idsJson ids = idsJson others ↔ ids = others := by
  cases ids with
  | none => cases others <;> simp [idsJson]
  | some ids =>
    cases others with
    | none => simp [idsJson]
    | some others =>
      rw [idsJson, idsJson, arr_map_inj fun _ _ => (arr_map_inj ofText?_inj).mp, Option.some.injEq]

theorem json_inj {s t : Step} {base other : Json} :
    s.json base = t.json other ↔ s.outline = t.outline ∧ base = other := by
  simp only [json, outline, Json.obj.injEq, List.cons.injEq, Prod.mk.injEq, true_and, and_true,
    Json.bool.injEq, Json.str.injEq, idsJson_inj]
  exact and_comm

end Step

namespace Chain

theorem jsonOf_inj {l m : List Step} :
    jsonOf l = jsonOf m ↔ l.map Step.outline = m.map Step.outline := by
  induction l generalizing m with
  | nil => cases m <;> simp [jsonOf, Step.json]
  | cons s l ih =>
    cases m with
    | nil => simp [jsonOf, Step.json]
    | cons t m => simp only [jsonOf, Step.json_inj, ih, List.map_cons, List.cons.injEq]

/-- A pattern string comes to chains over the types of its schema. -/
theorem parse_known {schema : Schema} {text : String} {lists : Option (List IdList)}
    {chains : List Chain} (done : parse schema text lists = .ok chains) :
    ∀ c ∈ chains, ∀ s ∈ c.steps, s.type ∈ schema.types.values :=
  Keeps.parse (fun _ _ => .ofSteps (fun _ _ _ member => member) fun _ member => member)
    (fun _ member => member) done

/-- A step of a chain that is over the types of accepted schemas can be cut from a text. -/
theorem legible_of_known {c : Chain} (linked : c.WellFormed)
    (known : ∀ s ∈ c.steps, ∃ description schema, Schema.ofDescription description = .ok schema ∧
      s.type ∈ schema.types.values) : ∀ s ∈ c.steps, s.Legible := by
  intro s inside
  obtain ⟨description, schema, accepted, member⟩ := known s inside
  have sound := Schema.ofDescription_sound accepted
  refine ⟨sound.spelled s.type member, ?_⟩
  rintro ids listed id given rfl
  have fits := linked.fits s inside ids listed [] given
  exact sound.identified s.type member (List.length_eq_zero_iff.mp fits.symm)

/-- Chains of a session, over the types of whatever accepted schemas, are equal exactly if their
JSON values are, and exactly if their texts are where both have one. -/
theorem views_agree {calls : List Call} {pool : List Chain} (session : Session calls pool)
    {a b : Chain} (made : ∃ q ∈ pool, a.steps <:+ q.steps)
    (madeToo : ∃ q ∈ pool, b.steps <:+ q.steps)
    (known : ∀ s ∈ a.steps ++ b.steps, ∃ description schema,
      Schema.ofDescription description = .ok schema ∧ s.type ∈ schema.types.values) :
    ((a == b) = true ↔ a.json = b.json) ∧
    ∀ f g, a.text = .ok f → b.text = .ok g → ((a == b) = true ↔ f = g) := by
  have linked {c : Chain} (produced : ∃ q ∈ pool, c.steps <:+ q.steps) : c.WellFormed := by
    obtain ⟨q, member, suffix⟩ := produced
    exact (session.wellFormed q member).suffix suffix (by simp [steps])
  obtain ⟨knownA, knownB⟩ := List.forall_mem_append.mp known
  refine ⟨beq_iff.trans jsonOf_inj.symm, fun f g written writtenToo => ?_⟩
  rw [beq_iff]
  constructor
  · intro same
    rw [text_congr same] at written
    exact Except.ok.inj (written.symm.trans writtenToo)
  · rintro rfl
    exact text_inj (legible_of_known (linked made) knownA)
      (legible_of_known (linked madeToo) knownB) written writtenToo

/-- The letter `a` of two schemas, with an empty ID list. -/
theorem views_agree_of_letters : ∃ schema other first second,
    Schema.ofDescription letters = .ok schema ∧ Schema.ofDescription words = .ok other ∧
    parse schema ">a%#" (some [[]]) = .ok [first] ∧
    parse other ">a%#" (some [[]]) = .ok [second] ∧
    first.tip.type.children.keys = ["a", "b", "c"] ∧ second.tip.type.children.keys = [] ∧
    first.text = .ok ">a[]#" ∧ second.text = .ok ">a[]#" ∧ (first == second) = true ∧
    first.json = second.json := by
  have run : (do
      let schema ← (Schema.ofDescription letters).toOption
      let other ← (Schema.ofDescription words).toOption
      let first ← (parse schema ">a%#" (some [[]])).toOption
      let second ← (parse other ">a%#" (some [[]])).toOption
      pure (first.map fun c => (c.tip.type.children.keys, c.text.toOption),
        second.map fun c => (c.tip.type.children.keys, c.text.toOption))) =
        some ([(["a", "b", "c"], some ">a[]#")], [([], some ">a[]#")]) := by
    decide +kernel
  simp only [Option.bind_eq_bind, Option.pure_def, Option.bind_eq_some_iff, toOption_eq_some,
    Option.some.injEq, Prod.mk.injEq] at run
  obtain ⟨schema, accepted, other, acceptedToo, _, parsed, _, parsedToo, ofFirst, ofSecond⟩ := run
  obtain ⟨first, rfl, shown⟩ := List.map_eq_singleton_iff.mp ofFirst
  obtain ⟨second, rfl, shownToo⟩ := List.map_eq_singleton_iff.mp ofSecond
  simp only [Prod.mk.injEq, toOption_eq_some] at shown shownToo
  obtain ⟨children, written⟩ := shown
  obtain ⟨childrenToo, writtenToo⟩ := shownToo
  have asked : (Call.parse schema ">a%#" (some [[]])).answer = .ok [first] := parsed
  have askedToo : (Call.parse other ">a%#" (some [[]])).answer = .ok [second] := parsedToo
  have session := (Session.start.answered (by simp [Call.fed]) asked).answered
    (by simp [Call.fed]) askedToo
  have known := parse_known parsed first List.mem_cons_self
  have knownToo := parse_known parsedToo second List.mem_cons_self
  have agree := views_agree session (a := first) (b := second) ⟨first, by simp, List.suffix_rfl⟩
    ⟨second, by simp, List.suffix_rfl⟩ fun s inside => (List.mem_append.mp inside).elim
      (fun step => ⟨letters, schema, accepted, known s step⟩)
      fun step => ⟨words, other, acceptedToo, knownToo s step⟩
  have equal := (agree.2 _ _ written writtenToo).mpr rfl
  exact ⟨schema, other, first, second, accepted, acceptedToo, parsed, parsedToo, children,
    childrenToo, written, writtenToo, equal, agree.1.mp equal⟩

end Chain

end ObjectQuery

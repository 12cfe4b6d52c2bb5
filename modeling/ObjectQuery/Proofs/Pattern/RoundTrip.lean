import ObjectQuery.Proofs.Chain.Session
import ObjectQuery.Proofs.Pattern.Evaluation
import ObjectQuery.Proofs.Pattern.WrittenText
import ObjectQuery.Proofs.Schema.Accepted

/-! Chains are written as pattern strings that give them back. The text of a chain has a derivation
with a clause for each step, from the root on, and each of these clauses adds its step. -/
namespace ObjectQuery

open Outcome Pattern Grammar

namespace Chain

variable {schema : Schema}

theorem expandName_step (sound : schema.Sound) {base : Option Chain} {s : Step}
    (member : s.type ∈ schema.types.values) (admits : Admits base s.down s.type)
    (fits : Fits s.type s.ids) :
    expandName schema base.toList s.down s.type.name s.ids s.matched =
      .ok [⟨s, base.elim [] steps⟩] := by
  have found := sound.type?_name member
  have made : make base s.down s.type s.ids s.matched = .ok ⟨s, base.elim [] steps⟩ :=
    make_eq_ok.mpr ⟨admits, fits, rfl⟩
  cases base with
  | none =>
    have down : s.down = true := admits
    rw [down] at made
    simp [expandName, found, made]
  | some c =>
    have key : s.type.name ∈ (c.tip.type.related s.down).keys := admits
    have related : (c.tip.type.related s.down).contains s.type.name = true := by
      simpa [Table.contains] using key
    have grown : extend schema s.down s.ids s.matched c s.type.name =
        .ok ⟨s, (some c).elim [] steps⟩ := extend_eq_ok.mpr ⟨s.type, found, made⟩
    simp [expandName, related, grown]

/-- The clause of a step adds the step. -/
theorem step_clause (sound : schema.Sound) (base : Option Chain) {s : Step}
    (member : s.type ∈ schema.types.values) (admits : Admits base s.down s.type)
    (fits : Fits s.type s.ids) (text : String) (before : List Char) :
    Progress.step schema text ⟨base.toList, none⟩ (before, s.clause) =
      .ok ⟨[⟨s, base.elim [] steps⟩], none⟩ := by
  have ids : Grammar.resolve (bytes before) none s.clause.source = .ok (s.ids, none) := by
    rw [Step.clause]
    cases s.ids with
    | none => rfl
    | some ids => rfl
  have started : (base.toList.isEmpty && !s.down) = false := by
    cases base with
    | none =>
      have down : s.down = true := admits
      simp [down]
    | some c => rfl
  have matched : (s.clause.scope != .none) = s.matched := by
    rw [Step.clause]
    cases s.matched with
    | false => rfl
    | true => rfl
  have expanded : expand schema base.toList s.clause.down s.clause.target s.ids s.clause.scope =
      .ok [⟨s, base.elim [] steps⟩] := by
    have direct := expandName_step sound member admits fits
    rw [← matched] at direct
    simpa [expand, Step.clause, started] using direct
  rw [Progress.step, ids]
  simp only [bind, Except.bind]
  rw [expanded]
  rfl

/-- The clauses of all steps from the root on come to the chain of these steps. -/
theorem fold_clauses (sound : schema.Sound) {c : Chain} (linked : c.WellFormed)
    (known : ∀ s ∈ c.steps, s.type ∈ schema.types.values) (text : String)
    {places : List (List Char × Clause)}
    (same : places.map Prod.snd = c.steps.reverse.map Step.clause) :
    places.foldlM (Progress.step schema text) ⟨[], none⟩ = .ok ⟨[c], none⟩ := by
  obtain ⟨s, before⟩ := c
  unfold WellFormed at linked
  dsimp only [steps] at linked known same
  induction before generalizing s places with
  | nil =>
    obtain ⟨⟨place, _⟩, rfl, rfl⟩ := List.map_eq_singleton_iff.mp same
    cases linked with
    | root down fits =>
      have step := step_clause sound none (known s List.mem_cons_self) down fits text place
      simpa using step
  | cons t before ih =>
    rw [List.reverse_cons, List.map_append] at same
    obtain ⟨front, back, rfl, earlier, last⟩ := List.map_eq_append_iff.mp same
    obtain ⟨⟨place, _⟩, rfl, rfl⟩ := List.map_eq_singleton_iff.mp last
    cases linked with
    | onward related fits linked =>
      have reached := ih t linked (fun u inside => known u (List.mem_cons_of_mem s inside)) earlier
      have step := step_clause sound (some ⟨t, before⟩) (known s List.mem_cons_self) related fits
        text place
      rw [List.foldlM_append, reached]
      simpa [steps] using step

/-- What a chain needs to read back from its text. -/
def Readable (schema : Schema) (c : Chain) : Prop :=
  c.WellFormed ∧ ∀ s ∈ c.steps, s.type ∈ schema.types.values ∧ s.Writable

theorem Readable.readsBack (sound : schema.Sound) {c : Chain} (readable : Readable schema c) :
    ∃ f, c.text = .ok f ∧ parse schema f none = .ok [c] := by
  obtain ⟨linked, good⟩ := readable
  have known : ∀ s ∈ c.steps, s.type ∈ schema.types.values := fun s inside => (good s inside).1
  have filled : ∀ s ∈ c.steps, ∀ ids ∈ s.ids, ∀ id ∈ ids, id ≠ [] := by
    rintro s inside ids listed id member rfl
    have fits := linked.fits s inside ids listed [] member
    exact sound.identified s.type (known s inside) (List.length_eq_zero_iff.mp fits.symm)
  obtain ⟨f, patterns, written, valid, clauses⟩ := text_derivable
    (fun s inside => sound.spelled s.type (known s inside)) filled fun s inside => (good s inside).2
  refine ⟨f, written, ?_⟩
  rw [parse_eq_evaluate (.inr valid), evaluate,
    fold_clauses sound linked known f ((located_clauses patterns).trans clauses)]
  rfl

/-- ID lists that are read from pattern strings can be written again. -/
theorem supply_writable {ids : Option IdList} (supply : Supply none ids) {s : Step}
    (same : s.ids = ids) : s.Writable := by
  intro list listed
  rw [same] at listed
  cases supply with
  | absent => cases listed
  | listed missing => cases missing
  | inline read =>
    obtain rfl := Option.some.inj listed
    obtain ⟨_, text, _⟩ := IdList.read_sound read
    exact text.writable

theorem readable_kept {ids : Option IdList} (supply : Supply none ids) :
    Keeps (Readable schema) (· ∈ schema.types.values) ids :=
  (wellFormed_kept _ ids).both (.ofSteps (fun _ _ _ member => ⟨member, supply_writable supply rfl⟩)
    fun _ good => good)

/-- Every chain of a session that is over the types of a schema, and that has no empty ID list and
no component without a text, is written and reads back as itself alone. All chains that a pattern
string without supplied ID lists comes to are of this kind. -/
theorem text_reads_back {description : Description}
    (accepted : Schema.ofDescription description = .ok schema) :
    (∀ calls pool, Session calls pool → ∀ q ∈ pool, ∀ p : Chain, p.steps <:+ q.steps →
      (∀ s ∈ p.steps, s.type ∈ schema.types.values ∧ s.Writable) →
      ∃ f, p.text = .ok f ∧ parse schema f none = .ok [p]) ∧
    ∀ text chains, parse schema text none = .ok chains → ∀ p ∈ chains,
      (∀ s ∈ p.steps, s.type ∈ schema.types.values ∧ s.Writable) ∧
      ∃ f, p.text = .ok f ∧ parse schema f none = .ok [p] := by
  have sound := Schema.ofDescription_sound accepted
  constructor
  · intro calls pool session q member p suffix good
    have linked : p.WellFormed := (session.wellFormed q member).suffix suffix (by simp [steps])
    exact Readable.readsBack sound ⟨linked, good⟩
  · intro text chains done p member
    have readable : Readable schema p := Keeps.parse (fun ids supply => readable_kept supply)
      (fun type inside => inside) done p member
    exact ⟨readable.2, readable.readsBack sound⟩

/-- Over reports, with empty components and with quotes, a backslash and a bracket in others. -/
theorem text_reads_back_of_reports : ∃ reports type chain,
    Report.schema = .ok reports ∧ reports.type? "revision" = some type ∧
    parse reports ">revision[a,\"\"; \"b\\\"\\\\]\" , c]#>*" none = .ok [chain] ∧
    (∃ f, chain.text = .ok f ∧ parse reports f none = .ok [chain]) ∧
    ∃ f, Chain.text ⟨⟨true, type, some [[some "d;e", some ""]], true⟩, []⟩ = .ok f ∧
      parse reports f none = .ok [⟨⟨true, type, some [[some "d;e", some ""]], true⟩, []⟩] := by
  have run : (do
      let reports ← Report.schema.toOption
      let type ← reports.type? "revision"
      let chains ← (parse reports ">revision[a,\"\"; \"b\\\"\\\\]\" , c]#>*" none).toOption
      pure (type.idFields, chains.length)) = some (["git_commit_hash", "patchset_hash"], 1) := by
    decide +kernel
  simp only [Option.bind_eq_bind, Option.pure_def, Option.bind_eq_some_iff, toOption_eq_some,
    Option.some.injEq, Prod.mk.injEq] at run
  obtain ⟨reports, accepted, type, found, chains, parsed, fields, one⟩ := run
  obtain ⟨chain, rfl⟩ := List.length_eq_one_iff.mp one
  have made : make none true type (some [[some "d;e", some ""]]) true =
      .ok ⟨⟨true, type, some [[some "d;e", some ""]], true⟩, []⟩ :=
    make_eq_ok.mpr ⟨rfl, by simp [Fits, fields], rfl⟩
  have asked : (Call.make none true type (some [[some "d;e", some ""]]) true).answer =
      .ok [⟨⟨true, type, some [[some "d;e", some ""]], true⟩, []⟩] := by
    rw [Call.answer, made]
    rfl
  have session := Session.start.answered (by simp [Call.fed]) asked
  refine ⟨reports, type, chain, accepted, found, parsed,
    ((text_reads_back accepted).2 _ _ parsed chain List.mem_cons_self).2,
    (text_reads_back accepted).1 _ _ session _ (by simp) _ List.suffix_rfl ?_⟩
  simp [steps, Step.Writable, Writable, Schema.type?_mem found]

end Chain

end ObjectQuery

import ObjectQuery.Proofs.Pattern.RoundTrip

/-! Chains with ID lists that were supplied for placeholders. The grammar has a text for such a list
only if it has one for all components and the list is not empty. Components without a text are
refused when the chain is written. An empty list is not: it is written as a pair of brackets, which
no pattern string may contain. -/
namespace ObjectQuery

open Outcome Pattern Grammar

theorem IdField.writable_of_write {field : Option String} {cs : List Char}
    (done : write field = .ok cs) : Writable field := by
  cases field with
  | none => cases done
  | some value =>
    rw [write] at done
    split at done
    · next bare =>
      simp only [isBareWord, Bool.and_eq_true, Bool.not_eq_true', List.isEmpty_eq_false_iff,
        List.all_eq_true] at bare
      have text : FieldText value.toList value.toList :=
        .unquoted bare.1 fun c member => isBare_iff.mp (bare.2 c member)
      simpa using text.writable
    · split at done
      · next printable =>
        exact ⟨value, rfl, fun c member =>
          isPrintable_iff.mp (List.all_eq_true.mp printable c member)⟩
      · cases done

theorem IdList.writable_of_write {ids : IdList} {cs : List Char} (done : write ids = .ok cs) :
    ∀ id ∈ ids, ∀ field ∈ id, Writable field := by
  obtain ⟨texts, each, _⟩ := bind_eq_ok.mp done
  intro id inside field member
  obtain ⟨text, _, written⟩ := ok_of_mapM each inside
  obtain ⟨fields, eachField, _⟩ := bind_eq_ok.mp written
  obtain ⟨_, _, writtenField⟩ := ok_of_mapM eachField member
  exact IdField.writable_of_write writtenField

theorem Step.writable_of_write {s : Step} {cs : List Char} (done : s.write = .ok cs)
    (nonempty : s.ids ≠ some []) : s.Writable := by
  intro ids listed
  refine ⟨fun none => nonempty (none ▸ listed), ?_⟩
  have same : s.ids = some ids := listed
  simp only [write, same] at done
  obtain ⟨text, written, _⟩ := bind_eq_ok.mp done
  exact IdList.writable_of_write written

theorem Chain.step_written {c : Chain} {f : String} (done : c.text = .ok f) :
    ∀ s ∈ c.steps, ∃ cs, s.write = .ok cs := by
  obtain ⟨cs, written, _⟩ := bind_eq_ok.mp done
  obtain ⟨texts, each, _⟩ := bind_eq_ok.mp written
  intro s member
  obtain ⟨text, _, step⟩ := ok_of_mapM each (List.mem_reverse.mpr member)
  exact ⟨text, step⟩

namespace Chain

variable {schema : Schema}

/-- A chain that comes from any pattern string is written or refused. What is written reads back as
the chain alone exactly if no step has an empty ID list. -/
theorem text_reads_back_unless_empty {description : Description}
    (accepted : Schema.ofDescription description = .ok schema) {text : String}
    {lists : Option (List IdList)} {chains : List Chain}
    (done : parse schema text lists = .ok chains) {p : Chain} (member : p ∈ chains) :
    (∃ fault, p.text = .error fault) ∨
    ∃ f, p.text = .ok f ∧
      (parse schema f none = .ok [p] ↔ ∀ s ∈ p.steps, s.ids ≠ some []) := by
  have sound := Schema.ofDescription_sound accepted
  cases written : p.text with
  | error fault => exact .inl ⟨fault, rfl⟩
  | ok f =>
    refine .inr ⟨f, rfl, ?_, ?_⟩
    · intro back s inside empty
      have readable : Readable schema p := Keeps.parse (fun ids supply => readable_kept supply)
        (fun type inside => inside) back p List.mem_cons_self
      exact ((readable.2 s inside).2 [] empty).1 rfl
    · intro nonempty
      have linked : p.WellFormed ∧ ∀ s ∈ p.steps, s.type ∈ schema.types.values :=
        Keeps.parse (fun ids _ => (wellFormed_kept _ ids).both
          (.ofSteps (fun _ _ _ known => known) fun _ known => known))
          (fun type inside => inside) done p member
      have writable : ∀ s ∈ p.steps, s.Writable := by
        intro s inside
        obtain ⟨cs, step⟩ := step_written written s inside
        exact s.writable_of_write step (nonempty s inside)
      obtain ⟨g, same, back⟩ := Readable.readsBack sound
        ⟨linked.1, fun s inside => ⟨linked.2 s inside, writable s inside⟩⟩
      rw [written] at same
      exact Except.ok.inj same ▸ back

/-- Over reports, with lists for two placeholders, of which the second may be empty. -/
theorem text_reads_back_unless_empty_of_reports : ∃ reports first second,
    Report.schema = .ok reports ∧
    parse reports ">checkout%>build%#" (some [[[some "a b"]], [[some "c"], [some "\""]]]) =
      .ok [first] ∧
    (∃ f, first.text = .ok f ∧ parse reports f none = .ok [first]) ∧
    parse reports ">checkout%>build%#" (some [[[some "a b"]], []]) = .ok [second] ∧
    ∃ f, second.text = .ok f ∧ parse reports f none ≠ .ok [second] := by
  have run : (do
      let reports ← Report.schema.toOption
      let firsts ← (parse reports ">checkout%>build%#"
        (some [[[some "a b"]], [[some "c"], [some "\""]]])).toOption
      let seconds ← (parse reports ">checkout%>build%#" (some [[[some "a b"]], []])).toOption
      pure (firsts.map fun c => (c.text.isOk, c.steps.any (·.ids == some [])),
        seconds.map fun c => (c.text.isOk, c.steps.any (·.ids == some [])))) =
      some ([(true, false)], [(true, true)]) := by
    decide +kernel
  simp only [Option.bind_eq_bind, Option.pure_def, Option.bind_eq_some_iff, toOption_eq_some,
    Option.some.injEq, Prod.mk.injEq] at run
  obtain ⟨reports, accepted, firsts, parsed, seconds, parsedEmpty, ofFirst, ofSecond⟩ := run
  obtain ⟨first, rfl, shown⟩ := List.map_eq_singleton_iff.mp ofFirst
  obtain ⟨second, rfl, shownEmpty⟩ := List.map_eq_singleton_iff.mp ofSecond
  obtain ⟨written, filled⟩ := Prod.mk.inj shown
  obtain ⟨writtenEmpty, unfilled⟩ := Prod.mk.inj shownEmpty
  refine ⟨reports, first, second, accepted, parsed, ?_, parsedEmpty, ?_⟩
  · rcases text_reads_back_unless_empty accepted parsed List.mem_cons_self with
      ⟨fault, failed⟩ | ⟨f, same, back⟩
    · rw [failed] at written
      cases written
    · exact ⟨f, same, back.mpr (by simpa using filled)⟩
  · rcases text_reads_back_unless_empty accepted parsedEmpty List.mem_cons_self with
      ⟨fault, failed⟩ | ⟨f, same, back⟩
    · rw [failed] at writtenEmpty
      cases writtenEmpty
    · obtain ⟨s, inside, empty⟩ : ∃ s ∈ second.steps, s.ids = some [] := by
        simpa using unfilled
      exact ⟨f, same, fun again => back.mp again s inside empty⟩

/-- The list that is supplied may be empty. The chain is then written with a pair of brackets, at
which reading stops. -/
theorem empty_list_does_not_read_back : ∃ reports p, Report.schema = .ok reports ∧
    parse reports ">build%" (some [[]]) = .ok [p] ∧ p.text = .ok ">build[]" ∧
    parse reports ">build[]" none = .error (.syntaxError ">build[]" 6 "[]") := by
  have run : (do
      let reports ← Report.schema.toOption
      let chains ← (parse reports ">build%" (some [[]])).toOption
      pure (chains.map fun c => c.text.toOption,
        match parse reports ">build[]" none with
        | .error fault => some fault
        | .ok _ => none)) =
      some ([some ">build[]"], some (.syntaxError ">build[]" 6 "[]")) := by
    decide +kernel
  simp only [Option.bind_eq_bind, Option.pure_def, Option.bind_eq_some_iff, toOption_eq_some,
    Option.some.injEq, Prod.mk.injEq] at run
  obtain ⟨reports, accepted, chains, parsed, texts, refused⟩ := run
  obtain ⟨p, rfl, written⟩ := List.map_eq_singleton_iff.mp texts
  refine ⟨reports, p, accepted, parsed, toOption_eq_some.mp written, ?_⟩
  split at refused
  · next fault failed => rw [failed, Option.some.inj refused]
  · cases refused

end Chain

end ObjectQuery

import ObjectQuery.Proofs.Pattern.FaultPosition

/-! Placeholders and the ID lists that are supplied for them. The placeholders of a text take the
lists from the left to the right, one each. Where there are too few lists, the first placeholder
that comes away without one is where the text is refused. -/
namespace ObjectQuery

open Outcome Pattern Grammar

namespace Grammar

variable {schema : Schema} {text : String} {lists : Option (List IdList)} {list : List IdList}
  {patterns : List Placed} {chains : List Chain}

/-- Where the matches with a placeholder start in the text, in bytes. -/
def placeholderStarts (places : List (List Char × Clause)) : List Nat :=
  places.filterMap fun (before, c) =>
    match c.source with
    | some .placeholder => some (bytes before)
    | _ => none

/-- Each placeholder expands what the clauses before it come to, and does so with the list that has
as many lists before it as there are placeholders before the placeholder. -/
def Assigned (schema : Schema) (clauses : List Clause) (list : List IdList)
    (chains : List Chain) : Prop :=
  ∀ front c back, clauses = front ++ c :: back → c.source = some .placeholder →
    ∃ frontier ids grown, list[placeholders front]? = some ids ∧
      Run schema front ⟨[], some list⟩ ⟨frontier, some (list.drop (placeholders front))⟩ ∧
      Chain.expand schema frontier c.down c.target (some ids) c.scope = .ok grown ∧
      Run schema back ⟨grown, some (list.drop (placeholders front + 1))⟩ ⟨chains, some []⟩

theorem length_placeholderStarts (places : List (List Char × Clause)) :
    (placeholderStarts places).length = placeholders (places.map Prod.snd) := by
  induction places with
  | nil => rfl
  | cons place places ih =>
    obtain ⟨before, c⟩ := place
    by_cases own : c.source = some .placeholder
    · rw [List.map_cons, placeholders_own own, ← ih]
      simp [placeholderStarts, own]
    · rw [List.map_cons, placeholders_other own, ← ih]
      simp [placeholderStarts]

theorem placeholderStarts_getElem? {front back : List (List Char × Clause)} {before : List Char}
    {c : Clause} (own : c.source = some .placeholder) :
    (placeholderStarts (front ++ (before, c) :: back))[placeholders (front.map Prod.snd)]? =
      some (bytes before) := by
  have split : placeholderStarts (front ++ (before, c) :: back) =
      placeholderStarts front ++ bytes before :: placeholderStarts back := by
    simp [placeholderStarts, own]
  rw [split, ← length_placeholderStarts, List.getElem?_append_right (Nat.le_refl _)]
  simp

theorem Run.assigned {clauses : List Clause}
    (run : Run schema clauses ⟨[], some list⟩ ⟨chains, some []⟩) :
    Assigned schema clauses list chains := by
  rintro front c back rfl own
  obtain ⟨⟨frontier, left⟩, earlier, later⟩ := run_append.mp run
  obtain ⟨drawn, rest, rfl, count, rfl, _⟩ := earlier.supplied
  obtain ⟨_, _, grown, draws, expanded, later⟩ := run_cons.mp later
  rw [own] at draws
  cases draws with
  | @placeholder ids behind =>
    refine ⟨frontier, ids, grown, ?_, ?_, expanded, ?_⟩
    · rw [← count, List.getElem?_append_right (Nat.le_refl _)]
      simp
    · rwa [← count, List.drop_left]
    · rwa [← count, ← List.drop_drop, List.drop_left]

/-- A text is refused at one of its clauses, where those before it have led, or for what is left
over behind all of them. -/
theorem evaluate_error {fault : PatternFault}
    (failed : evaluate schema text lists patterns = .error fault) :
    (∃ front before c back frontier left, located patterns = front ++ (before, c) :: back ∧
      Run schema (front.map Prod.snd) ⟨[], lists⟩ ⟨frontier, left⟩ ∧
      Progress.step schema text ⟨frontier, left⟩ (before, c) = .error fault) ∨
    ∃ chains ids left,
      Run schema (patterns.map Placed.clause) ⟨[], lists⟩ ⟨chains, some (ids :: left)⟩ ∧
      fault = .tooManyIdLists text := by
  rcases bind_eq_error.mp failed with failed | ⟨⟨chains, left⟩, run, failed⟩
  · obtain ⟨front, ⟨before, c⟩, back, ⟨frontier, left⟩, split, run, blamed⟩ :=
      error_of_foldlM failed
    exact .inl ⟨front, before, c, back, frontier, left, split, foldlM_step_eq_ok.mp run, blamed⟩
  · dsimp only at failed
    split at failed
    · next ids left =>
      rw [foldlM_step_eq_ok, located_clauses] at run
      exact .inr ⟨chains, ids, left, run, (Except.error.inj failed).symm⟩
    · cases failed

/-- The placeholder that a text is refused for has as many others before it as there are lists. -/
theorem start_of_undrawn {fault : PatternFault} {position : Nat}
    (failed : evaluate schema text lists patterns = .error fault)
    (undrawn : fault = .noIdLists position ∨ fault = .notEnoughIdLists position) :
    (placeholderStarts (located patterns))[(lists.getD []).length]? = some position := by
  rcases evaluate_error failed with
    ⟨front, before, c, back, frontier, left, split, run, blamed⟩ | ⟨_, _, _, _, rfl⟩
  · rcases Progress.step_error blamed with ⟨own, stops⟩ | ⟨_, rfl⟩
    · have here : bytes before = position ∧ left.getD [] = [] := by
        rcases stops with ⟨out, rfl⟩ | ⟨out, rfl⟩
        · exact ⟨by simpa using undrawn, congrArg (Option.getD · []) out⟩
        · exact ⟨by simpa using undrawn, congrArg (Option.getD · []) out⟩
      rw [run.count, here.2, split, ← here.1]
      exact placeholderStarts_getElem? own
    · simp at undrawn
  · simp at undrawn

theorem lt_length_of_tooManyIdLists {shown : String}
    (failed : evaluate schema text (some list) patterns = .error (.tooManyIdLists shown)) :
    placeholders (patterns.map Placed.clause) < list.length := by
  rcases evaluate_error failed with
    ⟨_, _, _, _, _, _, _, _, blamed⟩ | ⟨chains, ids, left, run, _⟩
  · rcases Progress.step_error blamed with ⟨_, ⟨_, same⟩ | ⟨_, same⟩⟩ | ⟨_, same⟩ <;> cases same
  · have count := run.count
    simp only [Option.getD_some, List.length_cons] at count
    omega

theorem Progress.step_of_ne_placeholder {frontier : List Chain} {before : List Char} {c : Clause}
    (other : c.source ≠ some .placeholder) (lists left : Option (List IdList)) :
    Progress.step schema text ⟨frontier, lists⟩ (before, c) =
      (Progress.step schema text ⟨frontier, left⟩ (before, c)).map fun next =>
        ⟨next.frontier, lists⟩ := by
  obtain ⟨ids, passed⟩ := exists_draws_other other
  have drawn (lists : Option (List IdList)) :
      resolve (bytes before) lists c.source = .ok (ids, lists) :=
    resolve_eq_ok.mpr ((passed _ _ _).mpr ⟨rfl, rfl⟩)
  rw [step, step, drawn, drawn]
  simp only [bind, Except.bind]
  cases Chain.expand schema frontier c.down c.target ids c.scope <;> rfl

/-- Clauses without placeholders pass the supplied lists by. -/
theorem foldlM_step_of_no_placeholders {places : List (List Char × Clause)}
    (bare : placeholders (places.map Prod.snd) = 0) (frontier : List Chain)
    (lists left : Option (List IdList)) :
    places.foldlM (Progress.step schema text) ⟨frontier, lists⟩ =
      (places.foldlM (Progress.step schema text) ⟨frontier, left⟩).map fun last =>
        ⟨last.frontier, lists⟩ := by
  induction places generalizing frontier left with
  | nil => rfl
  | cons place places ih =>
    obtain ⟨before, c⟩ := place
    have other : c.source ≠ some .placeholder := by
      intro own
      simp [placeholders_own own] at bare
    rw [List.map_cons, placeholders_other other] at bare
    rw [List.foldlM_cons, List.foldlM_cons, Progress.step_of_ne_placeholder other lists left]
    cases Progress.step schema text ⟨frontier, left⟩ (before, c) with
    | error => rfl
    | ok next => exact ih bare next.frontier next.lists

theorem evaluate_none_of_no_placeholders (bare : placeholders (patterns.map Placed.clause) = 0) :
    evaluate schema text none patterns = evaluate schema text (some []) patterns := by
  rw [← located_clauses] at bare
  rw [evaluate, evaluate, foldlM_step_of_no_placeholders bare [] (some []) none,
    foldlM_step_of_no_placeholders bare [] none none]
  cases (located patterns).foldlM (Progress.step schema text) ⟨[], none⟩ <;> rfl

end Grammar

namespace Chain

/-- A text that comes to chains with supplied lists has a placeholder for each of them, and assigns
them in order. It is refused for too few lists where the first placeholder without one starts, and
for too many only if there are more lists than placeholders. A text that comes to chains without
lists has no placeholder, and one that is refused for their absence is refused where the first one
starts. No lists are as good as none where there is no placeholder. -/
theorem parse_assigns_lists (schema : Schema) {text : String} {patterns : List Placed}
    (derives : Derives text patterns) :
    (∀ list : List IdList,
      (∀ chains, parse schema text (some list) = .ok chains →
        list.length = placeholders (patterns.map Placed.clause) ∧
        Assigned schema (patterns.map Placed.clause) list chains) ∧
      (∀ position, parse schema text (some list) = .error (.notEnoughIdLists position) →
        list.length < placeholders (patterns.map Placed.clause) ∧
        (placeholderStarts (located patterns))[list.length]? = some position) ∧
      ∀ shown, parse schema text (some list) = .error (.tooManyIdLists shown) →
        placeholders (patterns.map Placed.clause) < list.length) ∧
    (∀ chains, parse schema text none = .ok chains →
      placeholders (patterns.map Placed.clause) = 0) ∧
    (∀ position, parse schema text none = .error (.noIdLists position) →
      (placeholderStarts (located patterns))[0]? = some position) ∧
    (placeholders (patterns.map Placed.clause) = 0 →
      parse schema text none = parse schema text (some [])) := by
  simp only [parse_eq_of_derives derives]
  refine ⟨fun list => ⟨fun chains done => ?_, fun position failed => ?_, fun shown failed =>
    lt_length_of_tooManyIdLists failed⟩, fun chains done => ?_, fun position failed =>
    start_of_undrawn failed (.inl rfl), evaluate_none_of_no_placeholders⟩
  · exact ⟨(placeholders_of_evaluate done).symm, (evaluate_some_eq_ok.mp done).assigned⟩
  · have start := start_of_undrawn failed (.inr rfl)
    obtain ⟨bound, _⟩ := List.getElem?_eq_some_iff.mp start
    rw [length_placeholderStarts, located_clauses] at bound
    exact ⟨bound, start⟩
  · simpa using (evaluate_none_eq_ok.mp done).count.symm

/-- Two placeholders around a percent sign within quotes, with none to three lists. -/
theorem parse_assigns_lists_of_reports : ∃ reports patterns chains,
    Report.schema = .ok reports ∧
    Derives " >checkout % >build[\"%\"] >test%#" patterns ∧
    parse reports " >checkout % >build[\"%\"] >test%#" (some [[[some "a"]], [[some "b"]]]) =
      .ok chains ∧
    2 = placeholders (patterns.map Placed.clause) ∧
    Assigned reports (patterns.map Placed.clause) [[[some "a"]], [[some "b"]]] chains ∧
    (placeholderStarts (located patterns))[0]? = some 0 ∧
    (placeholderStarts (located patterns))[1]? = some 25 ∧
    placeholders (patterns.map Placed.clause) < 3 ∧
    ∃ others, Derives ">build[\"%\"]" others ∧ placeholders (others.map Placed.clause) = 0 ∧
      parse reports ">build[\"%\"]" none = parse reports ">build[\"%\"]" (some []) := by
  have run : (do
      let reports ← Report.schema.toOption
      let chains ← (parse reports " >checkout % >build[\"%\"] >test%#"
        (some [[[some "a"]], [[some "b"]]])).toOption
      let bare ← error? (parse reports " >checkout % >build[\"%\"] >test%#" none)
      let short ← error? (parse reports " >checkout % >build[\"%\"] >test%#"
        (some [[[some "a"]]]))
      let long ← error? (parse reports " >checkout % >build[\"%\"] >test%#"
        (some [[[some "a"]], [[some "b"]], [[some "c"]]]))
      let quoted ← (parse reports ">build[\"%\"]" none).toOption
      pure (chains.length, quoted.length, bare, short, long)) =
      some (1, 1, .noIdLists 0, .notEnoughIdLists 25,
        .tooManyIdLists " >checkout % >build[\"%\"] >test%#") := by
    decide +kernel
  simp only [Option.bind_eq_bind, Option.pure_def, Option.bind_eq_some_iff, toOption_eq_some,
    error?_eq_some, Option.some.injEq, Prod.mk.injEq] at run
  obtain ⟨reports, accepted, chains, parsed, _, bare, _, short, _, long, quoted, parsedQuoted, _, _,
    rfl, rfl, rfl⟩ := run
  obtain ⟨patterns, valid⟩ := derivable_of_parse parsed (by decide)
  obtain ⟨others, validQuoted⟩ := derivable_of_parse parsedQuoted (by decide)
  obtain ⟨supplied, _, absent, _⟩ := parse_assigns_lists reports (.inr valid)
  obtain ⟨_, without, _, same⟩ := parse_assigns_lists reports (.inr validQuoted)
  obtain ⟨count, assigned⟩ := (supplied _).1 chains parsed
  exact ⟨reports, patterns, chains, accepted, .inr valid, parsed, count, assigned, absent 0 bare,
    ((supplied _).2.1 25 short).2, (supplied _).2.2 _ long, others, .inr validQuoted,
    without quoted parsedQuoted, same (without quoted parsedQuoted)⟩

end Chain

end ObjectQuery

import ObjectQuery.Proofs.Pattern.FaultPosition
import ObjectQuery.Proofs.Pattern.WrittenText

/-! Placeholders that are written out. A placeholder and its list may be replaced by the text of the
list between brackets: the text that has been filled in this way comes to the same chains without
any supplied lists. -/
namespace ObjectQuery

open Outcome Pattern Grammar

namespace Grammar

variable {schema : Schema} {lists : List IdList} {patterns : List Placed}

/-- The clauses with the lists in place of their placeholders, from the left to the right. -/
def supply : List IdList → List Clause → List Clause
  | _, [] => []
  | lists, c :: clauses =>
    match c.source, lists with
    | some .placeholder, ids :: lists =>
      { c with source := some (.listed ids) } :: supply lists clauses
    | _, _ => c :: supply lists clauses

/-- A text with another one for each percent sign in it. -/
def replacePercent (text cs : List Char) : List Char :=
  cs.flatMap fun c => if c = '%' then text else [c]

/-- What is put together from patterns, with texts in place of their placeholders, from the left to
the right. A pattern with a placeholder has no other percent sign in it. -/
def fill : List (List Char) → List Placed → List Char → List Char
  | _, [], cs => cs
  | texts, p :: patterns, cs =>
    let own := p.lead ++ p.body
    match p.clause.source, texts with
    | some .placeholder, text :: texts =>
      replacePercent text own ++ fill texts patterns (cs.drop own.length)
    | _, _ => own ++ fill texts patterns (cs.drop own.length)

section Cons

variable {c : Clause} {clauses : List Clause} {ids : IdList}

theorem supply_placeholder (own : c.source = some .placeholder) :
    supply (ids :: lists) (c :: clauses) =
      { c with source := some (.listed ids) } :: supply lists clauses := by
  simp [supply, own]

theorem supply_passed (passed : c.source = some .placeholder → lists = []) :
    supply lists (c :: clauses) = c :: supply lists clauses := by
  rcases own : c.source with _ | _ | ids
  · simp [supply, own]
  · simp [supply, own, passed own]
  · simp [supply, own]

variable {p : Placed} {text rest : List Char} {texts : List (List Char)}

theorem fill_placeholder (own : p.clause.source = some .placeholder) :
    fill (text :: texts) (p :: patterns) (p.lead ++ p.body ++ rest) =
      replacePercent text (p.lead ++ p.body) ++ fill texts patterns rest := by
  simp [fill, own]

theorem fill_passed (passed : p.clause.source = some .placeholder → texts = []) :
    fill texts (p :: patterns) (p.lead ++ p.body ++ rest) =
      p.lead ++ p.body ++ fill texts patterns rest := by
  rcases own : p.clause.source with _ | _ | ids
  · simp [fill, own]
  · simp [fill, own, passed own]
  · simp [fill, own]

end Cons

@[simp] theorem length_supply {clauses : List Clause} :
    (supply lists clauses).length = clauses.length := by
  fun_induction supply lists clauses <;> simp_all

/-- What lists come to for placeholders, they come to in their place. -/
theorem run_supply {clauses : List Clause} {chains : List Chain}
    (count : lists.length = placeholders clauses) (frontier : List Chain) :
    Run schema (supply lists clauses) ⟨frontier, none⟩ ⟨chains, none⟩ ↔
      Run schema clauses ⟨frontier, some lists⟩ ⟨chains, some []⟩ := by
  induction clauses generalizing lists frontier with
  | nil =>
    obtain rfl := List.length_eq_zero_iff.mp count
    simp [supply, run_nil]
  | cons c clauses ih =>
    by_cases own : c.source = some .placeholder
    · rw [placeholders_own own] at count
      obtain ⟨first, lists, rfl⟩ := List.exists_cons_of_length_eq_add_one count
      have later := ih (Nat.succ.inj count)
      simp [supply_placeholder own, own, run_cons, later]
    · rw [placeholders_other own] at count
      obtain ⟨_, passed⟩ := exists_draws_other own
      have later := ih count
      simp [supply_passed fun placeholder => absurd placeholder own, run_cons, passed, later]

theorem replacePercent_append {text cs cs' : List Char} :
    replacePercent text (cs ++ cs') = replacePercent text cs ++ replacePercent text cs' :=
  List.flatMap_append

theorem replacePercent_of_not_mem {text cs : List Char} (absent : '%' ∉ cs) :
    replacePercent text cs = cs := by
  induction cs with
  | nil => rfl
  | cons c cs ih =>
    obtain ⟨other, absent⟩ := List.ne_and_not_mem_of_not_mem_cons absent
    rw [replacePercent, List.flatMap_cons, ← replacePercent, ih absent, if_neg other.symm]
    rfl

theorem Blanks.no_percent {gap : List Char} (blank : Blanks gap) : '%' ∉ gap := fun member => by
  simpa [Whitespace] using blank '%' member

theorem TypeText.no_percent {type : List Char} {target : Target} (text : TypeText type target) :
    '%' ∉ type := by
  cases text with
  | any => simp
  | named _ names => exact fun member => by simpa [NameChar] using names '%' member

theorem OptionalMatch.no_percent {mark : List Char} {scope : Scope}
    (text : OptionalMatch mark scope) : '%' ∉ mark := by
  cases text with
  | absent => simp
  | present blank text => cases text <;> simp [blank.no_percent]

theorem RelationText.no_percent {relation : List Char} {down : Bool}
    (text : RelationText relation down) : '%' ∉ relation := by
  cases text <;> simp

/-- The placeholder is the only percent sign of its pattern, and any ID list may stand there. -/
theorem BodyText.filled {body text : List Char} {c : Clause} {source : Source}
    (valid : BodyText body c) (own : c.source = some .placeholder) (spec : SpecText text source) :
    BodyText (replacePercent text body) { c with source := some source } := by
  cases valid with
  | @body relation gap type _ mark _ _ _ _ relationText gapBlank typeText specText markText =>
    obtain rfl := own
    cases specText with
    | @present gap' _ _ blank percent =>
      cases percent
      have whole : replacePercent text (relation ++ gap ++ type ++ (gap' ++ ['%']) ++ mark) =
          relation ++ gap ++ type ++ (gap' ++ text) ++ mark := by
        simp only [replacePercent_append, replacePercent_of_not_mem relationText.no_percent,
          replacePercent_of_not_mem gapBlank.no_percent,
          replacePercent_of_not_mem typeText.no_percent,
          replacePercent_of_not_mem blank.no_percent,
          replacePercent_of_not_mem markText.no_percent]
        simp [replacePercent]
      rw [whole]
      exact .body relationText gapBlank typeText (.present blank spec) markText

/-- Filled patterns are patterns, and they say the lists that they have been filled with. -/
theorem Patterns.filled {cs : List Char} (valid : Patterns cs patterns) {texts : List (List Char)}
    (written : List.Forall₂ (fun text ids => SpecText text (.listed ids)) texts lists) :
    ∃ others, Patterns (fill texts patterns cs) others ∧
      others.map Placed.clause = supply lists (patterns.map Placed.clause) := by
  -- Texts and lists run out together: a pattern takes the first of both, or passes both on.
  induction valid generalizing texts lists with
  | none blank => exact ⟨[], .none blank, rfl⟩
  | @more p rest patterns valid later ih =>
    have passed (unfilled : p.clause.source = some .placeholder → texts = [] ∧ lists = []) :
        ∃ others, Patterns (fill texts (p :: patterns) (p.lead ++ p.body ++ rest)) others ∧
          others.map Placed.clause = supply lists ((p :: patterns).map Placed.clause) := by
      obtain ⟨others, filled, same⟩ := ih written
      refine ⟨p :: others, ?_, ?_⟩
      · rw [fill_passed fun own => (unfilled own).1]
        exact .more valid filled
      · rw [List.map_cons, List.map_cons, supply_passed fun own => (unfilled own).2, same]
    cases written with
    | nil => exact passed fun _ => ⟨rfl, rfl⟩
    | @cons text ids texts lists first written =>
      by_cases own : p.clause.source = some .placeholder
      · obtain ⟨others, filled, same⟩ := ih written
        obtain ⟨blank, body⟩ := valid
        let q : Placed := ⟨p.lead, replacePercent text p.body,
          { p.clause with source := some (.listed ids) }⟩
        refine ⟨q :: others, ?_, ?_⟩
        · rw [fill_placeholder own, replacePercent_append,
            replacePercent_of_not_mem blank.no_percent]
          exact .more (p := q) ⟨blank, body.filled own first⟩ filled
        · rw [List.map_cons, List.map_cons, supply_placeholder own, same]
      · exact passed fun placeholder => absurd placeholder own

theorem Derives.filled {text : String} (derives : Derives text patterns)
    {texts : List (List Char)}
    (written : List.Forall₂ (fun text ids => SpecText text (.listed ids)) texts lists) :
    ∃ others, Derives (String.ofList (fill texts patterns text.toList)) others ∧
      others.map Placed.clause = supply lists (patterns.map Placed.clause) := by
  rcases derives with ⟨rfl, rfl⟩ | ⟨valid, some⟩
  · exact ⟨[], .inl ⟨rfl, rfl⟩, rfl⟩
  · obtain ⟨others, filled, same⟩ := valid.filled written
    refine ⟨others, .inr ⟨by rwa [String.toList_ofList], ?_⟩, same⟩
    rintro rfl
    have length := congrArg List.length same
    simp [some, eq_comm] at length

end Grammar

theorem IdList.mapM_write_text {lists : List IdList} (writable : ∀ ids ∈ lists,
      ids ≠ [] ∧ ∀ id ∈ ids, id ≠ [] ∧ ∀ field ∈ id, Writable field) :
    ∃ texts, lists.mapM write = .ok texts ∧
      List.Forall₂ (fun text ids => SpecText text (.listed ids)) texts lists := by
  induction lists with
  | nil => exact ⟨[], rfl, .nil⟩
  | cons ids lists ih =>
    obtain ⟨some, each⟩ := writable ids List.mem_cons_self
    obtain ⟨text, first, spec⟩ := write_text some each
    obtain ⟨texts, later, specs⟩ := ih fun list member =>
      writable list (List.mem_cons_of_mem ids member)
    exact ⟨text :: texts, by simp [first, later], .cons spec specs⟩

namespace Chain

/-- A text with a list for each placeholder comes to the same chains as the text with the written
lists in place of the placeholders does without any. -/
theorem parse_filled (schema : Schema) {text : String} {patterns : List Placed}
    (derives : Derives text patterns) {lists : List IdList}
    (count : lists.length = placeholders (patterns.map Placed.clause))
    (writable : ∀ ids ∈ lists, ids ≠ [] ∧ ∀ id ∈ ids, id ≠ [] ∧ ∀ field ∈ id, Writable field) :
    ∃ texts, lists.mapM IdList.write = .ok texts ∧ ∀ chains,
      parse schema text (some lists) = .ok chains ↔
      parse schema (String.ofList (fill texts patterns text.toList)) none = .ok chains := by
  obtain ⟨texts, written, specs⟩ := IdList.mapM_write_text writable
  obtain ⟨others, filled, same⟩ := derives.filled specs
  refine ⟨texts, written, fun chains => ?_⟩
  rw [parse_eq_of_derives derives, parse_eq_of_derives filled, evaluate_some_eq_ok,
    evaluate_none_eq_ok, same, run_supply count]

/-- Two placeholders around a percent sign within quotes, for lists with percent signs, a bracket, a
semicolon and a quote in them. -/
theorem parse_filled_of_reports : ∃ reports patterns texts chains,
    Report.schema = .ok reports ∧ Derives " >checkout%>build[\"%\"]>test %#" patterns ∧
    2 = placeholders (patterns.map Placed.clause) ∧
    [[[some "a]%"], [some "b;\""]], [[some "%"]]].mapM IdList.write = .ok texts ∧
    String.ofList (fill texts patterns " >checkout%>build[\"%\"]>test %#".toList) =
      " >checkout[\"a]%\"; \"b;\\\"\"]>build[\"%\"]>test [%]#" ∧
    parse reports " >checkout%>build[\"%\"]>test %#"
      (some [[[some "a]%"], [some "b;\""]], [[some "%"]]]) = .ok chains ∧
    parse reports " >checkout[\"a]%\"; \"b;\\\"\"]>build[\"%\"]>test [%]#" none = .ok chains := by
  have quoted : FieldText ['"', '%', '"'] ['%'] := .quoted (.plain (by simp [PlainChar]) .none)
  have checkout : Placed.Valid ⟨[' '], ">checkout%".toList,
      ⟨true, .named "checkout", some .placeholder, .none⟩⟩ :=
    ⟨.space, .body .children .nil (@Step.name_text "checkout" (by decide))
      (.present .nil .placeholder) .absent⟩
  have build : Placed.Valid ⟨[], ">build[\"%\"]".toList,
      ⟨true, .named "build", some (.listed [[some "%"]]), .none⟩⟩ :=
    ⟨.nil, .body .children .nil (@Step.name_text "build" (by decide))
      (.present .nil (.listed (.inner .nil (.single (.single quoted)) .nil))) .absent⟩
  have test : Placed.Valid ⟨[], ">test %#".toList,
      ⟨true, .named "test", some .placeholder, .all⟩⟩ :=
    ⟨.nil, .body .children .nil (@Step.name_text "test" (by decide)) (.present .space .placeholder)
      (.present .nil .all)⟩
  have derives : Derives " >checkout%>build[\"%\"]>test %#" _ :=
    .inr ⟨.more checkout (.more build (.more test (.none .nil))), by simp⟩
  have run : (do
      let reports ← Report.schema.toOption
      let chains ← (parse reports " >checkout%>build[\"%\"]>test %#"
        (some [[[some "a]%"], [some "b;\""]], [[some "%"]]])).toOption
      pure chains.length) = some 1 := by
    decide +kernel
  simp only [Option.bind_eq_bind, Option.pure_def, Option.bind_eq_some_iff, toOption_eq_some] at run
  obtain ⟨reports, accepted, chains, parsed, _⟩ := run
  obtain ⟨texts, written, same⟩ := @parse_filled reports _ _ derives
    [[[some "a]%"], [some "b;\""]], [[some "%"]]] rfl (by simp [Writable])
  obtain rfl : ["[\"a]%\"; \"b;\\\"\"]".toList, "[%]".toList] = texts := Except.ok.inj written
  exact ⟨reports, _, _, chains, accepted, derives, rfl, written, rfl, parsed,
    (same chains).mp parsed⟩

end Chain

end ObjectQuery

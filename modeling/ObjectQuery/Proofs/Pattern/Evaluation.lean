import ObjectQuery.Proofs.Chain.Growth
import ObjectQuery.Proofs.Pattern.ClosedList
import ObjectQuery.Pattern.Writing
import ObjectQuery.Report

/-! Pattern strings come to what their derivations come to. Reading takes one specification after
the other, and each of them is one pattern of the derivation. -/
namespace ObjectQuery

open Outcome Pattern Grammar

theorem IdSource.Means.resolve {ids : IdSource} {source : Option Source}
    (means : ids.Means source) (position : Nat) (lists : Option (List IdList)) :
    ids.resolve position lists = Grammar.resolve position lists source := by
  cases means with
  | absent => rfl
  | placeholder => rfl
  | inline read => simp [IdSource.resolve, Grammar.resolve, read]

namespace Reading

variable (schema : Schema)

/-- A step is what its clause says, and goes on behind the text of its specification. -/
theorem step_means {text : String} {before taken rest : List Char} {s : Specification} {c : Clause}
    (means : s.Means c) (own : s.text = taken) (split : text.toList = before ++ (taken ++ rest))
    (reached : Progress) :
    step schema ⟨bytes before, taken ++ rest, reached.frontier, reached.lists⟩ s =
      (reached.step schema text (before, c)).map fun next =>
        ⟨bytes (before ++ taken), rest, next.frontier, next.lists⟩ := by
  have shown : text.toList.drop before.length = taken ++ rest := by simp [split]
  rw [step, Progress.step, means.ids.resolve, means.down, means.target, means.scope, shown, own]
  cases Grammar.resolve (bytes before) reached.lists c.source with
  | error => rfl
  | ok found =>
    obtain ⟨ids, others⟩ := found
    simp only [bind, Except.bind]
    cases Chain.expand schema reached.frontier c.down c.target ids c.scope with
    | error => rfl
    | ok => simp [pure, Except.pure, Except.map]

/-- A pattern at the start of what is left expands the frontier by its clause. -/
theorem fold_pattern {text : String} {before gap body tail : List Char} {c : Clause}
    (split : text.toList = before ++ (gap ++ body ++ tail)) (blank : Blanks gap)
    (valid : BodyText body c) (behind : Follows ['>', '<'] tail) (reached : Progress) :
    (Specification.readAll (gap ++ body ++ tail)).1.foldlM (step schema)
        ⟨bytes before, gap ++ body ++ tail, reached.frontier, reached.lists⟩ =
      (reached.step schema text (before, c)).bind fun next =>
        (Specification.readAll (skipBlanks tail)).1.foldlM (step schema)
          ⟨bytes (before ++ gap ++ body ++ Specification.blanks tail), skipBlanks tail,
            next.frontier, next.lists⟩ := by
  obtain ⟨s, found, means, own⟩ := Specification.read?_complete blank valid behind
  rw [Specification.readAll_some found, List.foldlM_cons]
  have whole : gap ++ body ++ tail =
      gap ++ body ++ Specification.blanks tail ++ skipBlanks tail := by
    rw [List.append_assoc _ _ (skipBlanks tail), Specification.blanks_skipBlanks]
  rw [whole] at split ⊢
  rw [step_means schema means own split reached]
  cases reached.step schema text (before, c) with
  | error => rfl
  | ok next => simp [bind, Except.bind, Except.map]

/-- What is left of a text of patterns expands the frontier by their clauses. -/
theorem fold_behind {text : String} {cs : List Char} {patterns : List Placed}
    (valid : Patterns cs patterns) {taken : List Char} (split : text.toList = taken ++ cs)
    (reached : Progress) :
    (Specification.readAll (skipBlanks cs)).1.foldlM (step schema)
        ⟨bytes (taken ++ Specification.blanks cs), skipBlanks cs, reached.frontier,
          reached.lists⟩ =
      ((located.behind taken patterns).foldlM (Progress.step schema text) reached).map fun last =>
        ⟨bytes text.toList, [], last.frontier, last.lists⟩ := by
  -- The blanks before what is left have been taken along with the pattern before it.
  induction valid generalizing taken reached with
  | @none trail blank =>
    have all : Specification.blanks trail = trail := by
      simpa [skipBlanks_blanks blank] using Specification.blanks_skipBlanks trail
    rw [skipBlanks_blanks blank, all, split, Specification.readAll_none rfl]
    rfl
  | @more p rest patterns valid later ih =>
    obtain ⟨blank, body⟩ := valid
    have visible := body.skipBlanks rest
    have start : skipBlanks (p.lead ++ p.body ++ rest) = [] ++ p.body ++ rest := by
      rw [List.append_assoc, skipBlanks_append blank, visible]
      rfl
    have lead : Specification.blanks (p.lead ++ p.body ++ rest) = p.lead := by
      rw [List.append_assoc]
      exact Specification.blanks_append blank visible
    rw [start, lead, fold_pattern schema (by simpa using split) .nil body later.follows,
      located.behind, List.foldlM_cons]
    cases reached.step schema text (taken ++ p.lead, p.clause) with
    | error => rfl
    | ok next =>
      have whole : text.toList = taken ++ p.lead ++ p.body ++ rest := by simpa using split
      have onward := ih whole next
      simpa [bind, Except.bind] using onward

/-- A text of patterns is read to its end, to what the fold over their clauses comes to. -/
theorem fold_located {text : String} {patterns : List Placed}
    (valid : text.toList = [] ∧ patterns = [] ∨ PatternString text.toList patterns)
    (lists : Option (List IdList)) :
    (Specification.readAll text.toList).1.foldlM (step schema) (start text.toList lists) =
      ((located patterns).foldlM (Progress.step schema text) ⟨[], lists⟩).map fun last =>
        ⟨bytes text.toList, [], last.frontier, last.lists⟩ := by
  rcases valid with ⟨empty, rfl⟩ | ⟨valid, nonempty⟩
  · rw [empty, Specification.readAll_none rfl]
    rfl
  · generalize all : text.toList = cs at valid
    cases valid with
    | none => contradiction
    | @more p rest patterns valid later =>
      have whole : text.toList = [] ++ (p.lead ++ p.body ++ rest) := all
      have first := fold_pattern schema whole valid.1 valid.2 later.follows ⟨[], lists⟩
      have shape : start (p.lead ++ p.body ++ rest) lists =
          ⟨bytes [], p.lead ++ p.body ++ rest, [], lists⟩ := rfl
      rw [shape, first, located, List.foldlM_cons]
      cases Progress.step schema text ⟨[], lists⟩ ([], p.clause) with
      | error => rfl
      | ok next =>
        have onward := fold_behind schema later all next
        rw [all] at onward
        exact onward

/-- Each step goes on behind the text of its specification. -/
theorem fold_reached {schema : Schema} {specifications : List Specification} {r last : Reading}
    {left : List Char} (done : specifications.foldlM (step schema) r = .ok last)
    (split : r.rest = specifications.flatMap Specification.text ++ left) :
    last.position = r.position + bytes (specifications.flatMap Specification.text) ∧
      last.rest = left := by
  induction specifications generalizing r with
  | nil =>
    obtain rfl : r = last := by simpa using done
    exact ⟨rfl, split⟩
  | cons s specifications ih =>
    obtain ⟨next, first, later⟩ : ∃ next, step schema r s = .ok next ∧
        specifications.foldlM (step schema) next = .ok last := by simpa using done
    obtain ⟨_, _, _, _, _, rfl⟩ := step_eq_ok.mp first
    obtain ⟨reached, left⟩ := ih later (by simp [split])
    exact ⟨by simp [reached, Nat.add_assoc], left⟩

end Reading

namespace Grammar

theorem located_clauses (patterns : List Placed) :
    (located patterns).map Prod.snd = patterns.map Placed.clause := by
  have behind (taken : List Char) (patterns : List Placed) :
      (located.behind taken patterns).map Prod.snd = patterns.map Placed.clause := by
    induction patterns generalizing taken with
    | nil => rfl
    | cons p patterns ih => simp [located.behind, ih]
  cases patterns with
  | nil => rfl
  | cons p patterns => simp [located, behind]

theorem resolve_error {position : Nat} {lists : Option (List IdList)} {source : Option Source}
    {fault : PatternFault} (failed : resolve position lists source = .error fault) :
    source = some .placeholder ∧ (lists = none ∧ fault = .noIdLists position ∨
      lists = some [] ∧ fault = .notEnoughIdLists position) := by
  unfold resolve at failed
  split at failed
  · cases failed
  · cases failed
  · split at failed
    · exact ⟨rfl, .inl ⟨rfl, (Except.error.inj failed).symm⟩⟩
    · exact ⟨rfl, .inr ⟨rfl, (Except.error.inj failed).symm⟩⟩
    · cases failed

/-- What a step may be refused for. -/
theorem Progress.step_error {schema : Schema} {text : String} {reached : Progress}
    {before : List Char} {c : Clause} {fault : PatternFault}
    (failed : reached.step schema text (before, c) = .error fault) :
    (c.source = some .placeholder ∧
      (reached.lists = none ∧ fault = .noIdLists (bytes before) ∨
        reached.lists = some [] ∧ fault = .notEnoughIdLists (bytes before))) ∨
      ∃ cause, fault =
        .expansion (bytes before) (String.ofList (text.toList.drop before.length)) cause := by
  rcases bind_eq_error.mp failed with refused | ⟨_, _, failed⟩
  · exact .inl (resolve_error refused)
  · dsimp only at failed
    split at failed
    · cases failed
    · next cause _ => exact .inr ⟨cause, (Except.error.inj failed).symm⟩

theorem evaluate_not_syntaxError {schema : Schema} {text : String}
    {lists : Option (List IdList)} {patterns : List Placed} {shown : String} {position : Nat}
    {rest : String} :
    evaluate schema text lists patterns ≠ .error (.syntaxError shown position rest) := by
  intro failed
  rcases bind_eq_error.mp failed with refused | ⟨last, _, failed⟩
  · obtain ⟨_, ⟨before, c⟩, _, reached, _, _, blamed⟩ := error_of_foldlM refused
    rcases Progress.step_error blamed with ⟨_, ⟨_, same⟩ | ⟨_, same⟩⟩ | ⟨cause, same⟩ <;> cases same
  · split at failed <;> cases failed

end Grammar

namespace Chain

variable {schema : Schema} {text : String} {lists : Option (List IdList)}

/-- A pattern string comes to the fold over the clauses of each of its derivations. -/
theorem parse_eq_evaluate {patterns : List Placed}
    (valid : text.toList = [] ∧ patterns = [] ∨ PatternString text.toList patterns) :
    parse schema text lists = evaluate schema text lists patterns := by
  rw [parse, evaluate, Reading.fold_located schema valid]
  cases (located patterns).foldlM (Progress.step schema text) ⟨[], lists⟩ with
  | error => rfl
  | ok last => rfl

/-- Whatever comes to chains is a pattern string. -/
theorem derivable_of_parse {chains : List Chain} (done : parse schema text lists = .ok chains)
    (nonempty : text.toList ≠ []) : ∃ patterns, PatternString text.toList patterns := by
  obtain ⟨last, run, finish⟩ := bind_eq_ok.mp done
  have left : last.rest = (Specification.readAll text.toList).2 :=
    (Reading.fold_reached run (Specification.readAll_text text.toList).symm).2
  have whole : (Specification.readAll text.toList).2 = [] :=
    left ▸ (Reading.finish_eq_ok.mp finish).1
  exact Specification.readAll_derivable whole nonempty

/-- Reading follows the grammar. An empty text and every pattern string come to the fold over their
clauses and are never refused for their syntax. No other text comes to anything. -/
theorem parse_follows_grammar (schema : Schema) (text : String) (lists : Option (List IdList)) :
    (∀ patterns, text = "" ∧ patterns = [] ∨ PatternString text.toList patterns →
      parse schema text lists = evaluate schema text lists patterns ∧
      ∀ shown position rest,
        parse schema text lists ≠ .error (.syntaxError shown position rest)) ∧
    (text ≠ "" → (¬ ∃ patterns, PatternString text.toList patterns) →
      ∃ fault, parse schema text lists = .error fault) := by
  constructor
  · intro patterns valid
    have same : parse schema text lists = evaluate schema text lists patterns :=
      parse_eq_evaluate (valid.imp_left fun ⟨empty, nothing⟩ => ⟨by simp [empty], nothing⟩)
    refine ⟨same, fun shown position rest => ?_⟩
    rw [same]
    exact evaluate_not_syntaxError
  · intro nonempty underivable
    cases done : parse schema text lists with
    | error fault => exact ⟨fault, rfl⟩
    | ok chains => exact absurd (derivable_of_parse done (by simpa using nonempty)) underivable

/-- Over reports, with brackets within quotes, and with a bracket that is not closed. -/
theorem parse_follows_grammar_of_reports : ∃ reports patterns chain,
    PatternString " >checkout [ \"a]\" ; b ] #>build %$ ".toList patterns ∧
    parse reports " >checkout [ \"a]\" ; b ] #>build %$ " (some [[[some "c"]]]) = .ok [chain] ∧
    evaluate reports " >checkout [ \"a]\" ; b ] #>build %$ " (some [[[some "c"]]]) patterns =
      .ok [chain] ∧
    chain.text = .ok ">checkout[\"a]\"; b]#>build[c]#" ∧
    (¬ ∃ patterns, PatternString ">test[a".toList patterns) ∧
    ∃ fault, parse reports ">test[a" none = .error fault := by
  have run : (do
      let reports ← Report.schema.toOption
      let chains ← (parse reports " >checkout [ \"a]\" ; b ] #>build %$ "
        (some [[[some "c"]]])).toOption
      pure (chains.map fun c => c.text.toOption,
        parse reports ">test[a" none matches .error (.syntaxError _ _ _))) =
      some ([some ">checkout[\"a]\"; b]#>build[c]#"], true) := by
    decide +kernel
  simp only [Option.bind_eq_bind, Option.pure_def, Option.bind_eq_some_iff, toOption_eq_some,
    Option.some.injEq, Prod.mk.injEq] at run
  obtain ⟨reports, _, chains, parsed, listed, refused⟩ := run
  obtain ⟨chain, rfl, shown⟩ := List.map_eq_singleton_iff.mp listed
  obtain ⟨patterns, valid⟩ := derivable_of_parse parsed (by decide)
  have underivable : ¬ ∃ patterns, PatternString ">test[a".toList patterns := by
    rintro ⟨others, valid⟩
    rw [parse_eq_evaluate (.inr valid)] at refused
    split at refused
    · next same => exact evaluate_not_syntaxError same
    · cases refused
  refine ⟨reports, patterns, chain, valid, parsed, ?_,
    toOption_eq_some.mp shown, underivable, ?_⟩
  · rw [← parsed]
    exact ((parse_follows_grammar reports _ _).1 patterns (.inr valid)).1.symm
  · exact (parse_follows_grammar reports ">test[a" none).2 (by decide) underivable

end Chain

end ObjectQuery

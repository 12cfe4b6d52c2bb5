import ObjectQuery.Proofs.Pattern.Refusal
import ObjectQuery.Proofs.Pattern.Run

/-! Positions of faults. A pattern string that is refused at a position is good up to there: cut off
at the position it comes to chains, with as many of the ID lists as are drawn by then. What stands
at the position is what the string is refused for. -/
namespace ObjectQuery

open Outcome Pattern Grammar

namespace PatternFault

/-- Where in a pattern string it is refused, if it is at some place. -/
def position? : PatternFault → Option Nat
  | .syntaxError _ position _ => some position
  | .noIdLists position => some position
  | .notEnoughIdLists position => some position
  | .expansion position _ _ => some position
  | _ => none

/-- What is left of the pattern string there. -/
def rest? : PatternFault → Option String
  | .syntaxError _ _ rest => some rest
  | .expansion _ rest _ => some rest
  | _ => none

end PatternFault

theorem utf8ByteSize_ofList (cs : List Char) : (String.ofList cs).utf8ByteSize = bytes cs := by
  induction cs with
  | nil => rfl
  | cons c cs ih =>
    rw [String.ofList_cons, String.utf8ByteSize_append, String.utf8ByteSize_singleton, ih,
      bytes_cons]

namespace Specification

theorem type?_ne_none {type : List Char} {target : Target} (text : TypeText type target)
    (rest : List Char) : type? (skipBlanks (type ++ rest)) ≠ none := by
  cases text with
  | any => simp [skipBlanks_cons (show ¬ Whitespace '*' by simp [Whitespace]), type?]
  | named some names =>
    cases type with
    | nil => contradiction
    | cons c type =>
      have name := names c List.mem_cons_self
      have visible : ¬ Whitespace c := fun blank => blank.not_name name
      rw [List.cons_append, skipBlanks_cons visible, type?]
      split <;> simp [isNameChar_iff.mpr name]

/-- No pattern stands at the start of a text that no specification can be taken from. -/
theorem not_prefix_of_read?_eq_none {cs lead body : List Char} {c : Clause}
    (missing : read? cs = none) (blank : Blanks lead) (text : BodyText body c) :
    ¬ lead ++ body <+: cs := by
  rintro ⟨tail, rfl⟩
  cases text with
  | body relationText gapBlank typeText =>
    rw [read?, relation?_body blank relationText, Option.bind_some, Option.map_eq_none_iff,
      skipBlanks_append gapBlank] at missing
    exact type?_ne_none typeText _ missing

end Specification

namespace Reading.Halts

variable {schema : Schema} {text : String} {r : Reading} {fault : PatternFault}
  (halts : r.Halts schema text fault)
include halts

theorem position {position : Nat} (placed : fault.position? = some position) :
    position = r.position ∧ r.rest ≠ [] := by
  cases halts with
  | noIdLists onward => exact ⟨(Option.some.inj placed).symm, onward⟩
  | notEnoughIdLists onward => exact ⟨(Option.some.inj placed).symm, onward⟩
  | expansion onward => exact ⟨(Option.some.inj placed).symm, onward⟩
  | syntaxError onward => exact ⟨(Option.some.inj placed).symm, onward⟩
  | tooManyIdLists => cases placed

theorem rest : ∀ shown ∈ fault.rest?, shown = String.ofList r.rest := by
  cases halts <;> simp [PatternFault.rest?]

theorem stuck {whole shown : String} {position : Nat}
    (syntactic : fault = .syntaxError whole position shown) :
    Specification.read? r.rest = none := by
  subst syntactic
  cases halts with
  | syntaxError _ missing => exact missing

end Reading.Halts

/-- The patterns that a text is put together from, which are none only for the empty text. -/
def Grammar.Derives (text : String) (patterns : List Placed) : Prop :=
  text = "" ∧ patterns = [] ∨ PatternString text.toList patterns

namespace Chain

variable {schema : Schema} {text : String} {lists : Option (List IdList)}
  {patterns others : List Placed}

theorem parse_eq_of_derives (derives : Derives text patterns) :
    parse schema text lists = evaluate schema text lists patterns :=
  parse_eq_evaluate (derives.imp_left fun ⟨empty, nothing⟩ => ⟨by simp [empty], nothing⟩)

/-- The supplied lists show that all derivations of a text have as many placeholders. -/
theorem placeholders_unique {list : List IdList} {chains : List Chain}
    (derives : Derives text patterns) (other : Derives text others)
    (done : evaluate schema text (some list) patterns = .ok chains) :
    placeholders (others.map Placed.clause) = placeholders (patterns.map Placed.clause) := by
  have same : evaluate schema text (some list) others = .ok chains := by
    rw [← parse_eq_of_derives other, parse_eq_of_derives derives, done]
  rw [placeholders_of_evaluate same, placeholders_of_evaluate done]

theorem derives_of_texts {front : List Specification} (means : ∀ s ∈ front, ∃ c, s.Means c)
    (spaced : ∀ s ∈ front, s.Spaced) :
    ∃ patterns, Derives (String.ofList (front.flatMap Specification.text)) patterns ∧
      List.Forall₂ Specification.Means front (patterns.map Placed.clause) := by
  obtain ⟨patterns, valid, same⟩ := Specification.texts_derivable means spaced .nil
  refine ⟨patterns, ?_, same⟩
  cases patterns with
  | nil =>
    obtain rfl := List.forall₂_nil_right_iff.mp same
    exact .inl ⟨rfl, rfl⟩
  | cons p patterns => exact .inr ⟨by simpa using valid, by simp⟩

/-- The text of specifications that go through comes to where they lead, with as many lists as any
of its derivations has placeholders. -/
theorem parse_texts {front : List Specification} (means : ∀ s ∈ front, ∃ c, s.Means c)
    (spaced : ∀ s ∈ front, s.Spaced) {cs : List Char} {reached : Reading}
    (run : front.foldlM (Reading.step schema) (.start cs lists) = .ok reached)
    (own : text = String.ofList (front.flatMap Specification.text)) :
    (∃ patterns, Derives text patterns) ∧ ∀ patterns, Derives text patterns →
      parse schema text (lists.map (List.take (placeholders (patterns.map Placed.clause)))) =
        .ok reached.frontier := by
  obtain ⟨patterns, derives, same⟩ := derives_of_texts means spaced
  rw [← own] at derives
  obtain ⟨left, cut, none⟩ := (Reading.run_of_fold same run).cut
  have done : evaluate schema text
      (lists.map (List.take (placeholders (patterns.map Placed.clause)))) patterns =
      .ok reached.frontier := evaluate_eq_ok.mpr ⟨left, cut, none⟩
  refine ⟨⟨patterns, derives⟩, fun others other => ?_⟩
  -- Without lists there is nothing to cut; with lists, all derivations ask for as many.
  cases lists with
  | none => rw [← done, ← parse_eq_of_derives derives, Option.map_none, Option.map_none]
  | some list => rw [placeholders_unique derives other done, parse_eq_of_derives derives, done]

/-- Where a pattern string is refused at a position, the text before it comes to chains, with the
lists that it has placeholders for, and what is shown is the text from there on. If the string is
refused for its syntax, no pattern stands there. -/
theorem parse_fault_position (schema : Schema) (text : String) (lists : Option (List IdList))
    {fault : PatternFault} {position : Nat} (failed : parse schema text lists = .error fault)
    (placed : fault.position? = some position) :
    ∃ before rest : String, text = before ++ rest ∧ before.utf8ByteSize = position ∧
      position < text.utf8ByteSize ∧
      (∀ shown ∈ fault.rest?, shown = rest) ∧
      (∃ patterns, Derives before patterns) ∧
      (∀ patterns, Derives before patterns → ∃ chains,
        parse schema before
          (lists.map (List.take (placeholders (patterns.map Placed.clause)))) = .ok chains) ∧
      ∀ whole shown, fault = .syntaxError whole position shown →
        ∀ p : Placed, p.Valid → ¬ p.lead ++ p.body <+: rest.toList := by
  obtain ⟨front, reached, taken, run, split, halts⟩ := parse_halts failed
  obtain ⟨here, onward⟩ := halts.position placed
  have size : reached.position = bytes (front.flatMap Specification.text) := by
    simpa [Reading.start] using (Reading.fold_reached run split).1
  have means := fun s inside => Specification.readAll_means text.toList s (taken.subset inside)
  have spaced := fun s inside => Specification.readAll_spaced text.toList s (taken.subset inside)
  obtain ⟨derivable, comes⟩ := parse_texts means spaced run rfl
  have whole : text = String.ofList (front.flatMap Specification.text) ++
      String.ofList reached.rest := by
    rw [← String.toList_inj]
    simpa using split
  refine ⟨_, _, whole, ?_, ?_, halts.rest, derivable, fun patterns derives =>
    ⟨_, comes patterns derives⟩, fun whole shown syntactic p valid => ?_⟩
  · rw [utf8ByteSize_ofList, here, size]
  · have some : 0 < (String.ofList reached.rest).utf8ByteSize := by
      simpa [Nat.pos_iff_ne_zero] using onward
    rw [whole, String.utf8ByteSize_append, utf8ByteSize_ofList, here, size]
    omega
  · rw [String.toList_ofList]
    exact Specification.not_prefix_of_read?_eq_none (halts.stuck syntactic) valid.1 valid.2

/-- The percent sign within quotes draws no list, and the list behind the first one is left over. -/
theorem parse_fault_position_of_reports : ∃ reports fault,
    Report.schema = .ok reports ∧
    parse reports ">build % >test[\"%\"]# ]" (some [[[some "b"]], [[some "c"]]]) = .error fault ∧
    fault.position? = some 21 ∧
    ∃ before rest : String, ">build % >test[\"%\"]# ]" = before ++ rest ∧
      before.utf8ByteSize = 21 ∧
      (∃ patterns, Derives before patterns ∧ ∃ chains,
        parse reports before (some ([[[some "b"]], [[some "c"]]].take
          (placeholders (patterns.map Placed.clause)))) = .ok chains) ∧
      ∀ p : Placed, p.Valid → ¬ p.lead ++ p.body <+: rest.toList := by
  have run : (do
      let reports ← Report.schema.toOption
      error? (parse reports ">build % >test[\"%\"]# ]" (some [[[some "b"]], [[some "c"]]]))) =
        some (.syntaxError ">build % >test[\"%\"]# ]" 21 "]") := by
    decide +kernel
  simp only [Option.bind_eq_bind, Option.bind_eq_some_iff, toOption_eq_some, error?_eq_some]
    at run
  obtain ⟨reports, accepted, failed⟩ := run
  obtain ⟨before, rest, split, size, _, _, ⟨patterns, derives⟩, comes, none⟩ :=
    parse_fault_position reports _ _ failed rfl
  exact ⟨reports, _, accepted, failed, rfl, before, rest, split, size,
    ⟨patterns, derives, comes patterns derives⟩, none _ _ rfl⟩

end Chain

end ObjectQuery

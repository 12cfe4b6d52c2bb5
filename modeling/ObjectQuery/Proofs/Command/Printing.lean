import ObjectQuery.Command.Run
import ObjectQuery.Proofs.Pattern.PrintableText
import ObjectQuery.Proofs.Pattern.RoundTrip

/-! What the command prints where it is asked for pattern strings alone. Each chain takes up one
line, and the lines are pattern strings themselves: given to the command, they are printed as they
are. A pattern string that is refused ends the text behind what was printed for the ones before. -/
namespace ObjectQuery

open Outcome Chain

namespace Command

/-- The request for the chains of pattern strings, as pattern strings. -/
def plainly (file : Option String) (patterns : List String) : Request :=
  ⟨patterns, false, file, false, false⟩

/-- The schema that the command works over: the one that is in the file, or the schema of reports
if no file is named. -/
def Loads (contents : String → Except OpenFault ByteArray) (schema : Schema) : Option String → Prop
  | some file => Schema.ofFile file (contents file) = .ok schema
  | none => Report.schema = .ok schema

/-- The chains of each pattern string. -/
def parseAll (schema : Schema) (patterns : List String) : Except PatternFault (List (List Chain)) :=
  patterns.mapM fun text => parse schema text none

/-- A text of lines, each of which ends in a line break. -/
def page (lines : List String) : String := String.join (lines.map (· ++ "\n"))

/-- The lines of a text. Nothing stands behind its last line break. -/
def lines (text : String) : List String :=
  (text.toList.splitOn '\n').dropLast.map String.ofList

theorem page_cons (line : String) (rest : List String) :
    page (line :: rest) = line ++ "\n" ++ page rest := by
  simp [page, String.join_cons]

theorem page_append (first second : List String) :
    page (first ++ second) = page first ++ page second := by
  simp [page, String.join_append]

theorem splitOn_page {texts : List String} (unbroken : ∀ text ∈ texts, '\n' ∉ text.toList) :
    (page texts).toList.splitOn '\n' = texts.map String.toList ++ [[]] := by
  induction texts with
  | nil => rfl
  | cons text texts ih =>
    have later := ih fun other member => unbroken other (List.mem_cons_of_mem text member)
    have first := unbroken text List.mem_cons_self
    have shape : (page (text :: texts)).toList = text.toList ++ '\n' :: (page texts).toList := by
      rw [page_cons, String.toList_append, String.toList_append]
      simp
    rw [shape, List.splitOn_append_cons_self_of_not_mem first, later]
    rfl

/-- Lines that have no line break of their own are found again in the text of all of them. -/
theorem lines_page {texts : List String} (unbroken : ∀ text ∈ texts, '\n' ∉ text.toList) :
    lines (page texts) = texts := by
  rw [lines, splitOn_page unbroken, List.dropLast_concat, List.map_map]
  simp [Function.comp_def]

@[simp] theorem andThen_printed (text : String) (next : Unit → Printed) :
    Printed.andThen ⟨text, none⟩ next = ⟨text ++ (next ()).text, (next ()).fault⟩ := rfl

variable {contents : String → Except OpenFault ByteArray} {file : Option String} {schema : Schema}

theorem Loads.accepted (loads : Loads contents schema file) :
    ∃ description, Schema.ofDescription description = .ok schema := by
  cases file with
  | none => exact ⟨Report.description, loads⟩
  | some file =>
    simp only [Loads, Schema.ofFile] at loads
    split at loads
    · next description _ => exact ⟨description, loads⟩
    · cases loads

theorem answer_plainly (loads : Loads contents schema file) (patterns : List String) :
    answer contents (plainly file patterns) = printPatterns schema false patterns := by
  have all (r : Request) (plain : r.dot = false) :
      printAll schema r = printPatterns schema r.json r.patterns := by
    simp [printAll, plain]
  cases file with
  | none =>
    have loaded : Report.schema = .ok schema := loads
    simp only [answer, plainly, loaded]
    exact all _ rfl
  | some file =>
    have loaded : Schema.ofFile file (contents file) = .ok schema := loads
    simp only [answer, plainly, loaded]
    exact all _ rfl

theorem printChains_written {chains : List Chain} {texts : List String}
    (written : chains.mapM Chain.text = .ok texts) : printChains chains = ⟨page texts, none⟩ := by
  induction chains generalizing texts with
  | nil =>
    obtain rfl : [] = texts := by simpa using written
    rfl
  | cons c chains ih =>
    obtain ⟨text, first, rest, later, rfl⟩ : ∃ text, c.text = .ok text ∧
        ∃ rest, chains.mapM Chain.text = .ok rest ∧ text :: rest = texts := by simpa using written
    rw [printChains, first]
    simp only [andThen_printed, ih later, page_cons]

/-- Chains that come from pattern strings can be written, and are read back. -/
theorem parseAll_readable {patterns : List String} {chains : List (List Chain)}
    (parsed : parseAll schema patterns = .ok chains) :
    ∀ c ∈ chains.flatten, Readable schema c := by
  intro c member
  obtain ⟨some, inside, here⟩ := List.mem_flatten.mp member
  obtain ⟨text, _, done⟩ := mem_of_mapM parsed inside
  exact Keeps.parse (fun ids supply => readable_kept supply) (fun type known => known) done c here

theorem written_of_readable (sound : schema.Sound) {chains : List Chain}
    (readable : ∀ c ∈ chains, Readable schema c) :
    ∃ texts, chains.mapM Chain.text = .ok texts ∧ parseAll schema texts = .ok (chains.map ([·])) ∧
      ∀ text ∈ texts, Printable text.toList := by
  induction chains with
  | nil => exact ⟨[], rfl, rfl, by simp⟩
  | cons c chains ih =>
    have first := readable c List.mem_cons_self
    obtain ⟨text, written, back⟩ := first.readsBack sound
    obtain ⟨texts, later, again, printable⟩ :=
      ih fun d member => readable d (List.mem_cons_of_mem c member)
    have spelled : ∀ s ∈ c.steps, Schema.isTypeName s.type.name = true := fun s inside =>
      sound.spelled s.type (first.2 s inside).1
    refine ⟨text :: texts, by rw [List.mapM_cons, written, later]; rfl, ?_, ?_⟩
    · rw [parseAll] at again ⊢
      rw [List.mapM_cons, back, again]
      rfl
    · rw [List.forall_mem_cons]
      exact ⟨text_printable spelled written, printable⟩

/-- Pattern strings that are all accepted are printed as the texts of their chains, whatever
follows them. -/
theorem printPatterns_parsed {patterns : List String}
    {chains : List (List Chain)} (parsed : parseAll schema patterns = .ok chains)
    {texts : List String} (written : chains.flatten.mapM Chain.text = .ok texts)
    (rest : List String) :
    printPatterns schema false (patterns ++ rest) =
      Printed.andThen ⟨page texts, none⟩ fun _ => printPatterns schema false rest := by
  induction patterns generalizing chains texts with
  | nil =>
    obtain rfl : [] = chains := by simpa [parseAll] using parsed
    obtain rfl : [] = texts := by simpa using written
    simp [page]
  | cons text patterns ih =>
    obtain ⟨first, one, others, later, rfl⟩ : ∃ first, parse schema text none = .ok first ∧
        ∃ others, parseAll schema patterns = .ok others ∧ first :: others = chains := by
      simpa [parseAll] using parsed
    rw [List.flatten_cons, List.mapM_append] at written
    obtain ⟨front, here, written⟩ := bind_eq_ok.mp written
    obtain ⟨back, there, same⟩ := bind_eq_ok.mp written
    obtain rfl := pure_eq_ok.mp same
    rw [List.cons_append, printPatterns, printPattern, one]
    simp only [Bool.false_eq_true, if_false, printChains_written here, andThen_printed,
      ih later there, page_append, String.append_assoc]

/-- Of pattern strings that are all accepted the command prints the texts of the chains, and it
prints the same for these texts. -/
theorem answer_parsed (loads : Loads contents schema file) {patterns : List String}
    {chains : List (List Chain)} (parsed : parseAll schema patterns = .ok chains) :
    ∃ texts, chains.flatten.mapM Chain.text = .ok texts ∧
      (∀ text ∈ texts, Printable text.toList) ∧
      answer contents (plainly file patterns) = ⟨page texts, none⟩ ∧
      answer contents (plainly file texts) = ⟨page texts, none⟩ := by
  obtain ⟨description, accepted⟩ := loads.accepted
  obtain ⟨texts, written, again, printable⟩ :=
    written_of_readable (Schema.ofDescription_sound accepted) (parseAll_readable parsed)
  have single : (chains.flatten.map ([·])).flatten = chains.flatten := by
    rw [← List.flatMap_def, List.flatMap_singleton']
  have alone {patterns : List String} {chains : List (List Chain)}
      (parsed : parseAll schema patterns = .ok chains)
      (written : chains.flatten.mapM Chain.text = .ok texts) :
      answer contents (plainly file patterns) = ⟨page texts, none⟩ := by
    have printed := printPatterns_parsed parsed written []
    rw [List.append_nil] at printed
    rw [answer_plainly loads, printed]
    simp [printPatterns]
  exact ⟨texts, written, printable, alone parsed written, alone again (single.symm ▸ written)⟩

/-- Of pattern strings the first of which that is refused is `text`, the command prints what it
prints for the ones before. -/
theorem answer_refused (loads : Loads contents schema file) {before : List String}
    {chains : List (List Chain)} (parsed : parseAll schema before = .ok chains) {text : String}
    {cause : PatternFault} (refused : parse schema text none = .error cause)
    (after : List String) :
    answer contents (plainly file (before ++ text :: after)) =
      ⟨(answer contents (plainly file before)).text, some (.pattern text cause)⟩ := by
  obtain ⟨texts, written, _, printed, _⟩ := answer_parsed loads parsed
  rw [printed, answer_plainly loads, printPatterns_parsed parsed written, printPatterns,
    printPattern, refused]
  simp [Printed.andThen]

/-- Over any schema that the command loads: if it succeeds, it prints a line of printable characters
for each chain, in the order of the pattern strings and their chains, and what it prints for these
lines is the same text again. If it fails, then at the first pattern string that is refused, and it
has printed just what it prints for the ones before. -/
theorem printed_lines_print_again (loads : Loads contents schema file) {patterns : List String}
    {printed : Printed} (asked : answer contents (plainly file patterns) = printed) :
    (printed.fault = none → ∃ chains, parseAll schema patterns = .ok chains ∧
      chains.flatten.mapM Chain.text = .ok (lines printed.text) ∧
      printed.text = page (lines printed.text) ∧
      (∀ line ∈ lines printed.text, ∀ c ∈ line.toList, 0x20 ≤ c.toNat ∧ c.toNat ≤ 0x7e) ∧
      answer contents (plainly file (lines printed.text)) = printed) ∧
    ∀ fault, printed.fault = some fault → ∃ before text after chains cause,
      patterns = before ++ text :: after ∧ parseAll schema before = .ok chains ∧
      parse schema text none = .error cause ∧ fault = .pattern text cause ∧
      answer contents (plainly file before) = ⟨printed.text, none⟩ := by
  cases parsed : parseAll schema patterns with
  | ok chains =>
    obtain ⟨texts, written, printable, first, second⟩ := answer_parsed loads parsed
    obtain rfl : ⟨page texts, none⟩ = printed := first.symm.trans asked
    have found : lines (page texts) = texts :=
      lines_page fun text member => (printable text member).one_line
    refine ⟨fun _ => ⟨chains, rfl, ?_⟩, fun fault failed => by cases failed⟩
    rw [found]
    exact ⟨written, rfl, fun line member c inside =>
      Pattern.isPrintable_iff.mp (printable line member c inside), second⟩
  | error cause =>
    obtain ⟨before, text, after, rfl, ⟨chains, done⟩, refused⟩ := error_of_mapM parsed
    obtain ⟨texts, _, _, alone, _⟩ := answer_parsed loads done
    have stopped := answer_refused loads done refused after
    rw [asked] at stopped
    subst stopped
    refine ⟨fun succeeded => (by cases succeeded), fun fault failed => ?_⟩
    obtain rfl := Option.some.inj failed
    exact ⟨before, text, after, chains, cause, rfl, done, refused, rfl, by rw [alone]⟩

/-- Over reports, with a field in quotes, and with a name that no type has. -/
theorem printed_lines_print_again_of_reports : ∃ reports first second,
    Loads (fun _ => .error .notFound) reports none ∧
    answer (fun _ => .error .notFound) (plainly none [">test[t]<*$", ">checkout[\"a b\" ]#"]) =
      first ∧
    lines first.text = [">test[t]<build<checkout<revision#", ">checkout[\"a b\"]#"] ∧
    answer (fun _ => .error .notFound) (plainly none (lines first.text)) = first ∧
    answer (fun _ => .error .notFound) (plainly none [">test#", ">bogus#", ">build#"]) = second ∧
    ∃ before text after cause, [">test#", ">bogus#", ">build#"] = before ++ text :: after ∧
      second.fault = some (.pattern text cause) ∧
      answer (fun _ => .error .notFound) (plainly none before) = ⟨second.text, none⟩ := by
  have run : (do
      let _ ← Report.schema.toOption
      let first := answer (fun _ => .error .notFound)
        (plainly none [">test[t]<*$", ">checkout[\"a b\" ]#"])
      let second := answer (fun _ => .error .notFound)
        (plainly none [">test#", ">bogus#", ">build#"])
      pure (first.fault.isNone, lines first.text, second.fault.isSome)) =
      some (true, [">test[t]<build<checkout<revision#", ">checkout[\"a b\"]#"], true) := by
    decide +kernel
  simp only [Option.bind_eq_bind, Option.pure_def, Option.bind_eq_some_iff, toOption_eq_some,
    Option.some.injEq, Prod.mk.injEq] at run
  obtain ⟨reports, accepted, succeeded, shown, failed⟩ := run
  have loads : Loads (fun _ => .error .notFound) reports none := accepted
  obtain ⟨fault, stopped⟩ := Option.isSome_iff_exists.mp failed
  obtain ⟨_, _, _, _, _, again⟩ :=
    (printed_lines_print_again loads rfl).1 (Option.isNone_iff_eq_none.mp succeeded)
  obtain ⟨before, text, after, _, cause, split, _, _, rfl, same⟩ :=
    (printed_lines_print_again loads rfl).2 fault stopped
  exact ⟨reports, _, _, loads, rfl, shown, again, rfl, before, text, after, cause, split, stopped,
    same⟩

end Command

end ObjectQuery

import ObjectQuery.Proofs.Pattern.FaultPosition
import ObjectQuery.Proofs.Pattern.WrittenText

/-! Pattern strings without their blanks. Blanks that do not stand in a quoted field may be left
out: each piece of a pattern keeps what it means, and no two pieces run into each other. -/
namespace ObjectQuery

open Outcome Pattern Grammar

/-- Where a character stands in a text with quoted fields. -/
inductive Quoting where
  | outside
  | inside
  | escaped
  deriving DecidableEq, Repr

namespace Quoting

/-- Where the character behind this one stands. -/
def next : Quoting → Char → Quoting
  | .outside, c => if c = '"' then .inside else .outside
  | .inside, c => if c = '"' then .outside else if c = '\\' then .escaped else .inside
  | .escaped, _ => .inside

/-- The text from here on without the blanks that stand outside quotes. -/
def squeeze (q : Quoting) : List Char → List Char
  | [] => []
  | c :: cs =>
    if q = .outside ∧ isBlank c then squeeze (q.next c) cs else c :: squeeze (q.next c) cs

theorem next_outside {c : Char} (noQuote : c ≠ '"') : outside.next c = .outside := by
  simp [next, noQuote]

theorem squeeze_append (q : Quoting) (as bs : List Char) :
    q.squeeze (as ++ bs) = q.squeeze as ++ (as.foldl next q).squeeze bs := by
  induction as generalizing q with
  | nil => rfl
  | cons c as ih =>
    simp only [List.cons_append, squeeze, List.foldl_cons]
    split
    · exact ih _
    · rw [ih, List.cons_append]

end Quoting

namespace Grammar

/-- A text with blanks and the same text without them, with all quotes closed behind it. -/
def Squeezes (cs ds : List Char) : Prop :=
  Quoting.squeeze .outside cs = ds ∧ cs.foldl Quoting.next .outside = .outside

namespace Squeezes

theorem nil : Squeezes [] [] := ⟨rfl, rfl⟩

theorem append {as as' bs bs' : List Char} (first : Squeezes as as') (second : Squeezes bs bs') :
    Squeezes (as ++ bs) (as' ++ bs') := by
  obtain ⟨rfl, closed⟩ := first
  obtain ⟨rfl, behind⟩ := second
  constructor
  · rw [Quoting.squeeze_append, closed]
  · rw [List.foldl_append, closed, behind]

theorem cons {c : Char} {cs ds : List Char} (visible : ¬ Whitespace c) (noQuote : c ≠ '"')
    (rest : Squeezes cs ds) : Squeezes (c :: cs) (c :: ds) := by
  have same := Quoting.next_outside noQuote
  obtain ⟨rfl, closed⟩ := rest
  constructor
  · simp [Quoting.squeeze, same, mt isBlank_iff.mp visible]
  · rw [List.foldl_cons, same, closed]

theorem gap {cs : List Char} (blank : Blanks cs) : Squeezes cs [] := by
  induction cs with
  | nil => exact nil
  | cons c cs ih =>
    obtain ⟨white, others⟩ := List.forall_mem_cons.mp blank
    obtain ⟨left, closed⟩ := ih others
    have noQuote : c ≠ '"' := by
      rintro rfl
      simp [Whitespace] at white
    have same := Quoting.next_outside noQuote
    constructor
    · simp [Quoting.squeeze, same, isBlank_iff.mpr white, left]
    · rw [List.foldl_cons, same, closed]

/-- Without blanks and quotes there is nothing to leave out. -/
theorem visible {cs : List Char} (each : ∀ c ∈ cs, ¬ Whitespace c ∧ c ≠ '"') :
    Squeezes cs cs := by
  induction cs with
  | nil => exact nil
  | cons c cs ih =>
    obtain ⟨first, others⟩ := List.forall_mem_cons.mp each
    exact cons first.1 first.2 (ih others)

end Squeezes

/-- Within quotes nothing is left out, not even behind a quote that is escaped. -/
theorem QuotedTokens.kept {cs value : List Char} (tokens : QuotedTokens cs value) :
    Quoting.squeeze .inside cs = cs ∧ cs.foldl Quoting.next .inside = .inside := by
  induction tokens with
  | none => exact ⟨rfl, rfl⟩
  | @plain c cs value plain _ ih =>
    obtain ⟨noQuote, noSlash⟩ := plain.not_escaped
    obtain ⟨same, still⟩ := ih
    have goesOn : Quoting.inside.next c = .inside := by simp [Quoting.next, noQuote, noSlash]
    constructor
    · simp [Quoting.squeeze, goesOn, same]
    · rw [List.foldl_cons, goesOn, still]
  | @escaped c cs value _ _ ih =>
    obtain ⟨same, still⟩ := ih
    have opens : Quoting.inside.next '\\' = .escaped := rfl
    have goesOn : Quoting.escaped.next c = .inside := rfl
    constructor
    · simp [Quoting.squeeze, opens, goesOn, same]
    · rw [List.foldl_cons, List.foldl_cons, opens, goesOn, still]

theorem FieldText.squeezes {cs value : List Char} (text : FieldText cs value) :
    Squeezes cs cs := by
  cases text with
  | unquoted _ bare =>
    apply Squeezes.visible
    intro c member
    have unquoted := bare c member
    constructor
    · exact fun blank => blank.not_unquoted unquoted
    · rintro rfl
      simp [UnquotedChar] at unquoted
  | @quoted cs value tokens =>
    obtain ⟨same, still⟩ := tokens.kept
    have opens : Quoting.outside.next '"' = .inside := rfl
    have closes : Quoting.inside.next '"' = .outside := rfl
    constructor
    · simp [Quoting.squeeze, Quoting.squeeze_append, opens, same, still, isBlank]
    · simp [opens, still, closes]

theorem Squeezes.join {cs ds rest rest' gap gap' : List Char} {c : Char}
    (separator : c = ',' ∨ c = ';') (first : Squeezes cs ds) (blank : Blanks gap)
    (blank' : Blanks gap') (later : Squeezes rest rest') :
    Squeezes (cs ++ gap ++ c :: gap' ++ rest) (ds ++ [] ++ c :: [] ++ rest') := by
  have between : Squeezes (c :: gap') [c] := by
    apply Squeezes.cons
    · rcases separator with rfl | rfl <;> simp [Whitespace]
    · rcases separator with rfl | rfl <;> simp
    · exact .gap blank'
  exact ((first.append (.gap blank)).append between).append later

theorem IdText.squeezes {cs : List Char} {id : Id} (text : IdText cs id) :
    ∃ ds, Squeezes cs ds ∧ IdText ds id := by
  induction text with
  | @single cs value text => exact ⟨cs, text.squeezes, .single text⟩
  | more text blank blank' _ ih =>
    obtain ⟨ds, squeezed, later⟩ := ih
    exact ⟨_, .join (.inl rfl) text.squeezes blank blank' squeezed, .more text .nil .nil later⟩

theorem IdListText.squeezes {cs : List Char} {ids : IdList} (text : IdListText cs ids) :
    ∃ ds, Squeezes cs ds ∧ IdListText ds ids := by
  induction text with
  | single text =>
    obtain ⟨ds, squeezed, text⟩ := text.squeezes
    exact ⟨ds, squeezed, .single text⟩
  | more text blank blank' _ ih =>
    obtain ⟨ds, first, text⟩ := text.squeezes
    obtain ⟨rest, squeezed, later⟩ := ih
    exact ⟨_, .join (.inr rfl) first blank blank' squeezed, .more text .nil .nil later⟩

theorem SpecText.squeezes {cs : List Char} {source : Source} (text : SpecText cs source) :
    ∃ ds, Squeezes cs ds ∧ SpecText ds source := by
  cases text with
  | placeholder => exact ⟨['%'], .visible (by simp [Whitespace]), .placeholder⟩
  | listed text =>
    obtain @⟨lead, list, trail, ids, before, text, behind⟩ := text
    obtain ⟨ds, squeezed, text⟩ := text.squeezes
    have inner : Squeezes (lead ++ list ++ trail) ([] ++ ds ++ []) :=
      ((Squeezes.gap before).append squeezed).append (.gap behind)
    have closing : Squeezes [']'] [']'] := .visible (by simp [Whitespace])
    refine ⟨_, ?_, .listed (.inner .nil text .nil)⟩
    exact (inner.append closing).cons (by simp [Whitespace]) (by simp)

theorem OptionalSpec.squeezes {cs : List Char} {source : Option Source}
    (text : OptionalSpec cs source) : ∃ ds, Squeezes cs ds ∧ OptionalSpec ds source := by
  cases text with
  | absent => exact ⟨[], .nil, .absent⟩
  | present blank text =>
    obtain ⟨ds, squeezed, text⟩ := text.squeezes
    exact ⟨_, (Squeezes.gap blank).append squeezed, .present .nil text⟩

theorem OptionalMatch.squeezes {cs : List Char} {scope : Scope} (text : OptionalMatch cs scope) :
    ∃ ds, Squeezes cs ds ∧ OptionalMatch ds scope := by
  cases text with
  | absent => exact ⟨[], .nil, .absent⟩
  | present blank text =>
    refine ⟨_, (Squeezes.gap blank).append (.visible ?_), .present .nil text⟩
    cases text <;> simp [Whitespace]

theorem RelationText.squeezes {cs : List Char} {down : Bool} (text : RelationText cs down) :
    Squeezes cs cs := by
  apply Squeezes.visible
  cases text <;> simp [Whitespace]

theorem TypeText.squeezes {cs : List Char} {target : Target} (text : TypeText cs target) :
    Squeezes cs cs := by
  apply Squeezes.visible
  cases text with
  | any => simp [Whitespace]
  | named _ names =>
    intro c member
    have name := names c member
    constructor
    · exact fun blank => blank.not_name name
    · rintro rfl
      simp [NameChar] at name

theorem BodyText.squeezes {cs : List Char} {c : Clause} (text : BodyText cs c) :
    ∃ ds, Squeezes cs ds ∧ BodyText ds c := by
  obtain ⟨relation, blank, type, spec, mark⟩ := text
  obtain ⟨spec', specSqueezed, spec⟩ := spec.squeezes
  obtain ⟨mark', markSqueezed, mark⟩ := mark.squeezes
  refine ⟨_, ?_, .body relation .nil type spec mark⟩
  have front := (relation.squeezes.append (.gap blank)).append type.squeezes
  exact (front.append specSqueezed).append markSqueezed

/-- Patterns remain patterns, with the same clauses. -/
theorem Patterns.squeezes {cs : List Char} {patterns : List Placed} (text : Patterns cs patterns) :
    ∃ ds others, Squeezes cs ds ∧ Patterns ds others ∧
      others.map Placed.clause = patterns.map Placed.clause := by
  induction text with
  | none blank => exact ⟨[], [], .gap blank, .none .nil, rfl⟩
  | @more p rest patterns valid _ ih =>
    obtain ⟨blank, body⟩ := valid
    obtain ⟨own, squeezed, body⟩ := body.squeezes
    obtain ⟨ds, others, restSqueezed, later, same⟩ := ih
    let q : Placed := ⟨[], own, p.clause⟩
    refine ⟨_, q :: others, ?_, .more (p := q) ⟨.nil, body⟩ later, ?_⟩
    · exact ((Squeezes.gap blank).append squeezed).append restSqueezed
    · rw [List.map_cons, List.map_cons, same]

theorem Derives.squeezes {text : String} {patterns : List Placed}
    (derives : Derives text patterns) :
    ∃ others, Derives (String.ofList (Quoting.squeeze .outside text.toList)) others ∧
      others.map Placed.clause = patterns.map Placed.clause := by
  rcases derives with ⟨rfl, rfl⟩ | ⟨valid, some⟩
  · exact ⟨[], .inl ⟨rfl, rfl⟩, rfl⟩
  · obtain ⟨ds, others, ⟨rfl, _⟩, valid, same⟩ := valid.squeezes
    refine ⟨others, .inr ⟨by rwa [String.toList_ofList], ?_⟩, same⟩
    rintro rfl
    exact some (List.map_eq_nil_iff.mp same.symm)

end Grammar

namespace Chain

theorem derives_of_parse {schema : Schema} {text : String} {lists : Option (List IdList)}
    {chains : List Chain} (done : parse schema text lists = .ok chains) :
    ∃ patterns, Derives text patterns := by
  by_cases empty : text = ""
  · exact ⟨[], .inl ⟨empty, rfl⟩⟩
  · obtain ⟨patterns, valid⟩ := derivable_of_parse done (by simpa using empty)
    exact ⟨patterns, .inr valid⟩

/-- What a text comes to, it also comes to without the blanks that stand outside quoted fields. -/
theorem parse_squeezed (schema : Schema) {text : String} {lists : Option (List IdList)}
    {chains : List Chain} (done : parse schema text lists = .ok chains) :
    parse schema (String.ofList (Quoting.squeeze .outside text.toList)) lists = .ok chains := by
  obtain ⟨patterns, derives⟩ := derives_of_parse done
  obtain ⟨others, squeezed, same⟩ := derives.squeezes
  rw [parse_eq_of_derives derives, evaluate_eq_ok] at done
  rw [parse_eq_of_derives squeezed, evaluate_eq_ok, same]
  exact done

/-- Blanks in all places where they may stand, and two within quotes, one of them behind an escaped
quote. -/
theorem parse_squeezed_of_reports : ∃ reports chains,
    Report.schema = .ok reports ∧
    parse reports "\t> checkout [ \"a \\\" ]\" ;\nb ] # \n> build % $ " (some [[[some "c d"]]]) =
      .ok chains ∧
    String.ofList (Quoting.squeeze .outside
      "\t> checkout [ \"a \\\" ]\" ;\nb ] # \n> build % $ ".toList) =
      ">checkout[\"a \\\" ]\";b]#>build%$" ∧
    parse reports ">checkout[\"a \\\" ]\";b]#>build%$" (some [[[some "c d"]]]) = .ok chains := by
  have run : (do
      let reports ← Report.schema.toOption
      let chains ← (parse reports "\t> checkout [ \"a \\\" ]\" ;\nb ] # \n> build % $ "
        (some [[[some "c d"]]])).toOption
      pure chains.length) = some 1 := by
    decide +kernel
  simp only [Option.bind_eq_bind, Option.pure_def, Option.bind_eq_some_iff, toOption_eq_some] at run
  obtain ⟨reports, accepted, chains, parsed, _⟩ := run
  have written : String.ofList (Quoting.squeeze .outside
      "\t> checkout [ \"a \\\" ]\" ;\nb ] # \n> build % $ ".toList) =
      ">checkout[\"a \\\" ]\";b]#>build%$" := by
    decide +kernel
  have squeezed := parse_squeezed reports parsed
  rw [written] at squeezed
  exact ⟨reports, chains, accepted, parsed, written, squeezed⟩

end Chain

end ObjectQuery

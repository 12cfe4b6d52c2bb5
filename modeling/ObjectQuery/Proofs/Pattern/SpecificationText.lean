import ObjectQuery.Proofs.Pattern.IdListText

/-! Specifications of pattern strings. A pattern of the grammar is taken from the start of a text
with all that belongs to it and with the blanks behind it, and whatever is taken is a pattern of
the grammar if its ID list can be read. -/
namespace ObjectQuery

open Outcome Pattern Grammar

namespace Bracket

/-- Where the last character of a text stands, if the text may stand in a list. -/
def run (p : Place) (cs : List Char) : Option Place := cs.foldlM Place.next? p

@[simp] theorem run_nil (p : Place) : run p [] = some p := rfl

@[simp] theorem run_cons (p : Place) (c : Char) (cs : List Char) :
    run p (c :: cs) = (p.next? c).bind fun q => run q cs := List.foldlM_cons

@[simp] theorem run_append (p : Place) (as bs : List Char) :
    run p (as ++ bs) = (run p as).bind fun q => run q bs := List.foldlM_append

theorem next?_bracket {p : Place} (closes : p.mayClose = true) : p.next? ']' = none := by
  cases p with
  | bare => rfl
  | behind => rfl
  | before => cases closes
  | quoted => cases closes
  | escaped => cases closes

/-- No character of a list closes the list, not even a bracket within quotes. -/
theorem close?_run {p q : Place} {cs : List Char} (ran : run p cs = some q) (rest : List Char) :
    close? p (cs ++ rest) = (close? q rest).map fun (inner, after) => (cs ++ inner, after) := by
  induction cs generalizing p with
  | nil =>
    obtain rfl := Option.some.inj ran
    simp
  | cons c cs ih =>
    obtain ⟨m, first, later⟩ := Option.bind_eq_some_iff.mp ((run_cons p c cs).symm.trans ran)
    have goesOn : ¬ (c = ']' ∧ p.mayClose = true) := by
      rintro ⟨rfl, closes⟩
      rw [next?_bracket closes] at first
      cases first
    rw [List.cons_append, close?, if_neg goesOn, first, Option.bind_some, ih later, Option.map_map]
    rfl

theorem run_lead {gap : List Char} (blank : Blanks gap) : run .before gap = some .before := by
  induction gap with
  | nil => rfl
  | cons c gap ih =>
    have first := isBlank_iff.mpr (blank c List.mem_cons_self)
    have later := ih fun d member => blank d (List.mem_cons_of_mem c member)
    simp [Place.next?, first, later]

theorem separated_blank {c : Char} (blank : Whitespace c) :
    Place.separated c = some .behind := by
  have noComma : c ≠ ',' := by rintro rfl; simp [Whitespace] at blank
  have noSemicolon : c ≠ ';' := by rintro rfl; simp [Whitespace] at blank
  simp [Place.separated, noComma, noSemicolon, isBlank_iff.mpr blank]

theorem next?_closing {p : Place} (closes : p.mayClose = true) {c : Char}
    (other : ¬ UnquotedChar c) : p.next? c = Place.separated c := by
  have noBare : isBare c = false := by simpa using mt isBare_iff.mp other
  cases p with
  | bare => simp [Place.next?, noBare]
  | behind => rfl
  | before => cases closes
  | quoted => cases closes
  | escaped => cases closes

theorem run_trail {p : Place} (closes : p.mayClose = true) {gap : List Char}
    (blank : Blanks gap) : ∃ q, q.mayClose = true ∧ run p gap = some q := by
  induction gap generalizing p with
  | nil => exact ⟨p, closes, rfl⟩
  | cons c gap ih =>
    have white := blank c List.mem_cons_self
    obtain ⟨q, last, later⟩ := ih (p := .behind) rfl
      fun d member => blank d (List.mem_cons_of_mem c member)
    exact ⟨q, last, by
      rw [run_cons, next?_closing closes white.not_unquoted, separated_blank white]; exact later⟩

theorem run_separator {p : Place} (closes : p.mayClose = true) {c : Char}
    (separator : c = ',' ∨ c = ';') {gap gap' : List Char} (blank : Blanks gap)
    (blank' : Blanks gap') :
    run p (gap ++ c :: gap') = some .before := by
  obtain ⟨q, still, ran⟩ := run_trail closes blank
  have other := separator_not_unquoted separator
  have next : Place.separated c = some .before := if_pos separator
  simp [ran, next?_closing still other, next, run_lead blank']

theorem run_tokens {cs field : List Char} (tokens : QuotedTokens cs field) :
    run .quoted cs = some .quoted := by
  induction tokens with
  | none => rfl
  | @plain c cs field plain _ ih =>
    obtain ⟨noQuote, noSlash⟩ := plain.not_escaped
    simp [Place.next?, noQuote, noSlash, isPlain_iff.mpr plain, ih]
  | @escaped c cs field escaped _ ih =>
    simp [Place.next?, isEscaped_iff.mpr escaped, ih]

theorem run_bare {cs : List Char} (bare : ∀ c ∈ cs, UnquotedChar c) :
    run .bare cs = some .bare := by
  induction cs with
  | nil => rfl
  | cons c cs ih =>
    have first := isBare_iff.mpr (bare c List.mem_cons_self)
    have later := ih fun d member => bare d (List.mem_cons_of_mem c member)
    simp [Place.next?, first, later]

/-- A list may end behind this text. -/
def Closable (cs : List Char) : Prop := ∃ q, q.mayClose = true ∧ run .before cs = some q

theorem Closable.field {cs field : List Char} (text : FieldText cs field) : Closable cs := by
  cases text with
  | quoted tokens =>
    have opens : Place.next? .before '"' = some .quoted := rfl
    have closes : Place.next? .quoted '"' = some .behind := rfl
    exact ⟨.behind, rfl, by simp [opens, closes, run_tokens tokens]⟩
  | unquoted some bare =>
    cases cs with
    | nil => contradiction
    | cons c cs =>
      have unquoted := bare c List.mem_cons_self
      have noBlank : isBlank c = false := by
        simpa using fun blank => (isBlank_iff.mp blank).not_unquoted unquoted
      have later := run_bare fun d member => bare d (List.mem_cons_of_mem c member)
      exact ⟨.bare, rfl, by simp [Place.next?, noBlank, isBare_iff.mpr unquoted, later]⟩

theorem Closable.join {cs gap gap' rest : List Char} {c : Char} (first : Closable cs)
    (separator : c = ',' ∨ c = ';') (blank : Blanks gap) (blank' : Blanks gap')
    (later : Closable rest) : Closable (cs ++ gap ++ c :: gap' ++ rest) := by
  obtain ⟨p, closes, ran⟩ := first
  obtain ⟨q, last, goesOn⟩ := later
  have between := run_separator closes separator blank blank'
  refine ⟨q, last, ?_⟩
  rw [List.append_assoc cs, List.append_assoc cs, run_append, ran, Option.bind_some, run_append,
    between, Option.bind_some, goesOn]

theorem Closable.id {cs : List Char} {id : Id} (text : IdText cs id) : Closable cs := by
  induction text with
  | single field => exact .field field
  | more field blank blank' _ ih => exact (Closable.field field).join (.inl rfl) blank blank' ih

theorem Closable.list {cs : List Char} {ids : IdList} (text : IdListText cs ids) :
    Closable cs := by
  induction text with
  | single id => exact .id id
  | more id blank blank' _ ih => exact (Closable.id id).join (.inr rfl) blank blank' ih

theorem Closable.inner {inner : List Char} {ids : IdList} (text : InnerText inner ids) :
    Closable inner := by
  obtain ⟨lead, list, trail⟩ := text
  obtain ⟨p, closes, ran⟩ := Closable.list list
  obtain ⟨q, last, ended⟩ := run_trail closes trail
  exact ⟨q, last, by simp [run_lead lead, ran, ended]⟩

/-- The first bracket that may close the list is the one behind it. -/
theorem close?_complete {inner : List Char} {ids : IdList} (text : InnerText inner ids)
    (after : List Char) : close? .before (inner ++ ']' :: after) = some (inner, after) := by
  obtain ⟨q, closes, ran⟩ := Closable.inner text
  have ended : close? q (']' :: after) = some ([], after) := by simp [close?, closes]
  simp [close?_run ran, ended]

end Bracket

namespace Grammar

/-- The first character behind the blanks, if there is one, is one of these. -/
def Follows (marks : List Char) (cs : List Char) : Prop := ∀ c ∈ (skipBlanks cs).head?, c ∈ marks

theorem Follows.visible {marks : List Char} {c : Char} (member : c ∈ marks)
    (visible : ¬ Whitespace c) (cs : List Char) : Follows marks (c :: cs) := by
  rw [Follows, skipBlanks_cons visible]
  simpa using member

theorem Follows.gap {marks gap cs : List Char} (blank : Blanks gap) (follows : Follows marks cs) :
    Follows marks (gap ++ cs) := by
  rwa [Follows, skipBlanks_append blank]

theorem Follows.mono {marks others cs : List Char} (follows : Follows marks cs)
    (fewer : marks ⊆ others) : Follows others cs := fun c first => fewer (follows c first)

/-- None of these characters stands at the start, blanks included. -/
theorem Follows.head {marks cs : List Char} (follows : Follows marks cs) :
    ∀ c ∈ cs.head?, Whitespace c ∨ c ∈ marks := by
  intro c first
  by_cases blank : Whitespace c
  · exact .inl blank
  · cases cs with
    | nil => cases first
    | cons d cs =>
      obtain rfl := Option.some.inj first
      exact .inr (follows d (by rw [skipBlanks_cons blank]; rfl))

theorem Follows.not_name {marks cs : List Char} (follows : Follows marks cs)
    (others : ∀ c ∈ marks, ¬ NameChar c) : ∀ c ∈ cs.head?, ¬ NameChar c := by
  intro c first name
  rcases follows.head c first with white | member
  · exact white.not_name name
  · exact others c member name

theorem OptionalMatch.follows {mark tail : List Char} {scope : Scope}
    (text : OptionalMatch mark scope) (behind : Follows ['>', '<'] tail) :
    Follows ['>', '<', '#', '$'] (mark ++ tail) := by
  cases text with
  | absent => exact behind.mono (by simp)
  | present blank mark =>
    rw [List.append_assoc]
    cases mark with
    | all => exact .gap blank (.visible (by simp) (by simp [Whitespace]) _)
    | furthest => exact .gap blank (.visible (by simp) (by simp [Whitespace]) _)

theorem OptionalSpec.follows {spec tail : List Char} {source : Option Source}
    (text : OptionalSpec spec source) (behind : Follows ['>', '<', '#', '$'] tail) :
    Follows ['>', '<', '#', '$', '%', '['] (spec ++ tail) := by
  cases text with
  | absent => exact behind.mono (by simp)
  | present blank spec =>
    rw [List.append_assoc]
    cases spec with
    | placeholder => exact .gap blank (.visible (by simp) (by simp [Whitespace]) _)
    | listed => exact .gap blank (.visible (by simp) (by simp [Whitespace]) _)

theorem BodyText.follows {body : List Char} {c : Clause} (text : BodyText body c)
    (tail : List Char) : Follows ['>', '<'] (body ++ tail) := by
  obtain ⟨relation, _, _, _, _⟩ := text
  cases relation with
  | children => exact .visible (by simp) (by simp [Whitespace]) _
  | parents => exact .visible (by simp) (by simp [Whitespace]) _

theorem BodyText.skipBlanks {body : List Char} {c : Clause} (text : BodyText body c)
    (tail : List Char) : skipBlanks (body ++ tail) = body ++ tail := by
  obtain ⟨relation, _, _, _, _⟩ := text
  cases relation with
  | children => exact skipBlanks_cons (by simp [Whitespace]) _
  | parents => exact skipBlanks_cons (by simp [Whitespace]) _

theorem Patterns.follows {cs : List Char} {patterns : List Placed} (text : Patterns cs patterns) :
    Follows ['>', '<'] cs := by
  cases text with
  | none blank => simp [Follows, skipBlanks_blanks blank]
  | more valid =>
    rw [List.append_assoc]
    exact .gap valid.1 (valid.2.follows _)

end Grammar

/-- An ID source is the one of a clause. -/
inductive IdSource.Means : IdSource → Option Source → Prop
  | absent : Means .absent none
  | placeholder : Means .placeholder (some .placeholder)
  | inline {inner : List Char} {ids : IdList} : IdList.read inner = .ok ids →
      Means (.inline inner) (some (.listed ids))

/-- A specification says what a clause says. -/
structure Specification.Means (s : Specification) (c : Clause) : Prop where
  down : s.down = c.down
  target : s.target = c.target
  ids : s.ids.Means c.source
  scope : s.scope = c.scope

namespace IdSource

theorem read_other {cs : List Char} (other : ∀ c ∈ cs.head?, c ≠ '%' ∧ c ≠ '[') :
    read cs = (.absent, cs) := by
  unfold read
  split
  · exact absurd rfl (other '%' rfl).1
  · exact absurd rfl (other '[' rfl).2
  · rfl

theorem read_complete {spec tail : List Char} {source : Option Source}
    (text : OptionalSpec spec source) (behind : Follows ['>', '<', '#', '$'] tail) :
    (read (skipBlanks (spec ++ tail))).1.Means source ∧
      skipBlanks (read (skipBlanks (spec ++ tail))).2 = skipBlanks tail := by
  cases text with
  | absent =>
    have other : ∀ c ∈ (skipBlanks tail).head?, c ≠ '%' ∧ c ≠ '[' := by
      intro c first
      have member := behind c first
      constructor <;> (rintro rfl; simp at member)
    rw [List.nil_append, read_other other, skipBlanks_skipBlanks]
    exact ⟨.absent, rfl⟩
  | @present gap cs source blank spec =>
    rw [List.append_assoc, skipBlanks_append blank]
    cases spec with
    | placeholder =>
      rw [List.singleton_append, skipBlanks_cons (by simp [Whitespace])]
      exact ⟨.placeholder, rfl⟩
    | @listed inner ids text =>
      have shape : '[' :: inner ++ [']'] ++ tail = '[' :: (inner ++ ']' :: tail) := by simp
      rw [shape, skipBlanks_cons (by simp [Whitespace]), read,
        Bracket.close?_complete text tail]
      exact ⟨.inline (IdList.read_complete text), rfl⟩

theorem text_sound {ids : IdSource} {source : Option Source} (means : ids.Means source)
    {gap : List Char} (blank : Blanks gap) :
    ∃ spec left, OptionalSpec spec source ∧ Blanks left ∧ gap ++ ids.text = spec ++ left := by
  cases means with
  | absent => exact ⟨[], gap, .absent, blank, by simp [text]⟩
  | placeholder =>
    exact ⟨gap ++ ['%'], [], .present blank .placeholder, .nil, by simp [text]⟩
  | @inline inner ids read =>
    exact ⟨gap ++ ('[' :: inner ++ [']']), [], .present blank (.listed (IdList.read_sound read)),
      .nil, by simp [text]⟩

end IdSource

namespace Specification

theorem relation?_complete {relation : List Char} {down : Bool} (text : RelationText relation down)
    (rest : List Char) : relation? (skipBlanks (relation ++ rest)) = some (down, rest) := by
  cases text with
  | children =>
    rw [List.singleton_append, skipBlanks_cons (by simp [Whitespace])]
    rfl
  | parents =>
    rw [List.singleton_append, skipBlanks_cons (by simp [Whitespace])]
    rfl

/-- The relation of a pattern is taken from the start of a text, with the blanks before it. -/
theorem relation?_body {lead relation : List Char} {down : Bool} (blank : Blanks lead)
    (text : RelationText relation down) (gap type spec mark tail : List Char) :
    relation? (skipBlanks (lead ++ (relation ++ gap ++ type ++ spec ++ mark) ++ tail)) =
      some (down, gap ++ (type ++ (spec ++ (mark ++ tail)))) := by
  have shape : lead ++ (relation ++ gap ++ type ++ spec ++ mark) ++ tail =
    lead ++ (relation ++ (gap ++ (type ++ (spec ++ (mark ++ tail))))) := by simp
  rw [shape, skipBlanks_append blank]
  exact relation?_complete text _

theorem type?_complete {type rest : List Char} {target : Target} (text : TypeText type target)
    (stop : ∀ c ∈ rest.head?, ¬ NameChar c) :
    type? (skipBlanks (type ++ rest)) = some (type, rest) ∧
      Target.ofText (String.ofList type) = target := by
  cases text with
  | any =>
    rw [List.singleton_append, skipBlanks_cons (by simp [Whitespace])]
    exact ⟨rfl, rfl⟩
  | named some names =>
    cases type with
    | nil => contradiction
    | cons c type =>
      have name := names c List.mem_cons_self
      have visible : ¬ Whitespace c := fun blank => blank.not_name name
      have noStar : c ≠ '*' := by rintro rfl; simp [NameChar] at name
      have noAny : String.ofList (c :: type) ≠ "*" := by
        intro same
        have first := congrArg String.toList same
        simp [noStar] at first
      obtain ⟨taken, dropped⟩ := span_append
        (fun d member => isNameChar_iff.mpr (names d (List.mem_cons_of_mem c member)))
        fun d (follows : d ∈ rest.head?) => mt isNameChar_iff.mp (stop d follows)
      rw [List.cons_append, skipBlanks_cons visible, type?, if_neg noStar,
        if_pos (isNameChar_iff.mpr name), taken, dropped]
      exact ⟨rfl, if_neg noAny⟩

theorem mark?_other {cs : List Char} (other : ∀ c ∈ cs.head?, c ≠ '#' ∧ c ≠ '$') :
    mark? cs = (none, cs) := by
  cases cs with
  | nil => rfl
  | cons c cs => simp [mark?, other c rfl]

theorem mark?_complete {mark tail : List Char} {scope : Scope} (text : OptionalMatch mark scope)
    (behind : Follows ['>', '<'] tail) :
    Scope.ofMark ((mark? (skipBlanks (mark ++ tail))).1.map String.singleton) = scope ∧
      skipBlanks (mark? (skipBlanks (mark ++ tail))).2 = skipBlanks tail := by
  cases text with
  | absent =>
    have other : ∀ c ∈ (skipBlanks tail).head?, c ≠ '#' ∧ c ≠ '$' := by
      intro c first
      have member := behind c first
      constructor <;> (rintro rfl; simp at member)
    rw [List.nil_append, mark?_other other, skipBlanks_skipBlanks]
    exact ⟨rfl, rfl⟩
  | present blank mark =>
    rw [List.append_assoc, skipBlanks_append blank]
    cases mark with
    | all =>
      rw [List.singleton_append, skipBlanks_cons (by simp [Whitespace])]
      exact ⟨rfl, rfl⟩
    | furthest =>
      rw [List.singleton_append, skipBlanks_cons (by simp [Whitespace])]
      exact ⟨rfl, rfl⟩

theorem read?_eq {cs afterRelation type afterType : List Char} {down : Bool}
    (related : relation? (skipBlanks cs) = some (down, afterRelation))
    (typed : type? (skipBlanks afterRelation) = some (type, afterType)) :
    let source := IdSource.read (skipBlanks afterType)
    let marked := mark? (skipBlanks source.2)
    read? cs = some (⟨blanks cs, down, blanks afterRelation, type, blanks afterType, source.1,
      blanks source.2, marked.1, blanks marked.2⟩, skipBlanks marked.2) := by
  simp [read?, related, typed]

theorem blanks_append {gap rest : List Char} (blank : Blanks gap)
    (visible : skipBlanks rest = rest) : blanks (gap ++ rest) = gap := by
  have whole := blanks_skipBlanks (gap ++ rest)
  rw [skipBlanks_append blank, visible] at whole
  exact List.append_cancel_right whole

theorem text_of_read? {front tail : List Char} {s : Specification}
    (done : read? (front ++ tail) = some (s, skipBlanks tail)) : s.text = front ++ blanks tail := by
  have whole : s.text ++ skipBlanks tail = front ++ blanks tail ++ skipBlanks tail := by
    rw [read?_text done, List.append_assoc, blanks_skipBlanks]
  exact List.append_cancel_right whole

/-- A pattern is taken from the start of a text, with the blanks around it. -/
theorem read?_complete {lead body tail : List Char} {c : Clause} (blank : Blanks lead)
    (text : BodyText body c) (behind : Follows ['>', '<'] tail) :
    ∃ s, read? (lead ++ body ++ tail) = some (s, skipBlanks tail) ∧ s.Means c ∧
      s.text = lead ++ body ++ blanks tail := by
  cases text with
  | @body relation gap type spec mark down target source scope relationText gapBlank typeText
      specText markText =>
    have behindSpec := markText.follows behind
    have related := relation?_body blank relationText gap type spec mark tail
    obtain ⟨typed, means⟩ := type?_complete typeText
      ((specText.follows behindSpec).not_name (by simp [← isNameChar_iff]; decide))
    rw [← skipBlanks_append gapBlank] at typed
    obtain ⟨sourceMeans, afterSpec⟩ := IdSource.read_complete specText behindSpec
    obtain ⟨scopeMeans, afterMark⟩ := mark?_complete markText behind
    rw [← afterSpec] at scopeMeans afterMark
    have taken := read?_eq related typed
    dsimp only at taken
    rw [afterMark] at taken
    exact ⟨_, taken, ⟨rfl, means, sourceMeans, scopeMeans⟩, text_of_read? taken⟩

theorem readAll_none {cs : List Char} (missing : read? cs = none) : readAll cs = ([], cs) := by
  rw [readAll]
  split <;> simp_all

theorem readAll_some {cs rest : List Char} {s : Specification}
    (found : read? cs = some (s, rest)) :
    readAll cs = (s :: (readAll rest).1, (readAll rest).2) := by
  rw [readAll]
  split <;> simp_all

/-- What stands between the pieces of a specification, and what its type and mark are. -/
structure Spaced (s : Specification) : Prop where
  lead : Blanks s.lead
  typeGap : Blanks s.typeGap
  type : TypeText s.type s.target
  idsGap : Blanks s.idsGap
  markGap : Blanks s.markGap
  mark : ∀ c ∈ s.mark, c = '#' ∨ c = '$'
  trail : Blanks s.trail

theorem blanks_blanks (cs : List Char) : Blanks (blanks cs) := fun c member =>
  isBlank_iff.mp (List.all_eq_true.mp List.all_takeWhile c member)

theorem type?_sound {cs type rest : List Char} (done : type? cs = some (type, rest)) :
    TypeText type (Target.ofText (String.ofList type)) := by
  cases cs with
  | nil => cases done
  | cons c cs =>
    rw [type?] at done
    split at done
    · obtain ⟨rfl, rfl⟩ := Prod.mk.inj (Option.some.inj done)
      exact .any
    · next noStar =>
      split at done
      · next name =>
        obtain ⟨rfl, rfl⟩ := Prod.mk.inj (Option.some.inj done)
        have noAny : String.ofList (c :: cs.takeWhile Schema.isNameChar) ≠ "*" := by
          intro same
          have first := congrArg String.toList same
          simp [noStar] at first
        rw [Target.ofText, if_neg noAny]
        refine .named (by simp) ?_
        intro d member
        rcases List.mem_cons.mp member with rfl | member
        · exact isNameChar_iff.mp name
        · exact isNameChar_iff.mp (List.all_eq_true.mp List.all_takeWhile d member)
      · cases done

theorem mark?_sound (cs : List Char) : ∀ c ∈ (mark? cs).1, c = '#' ∨ c = '$' := by
  fun_cases mark? cs with
  | case1 => simp
  | case2 c rest mark => simpa using mark
  | case3 => simp

theorem read?_spaced {cs rest : List Char} {s : Specification} (done : read? cs = some (s, rest)) :
    s.Spaced := by
  obtain ⟨⟨down, afterRelation⟩, related, done⟩ := Option.bind_eq_some_iff.mp done
  obtain ⟨⟨type, afterType⟩, typed, done⟩ := Option.map_eq_some_iff.mp done
  obtain ⟨rfl, rfl⟩ := Prod.mk.inj done
  exact ⟨blanks_blanks _, blanks_blanks _, type?_sound typed, blanks_blanks _, blanks_blanks _,
    mark?_sound _, blanks_blanks _⟩

theorem relation_text (s : Specification) : RelationText [s.relation] s.down := by
  unfold relation
  split
  · next down => exact down ▸ .children
  · next up => exact (Bool.eq_false_iff.mpr up) ▸ .parents

theorem mark_text {mark : Option Char} (marks : ∀ c ∈ mark, c = '#' ∨ c = '$') {gap : List Char}
    (blank : Blanks gap) :
    ∃ text left, OptionalMatch text (Scope.ofMark (mark.map String.singleton)) ∧ Blanks left ∧
      gap ++ mark.toList = text ++ left := by
  cases mark with
  | none => exact ⟨[], gap, .absent, blank, by simp⟩
  | some c =>
    rcases marks c rfl with rfl | rfl
    · exact ⟨gap ++ ['#'], [], .present blank .all, .nil, by simp⟩
    · exact ⟨gap ++ ['$'], [], .present blank .furthest, .nil, by simp⟩

/-- A specification whose ID list can be read is a pattern with blanks around it. -/
theorem Spaced.body {s : Specification} (spaced : s.Spaced) {c : Clause} (means : s.Means c) :
    ∃ body trail, BodyText body c ∧ Blanks trail ∧ s.text = s.lead ++ body ++ trail := by
  obtain ⟨down, target, source, scope⟩ := c
  obtain ⟨rfl, rfl, ids, rfl⟩ := means
  obtain ⟨spec, gap, specText, gapBlank, specSplit⟩ := IdSource.text_sound ids spaced.idsGap
  obtain ⟨mark, left, markText, leftBlank, markSplit⟩ := mark_text spaced.mark
    (gapBlank.append spaced.markGap)
  refine ⟨[s.relation] ++ s.typeGap ++ s.type ++ spec ++ mark, left ++ s.trail,
    .body s.relation_text spaced.typeGap spaced.type specText markText,
    leftBlank.append spaced.trail, ?_⟩
  calc s.text = s.lead ++ [s.relation] ++ s.typeGap ++ s.type ++ (s.idsGap ++ s.ids.text) ++
        s.markGap ++ s.mark.toList ++ s.trail := by simp [text]
    _ = s.lead ++ [s.relation] ++ s.typeGap ++ s.type ++ spec ++
        (gap ++ s.markGap ++ s.mark.toList) ++ s.trail := by rw [specSplit]; simp
    _ = s.lead ++ ([s.relation] ++ s.typeGap ++ s.type ++ spec ++ mark) ++ (left ++ s.trail) := by
      rw [markSplit]; simp

end Specification

end ObjectQuery

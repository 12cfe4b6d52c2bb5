import ObjectQuery.Proofs.Outcome
import ObjectQuery.Proofs.Pattern.Grammar

/-! ID lists in pattern strings. A text is read as an ID list exactly if it belongs to the grammar,
and it is read as what it means there. -/
namespace ObjectQuery

open Outcome Pattern Grammar

namespace Grammar

theorem char_le_iff {a b : Char} : a ≤ b ↔ a.toNat ≤ b.toNat := by
  rw [Char.le_def, UInt32.le_iff_toNat_le]; rfl

theorem char_eq_iff {a b : Char} : a = b ↔ a.toNat = b.toNat := Char.toNat_inj.symm

theorem isBlank_iff {c : Char} : isBlank c = true ↔ Whitespace c := by
  simp [isBlank, Whitespace, char_le_iff, char_eq_iff]

theorem isBare_iff {c : Char} : isBare c = true ↔ UnquotedChar c := by
  simp only [isBare, UnquotedChar, char_le_iff, Bool.or_eq_true, Bool.and_eq_true,
    decide_eq_true_eq, List.contains_iff_mem, or_assoc]
  rfl

theorem isEscaped_iff {c : Char} : isEscaped c = true ↔ EscapedChar c := by
  simp [isEscaped, EscapedChar, char_eq_iff]

theorem isPlain_iff {c : Char} : isPlain c = true ↔ PlainChar c := by
  simp [isPlain, isPrintable, isEscaped, PlainChar, char_le_iff, char_eq_iff]
  omega

theorem isNameChar_iff {c : Char} : Schema.isNameChar c = true ↔ NameChar c := by
  simp [Schema.isNameChar, NameChar, char_le_iff]
  grind

theorem isTypeName_iff {name : String} :
    Schema.isTypeName name = true ↔ name ≠ "" ∧ ∀ c ∈ name.toList, NameChar c := by
  simp [Schema.isTypeName, isNameChar_iff]

theorem Whitespace.not_unquoted {c : Char} (blank : Whitespace c) : ¬ UnquotedChar c := by
  rw [← isBare_iff]
  simp only [Whitespace] at blank
  simp [isBare, char_le_iff, char_eq_iff]
  omega

theorem Whitespace.not_name {c : Char} (blank : Whitespace c) : ¬ NameChar c := by
  simp only [Whitespace] at blank
  simp [NameChar, char_eq_iff]
  omega

theorem PlainChar.not_escaped {c : Char} (plain : PlainChar c) : c ≠ '"' ∧ c ≠ '\\' := by
  constructor <;> (rintro rfl; simp [PlainChar] at plain)

theorem Blanks.nil : Blanks [] := by simp [Blanks]

theorem Blanks.space : Blanks [' '] := by simp [Blanks, Whitespace]

theorem Blanks.append {gap gap' : List Char} (blank : Blanks gap) (blank' : Blanks gap') :
    Blanks (gap ++ gap') := fun c member =>
  (List.mem_append.mp member).elim (blank c) (blank' c)

end Grammar

/-- A run of characters of one kind ends where a character of another kind follows. -/
theorem span_append {kind : Char → Bool} {cs rest : List Char} (all : ∀ c ∈ cs, kind c = true)
    (stop : ∀ c ∈ rest.head?, ¬ kind c = true) :
    (cs ++ rest).takeWhile kind = cs ∧ (cs ++ rest).dropWhile kind = rest := by
  rw [List.takeWhile_append_of_pos all, List.dropWhile_append_of_pos all]
  cases rest with
  | nil => simp
  | cons c rest => simp [stop c rfl]

theorem skipBlanks_append {gap : List Char} (blank : Blanks gap) (cs : List Char) :
    skipBlanks (gap ++ cs) = skipBlanks cs :=
  List.dropWhile_append_of_pos fun c member => isBlank_iff.mpr (blank c member)

theorem skipBlanks_blanks {gap : List Char} (blank : Blanks gap) : skipBlanks gap = [] := by
  simpa [skipBlanks] using skipBlanks_append blank []

theorem skipBlanks_cons {c : Char} (visible : ¬ Whitespace c) (cs : List Char) :
    skipBlanks (c :: cs) = c :: cs :=
  List.dropWhile_cons_of_neg (mt isBlank_iff.mp visible)

theorem exists_blanks (cs : List Char) : ∃ gap, Blanks gap ∧ cs = gap ++ skipBlanks cs :=
  ⟨cs.takeWhile isBlank,
    fun c member => isBlank_iff.mp (List.all_eq_true.mp List.all_takeWhile c member),
    List.takeWhile_append_dropWhile.symm⟩

theorem skipBlanks_skipBlanks (cs : List Char) : skipBlanks (skipBlanks cs) = skipBlanks cs := by
  obtain ⟨gap, blank, split⟩ := exists_blanks cs
  have same := congrArg skipBlanks split
  rw [skipBlanks_append blank] at same
  exact same.symm

theorem blanks_of_skipBlanks {cs : List Char} (ended : skipBlanks cs = []) : Blanks cs := by
  obtain ⟨gap, blank, split⟩ := exists_blanks cs
  rw [ended, List.append_nil] at split
  rwa [split]

namespace IdField

theorem readQuoted_complete {cs field : List Char} (tokens : QuotedTokens cs field)
    (rest : List Char) :
    ∃ r, readQuoted (cs ++ '"' :: rest) = .ok r ∧ r.field = field ∧ r.rest = rest := by
  induction tokens with
  | none => exact ⟨_, rfl, rfl, rfl⟩
  | @plain c cs field plain _ ih =>
    obtain ⟨r, read, same, left⟩ := ih
    obtain ⟨noQuote, noSlash⟩ := plain.not_escaped
    simp [readQuoted, noSlash, isPlain_iff.mpr plain, read, same, left]
  | @escaped c cs field escaped _ ih =>
    obtain ⟨r, read, same, left⟩ := ih
    simp [readQuoted, isEscaped_iff.mpr escaped, read, same, left]

theorem readQuoted_sound {cs : List Char} {r : Read cs} (done : readQuoted cs = .ok r) :
    ∃ text, QuotedTokens text r.field ∧ cs = text ++ '"' :: r.rest := by
  fun_induction readQuoted cs with
  | case1 => cases done
  | case2 => cases done
  | case3 rest =>
    obtain rfl := Except.ok.inj done
    exact ⟨[], .none, rfl⟩
  | case4 c rest escaped ih =>
    obtain ⟨later, read, rfl⟩ := exceptMap_eq_ok.mp done
    obtain ⟨text, tokens, split⟩ := ih read
    exact ⟨'\\' :: c :: text, .escaped (isEscaped_iff.mp escaped) tokens,
      congrArg (fun rest => '\\' :: c :: rest) split⟩
  | case5 => cases done
  | case6 c rest _ _ _ plain ih =>
    obtain ⟨later, read, rfl⟩ := exceptMap_eq_ok.mp done
    obtain ⟨text, tokens, split⟩ := ih read
    exact ⟨c :: text, .plain (isPlain_iff.mp plain) tokens, congrArg (List.cons c) split⟩
  | case7 => cases done

/-- A bare field ends where a character follows that may not stand in it. -/
theorem read_complete {cs field rest : List Char} (text : FieldText cs field)
    (stop : ∀ c ∈ rest.head?, ¬ UnquotedChar c) :
    ∃ r, read (cs ++ rest) = .ok r ∧ r.field = field ∧ r.rest = rest := by
  cases text with
  | @quoted cs field tokens =>
    obtain ⟨r, read, same, left⟩ := readQuoted_complete tokens rest
    have shape : '"' :: cs ++ ['"'] ++ rest = '"' :: (cs ++ '"' :: rest) := by simp
    rw [shape]
    simp [IdField.read, read, same, left]
  | unquoted some bare =>
    cases cs with
    | nil => contradiction
    | cons c cs =>
      have first : isBare c = true := isBare_iff.mpr (bare c List.mem_cons_self)
      have others : ∀ d ∈ cs, isBare d = true := fun d member =>
        isBare_iff.mpr (bare d (List.mem_cons_of_mem c member))
      have noQuote : c ≠ '"' := by rintro rfl; revert first; decide
      obtain ⟨taken, dropped⟩ :=
        span_append others fun d follows => mt isBare_iff.mp (stop d follows)
      simp [IdField.read, readBare, noQuote, first, taken, dropped]

theorem readBare_sound {cs : List Char} {r : Read cs} (done : readBare cs = .ok r) :
    ∃ text, FieldText text r.field ∧ cs = text ++ r.rest := by
  fun_cases readBare cs with
  | case1 => cases done
  | case2 c rest bare =>
    simp only [readBare, if_pos bare] at done
    obtain rfl := Except.ok.inj done
    refine ⟨c :: rest.takeWhile isBare, .unquoted (by simp) ?_, by simp⟩
    intro d member
    rcases List.mem_cons.mp member with rfl | member
    · exact isBare_iff.mp bare
    · exact isBare_iff.mp (List.all_eq_true.mp List.all_takeWhile d member)
  | case3 c rest other => simp [readBare, other] at done

theorem read_sound {cs : List Char} {r : Read cs} (done : read cs = .ok r) :
    ∃ text, FieldText text r.field ∧ cs = text ++ r.rest := by
  unfold IdField.read at done
  split at done
  · obtain ⟨later, read, rfl⟩ := exceptMap_eq_ok.mp done
    obtain ⟨text, tokens, split⟩ := readQuoted_sound read
    exact ⟨'"' :: text ++ ['"'], .quoted tokens, by simpa using split⟩
  · exact readBare_sound done

end IdField

namespace Grammar

/-- What stands behind a field that may be bare. -/
def Stops (cs : List Char) : Prop := ∀ c ∈ cs.head?, ¬ UnquotedChar c

theorem Stops.nil : Stops [] := by simp [Stops]

theorem Stops.blanks {gap cs : List Char} (blank : Blanks gap) (stop : Stops cs) :
    Stops (gap ++ cs) := by
  cases gap with
  | nil => exact stop
  | cons c gap =>
    rintro _ ⟨⟩
    exact (blank c List.mem_cons_self).not_unquoted

theorem separator_not_unquoted {c : Char} (separator : c = ',' ∨ c = ';') : ¬ UnquotedChar c := by
  rw [← isBare_iff]
  rcases separator with rfl | rfl <;> decide

theorem Stops.separator {gap : List Char} (blank : Blanks gap) {c : Char}
    (separator : c = ',' ∨ c = ';') (rest : List Char) : Stops (gap ++ c :: rest) :=
  .blanks blank (by simpa [Stops] using separator_not_unquoted separator)

theorem FieldText.skipBlanks {cs field : List Char} (text : FieldText cs field)
    (tail : List Char) : skipBlanks (cs ++ tail) = cs ++ tail := by
  cases text with
  | quoted => exact skipBlanks_cons (by simp [Whitespace]) _
  | unquoted some bare =>
    cases cs with
    | nil => contradiction
    | cons c cs =>
      exact skipBlanks_cons (fun blank => blank.not_unquoted (bare c List.mem_cons_self)) _

theorem IdText.skipBlanks {cs : List Char} {id : Id} (text : IdText cs id) (tail : List Char) :
    skipBlanks (cs ++ tail) = cs ++ tail := by
  cases text with
  | single field => exact field.skipBlanks tail
  | more field => simpa using field.skipBlanks _

theorem IdListText.skipBlanks {cs : List Char} {ids : IdList} (text : IdListText cs ids)
    (tail : List Char) : skipBlanks (cs ++ tail) = cs ++ tail := by
  cases text with
  | single id => exact id.skipBlanks tail
  | more id => simpa using id.skipBlanks _

end Grammar

namespace IdList

/-- What the text behind a field and its blanks comes to. -/
def readBehind (field : Option String) (cs : List Char) : Except (List Char) IdList :=
  match cs with
  | [] => .ok [[field]]
  | ',' :: rest => (readFrom (skipBlanks rest)).map (addField field)
  | ';' :: rest => (readFrom (skipBlanks rest)).map ([field] :: ·)
  | rest => .error rest

theorem readFrom_eq {cs : List Char} {r : IdField.Read cs} (done : IdField.read cs = .ok r) :
    readFrom cs = readBehind (some (String.ofList r.field)) (skipBlanks r.rest) := by
  rw [readFrom, done]
  unfold readBehind
  dsimp only
  split <;> simp_all

theorem readFrom_field {cs field tail : List Char} (text : FieldText cs field)
    (stop : Stops tail) :
    readFrom (cs ++ tail) = readBehind (some (String.ofList field)) (skipBlanks tail) := by
  obtain ⟨r, done, rfl, left⟩ := IdField.read_complete text stop
  rw [readFrom_eq done, left]

/-- An ID is read up to the end of the text or up to a semicolon. -/
theorem readFrom_id {cs : List Char} {id : Id} (text : IdText cs id) {tail : List Char}
    (stop : Stops tail) :
    (skipBlanks tail = [] → readFrom (cs ++ tail) = .ok [id]) ∧
    ∀ rest, skipBlanks tail = ';' :: rest →
      readFrom (cs ++ tail) = (readFrom (skipBlanks rest)).map (id :: ·) := by
  induction text with
  | single field =>
    rw [readFrom_field field stop]
    constructor
    · intro done
      rw [done]
      rfl
    · intro rest next
      rw [next]
      rfl
  | @more cs field gap gap' rest id text blank blank' later ih =>
    have comma := Stops.separator blank (.inl rfl) (gap' ++ rest ++ tail)
    have first : readFrom (cs ++ gap ++ ',' :: gap' ++ rest ++ tail) =
        (readFrom (rest ++ tail)).map (addField (some (String.ofList field))) := by
      have shape : cs ++ gap ++ ',' :: gap' ++ rest ++ tail =
          cs ++ (gap ++ ',' :: (gap' ++ rest ++ tail)) := by simp
      rw [shape, readFrom_field text comma, skipBlanks_append blank,
        skipBlanks_cons (by simp [Whitespace])]
      simp only [readBehind]
      rw [List.append_assoc, skipBlanks_append blank', later.skipBlanks]
    rw [first]
    constructor
    · intro done
      rw [ih.1 done]
      rfl
    · intro after next
      rw [ih.2 after next]
      cases readFrom (skipBlanks after) with
      | error => rfl
      | ok => rfl

theorem readFrom_complete {cs : List Char} {ids : IdList} (text : IdListText cs ids)
    {trail : List Char} (blank : Blanks trail) : readFrom (cs ++ trail) = .ok ids := by
  induction text with
  | single id =>
    have stop : Stops trail := by simpa using Stops.blanks blank .nil
    exact (readFrom_id id stop).1 (skipBlanks_blanks blank)
  | @more cs gap gap' rest id ids text blank' blank'' later ih =>
    have semicolon := Stops.separator blank' (.inr rfl) (gap' ++ rest ++ trail)
    have shape : cs ++ gap ++ ';' :: gap' ++ rest ++ trail =
        cs ++ (gap ++ ';' :: (gap' ++ rest ++ trail)) := by simp
    rw [shape, (readFrom_id text semicolon).2 (gap' ++ rest ++ trail)
      (by rw [skipBlanks_append blank', skipBlanks_cons (by simp [Whitespace])]),
      List.append_assoc, skipBlanks_append blank'', later.skipBlanks, ih]
    rfl

theorem read_complete {inner : List Char} {ids : IdList} (text : InnerText inner ids) :
    read inner = .ok ids := by
  obtain ⟨lead, list, trail⟩ := text
  rw [read, List.append_assoc, skipBlanks_append lead, list.skipBlanks]
  exact readFrom_complete list trail

/-- Putting a field before the first ID of a list reads as the text of both. -/
theorem addField_text {cs field gap gap' rest : List Char} {ids : IdList}
    (text : FieldText cs field) (blank : Blanks gap) (blank' : Blanks gap')
    (later : IdListText rest ids) :
    IdListText (cs ++ gap ++ ',' :: gap' ++ rest)
      (addField (some (String.ofList field)) ids) := by
  cases later with
  | single id => exact .single (.more text blank blank' id)
  | more id between between' others =>
    simpa [addField] using IdListText.more (.more text blank blank' id) between between' others

/-- The text from a field on, up to where the next field has been read. -/
theorem exists_gaps {cs text behind rest others trail : List Char} {c : Char}
    (split : cs = text ++ behind) (next : skipBlanks behind = c :: rest)
    (later : skipBlanks rest = others ++ trail) :
    ∃ gap gap', Blanks gap ∧ Blanks gap' ∧
      cs = text ++ gap ++ c :: gap' ++ others ++ trail := by
  obtain ⟨gap, blank, front⟩ := exists_blanks behind
  obtain ⟨gap', blank', back⟩ := exists_blanks rest
  refine ⟨gap, gap', blank, blank', ?_⟩
  rw [split, front, next, back, later]
  simp

theorem readFrom_sound {cs : List Char} {ids : IdList} (done : readFrom cs = .ok ids) :
    ∃ text trail, IdListText text ids ∧ Blanks trail ∧ cs = text ++ trail := by
  fun_induction readFrom cs generalizing ids with
  | case1 => cases done
  | case2 cs r read field =>
    rename_i ended
    obtain ⟨text, fieldText, split⟩ := IdField.read_sound read
    obtain rfl := Except.ok.inj done
    exact ⟨text, r.rest, .single (.single fieldText), blanks_of_skipBlanks ended, split⟩
  | case3 cs r read field rest next =>
    rename_i ih
    obtain ⟨later, further, rfl⟩ := exceptMap_eq_ok.mp done
    obtain ⟨text, fieldText, split⟩ := IdField.read_sound read
    obtain ⟨others, trail, list, blank, later⟩ := ih further
    obtain ⟨gap, gap', between, between', whole⟩ := exists_gaps split next later
    exact ⟨_, trail, addField_text fieldText between between' list, blank, whole⟩
  | case4 cs r read field rest next =>
    rename_i ih
    obtain ⟨later, further, rfl⟩ := exceptMap_eq_ok.mp done
    obtain ⟨text, fieldText, split⟩ := IdField.read_sound read
    obtain ⟨others, trail, list, blank, later⟩ := ih further
    obtain ⟨gap, gap', between, between', whole⟩ := exists_gaps split next later
    exact ⟨_, trail, .more (.single fieldText) between between' list, blank, whole⟩
  | case5 => cases done

theorem read_sound {inner : List Char} {ids : IdList} (done : read inner = .ok ids) :
    InnerText inner ids := by
  obtain ⟨text, trail, list, blank, behind⟩ := readFrom_sound done
  obtain ⟨lead, before, split⟩ := exists_blanks inner
  rw [split, behind, ← List.append_assoc]
  exact .inner before list blank

end IdList

end ObjectQuery

import Mathlib.Computability.RegularExpressions
import ObjectQuery.Proofs.Pattern.ClosedList
import ObjectQuery.Proofs.Pattern.WrittenText

/-! The regular expression for what stands between the brackets of an ID list, put together as the
guide puts together its rules. It tells which texts are lists and not what they mean. The reader of
lists goes by characters and knows nothing of the expression, but takes the same texts. -/
namespace ObjectQuery

open Outcome Pattern Grammar

/-- Every ID of a list has a component. -/
theorem Grammar.IdListText.filled {cs : List Char} {ids : IdList} (text : IdListText cs ids) :
    ∀ id ∈ ids, id ≠ [] := by
  have some {cs : List Char} {id : Id} (text : IdText cs id) : id ≠ [] := by
    cases text <;> simp
  induction text with
  | single one => simpa using some one
  | more one _ _ _ ih => exact List.forall_mem_cons.mpr ⟨some one, ih⟩

namespace Expression

open RegularExpression

/-- The characters from one code to another. -/
def range (low high : Nat) : List Char := (List.range' low (high + 1 - low)).map Char.ofNat

/-- One of some characters. -/
def among (cs : List Char) : RegularExpression Char := (cs.map char).sum

def blankChars : List Char := range 0x09 0x0d ++ [' ']

def bareChars : List Char :=
  range 0x30 0x39 ++ range 0x41 0x5a ++ range 0x61 0x7a ++ ['_', ':', '/', '.', '?', '%', '+', '-']

def plainChars : List Char := range 0x20 0x21 ++ range 0x23 0x5b ++ range 0x5d 0x7e

def escapedChars : List Char := ['"', '\\']

def blanks : RegularExpression Char := (among blankChars).star

def token : RegularExpression Char := among plainChars + char '\\' * among escapedChars

def quotedField : RegularExpression Char := char '"' * token.star * char '"'

def field : RegularExpression Char := among bareChars * (among bareChars).star + quotedField

/-- Items with a separator between them, and blanks around it. -/
def separated (separator : Char) (item : RegularExpression Char) : RegularExpression Char :=
  item * (blanks * char separator * blanks * item).star

def id : RegularExpression Char := separated ',' field

def idList : RegularExpression Char := separated ';' id

def inner : RegularExpression Char := blanks * idList * blanks

theorem toNat_ofNat {n : Nat} (small : n < 0xd800) : (Char.ofNat n).toNat = n := by
  have valid : n.isValidChar := .inl small
  rw [Char.ofNat, dif_pos valid]
  rfl

theorem mem_range {low high : Nat} (small : high < 0xd800) {c : Char} :
    c ∈ range low high ↔ low ≤ c.toNat ∧ c.toNat ≤ high := by
  simp only [range, List.mem_map, List.mem_range'_1]
  constructor
  · rintro ⟨n, bounds, rfl⟩
    rw [toNat_ofNat (by omega)]
    omega
  · intro bounds
    exact ⟨c.toNat, by omega, Char.ofNat_toNat c⟩

theorem mem_blankChars {c : Char} : c ∈ blankChars ↔ Whitespace c := by
  simp [blankChars, mem_range, Whitespace, char_eq_iff]

theorem mem_bareChars {c : Char} : c ∈ bareChars ↔ UnquotedChar c := by
  simp [bareChars, mem_range, UnquotedChar]

theorem mem_plainChars {c : Char} : c ∈ plainChars ↔ PlainChar c := by
  simp [plainChars, mem_range, PlainChar]

theorem mem_escapedChars {c : Char} : c ∈ escapedChars ↔ EscapedChar c := by
  simp [escapedChars, EscapedChar, char_eq_iff]

theorem mem_char {c : Char} {cs : List Char} : cs ∈ (char c).matches' ↔ cs = [c] := Iff.rfl

theorem mem_among {l cs : List Char} : cs ∈ (among l).matches' ↔ ∃ c ∈ l, cs = [c] := by
  induction l with
  | nil => simp [among, ← zero_def, matches']
  | cons d l ih =>
    have sum : among (d :: l) = char d + among l := rfl
    rw [sum, matches'_add, Language.mem_add, mem_char, ih]
    simp

section Star

variable {r : RegularExpression Char}

theorem nil_mem_star : [] ∈ r.star.matches' := Language.nil_mem_kstar _

theorem append_mem_star {first rest : List Char} (one : first ∈ r.matches')
    (others : rest ∈ r.star.matches') : first ++ rest ∈ r.star.matches' := by
  obtain ⟨parts, rfl, each⟩ := Language.mem_kstar.mp others
  exact Language.mem_kstar.mpr ⟨first :: parts, rfl, List.forall_mem_cons.mpr ⟨one, each⟩⟩

/-- A repetition is taken apart from its start. -/
theorem star_induction {P : List Char → Prop} (nil : P [])
    (more : ∀ first ∈ r.matches', ∀ rest, P rest → P (first ++ rest)) {cs : List Char}
    (repeated : cs ∈ r.star.matches') : P cs := by
  rw [matches'_star, Language.mem_kstar] at repeated
  obtain ⟨parts, rfl, each⟩ := repeated
  induction parts with
  | nil => exact nil
  | cons first parts ih =>
    obtain ⟨one, others⟩ := List.forall_mem_cons.mp each
    exact more first one _ (ih others)

theorem mem_star_among {l cs : List Char} : cs ∈ (among l).star.matches' ↔ ∀ c ∈ cs, c ∈ l := by
  constructor
  · apply star_induction
    · simp
    · intro first one rest each
      obtain ⟨c, member, rfl⟩ := mem_among.mp one
      exact List.forall_mem_cons.mpr ⟨member, each⟩
  · intro each
    induction cs with
    | nil => exact nil_mem_star
    | cons c cs ih =>
      obtain ⟨member, each⟩ := List.forall_mem_cons.mp each
      exact append_mem_star (mem_among.mpr ⟨c, member, rfl⟩) (ih each)

end Star

theorem mem_mul {a b : RegularExpression Char} {cs : List Char} :
    cs ∈ (a * b).matches' ↔ ∃ front ∈ a.matches', ∃ back ∈ b.matches', front ++ back = cs :=
  Language.mem_mul

theorem mem_blanks {cs : List Char} : cs ∈ blanks.matches' ↔ Blanks cs := by
  rw [blanks, mem_star_among]
  simp only [mem_blankChars, Blanks]

theorem mem_token {cs : List Char} : cs ∈ token.matches' ↔
    (∃ c, PlainChar c ∧ cs = [c]) ∨ ∃ c, EscapedChar c ∧ cs = ['\\', c] := by
  rw [token, matches'_add, Language.mem_add, mem_among, mem_mul]
  simp only [mem_plainChars, mem_char, mem_among, mem_escapedChars]
  constructor
  · rintro (plain | ⟨_, rfl, _, ⟨c, escaped, rfl⟩, rfl⟩)
    · exact .inl plain
    · exact .inr ⟨c, escaped, rfl⟩
  · rintro (plain | ⟨c, escaped, rfl⟩)
    · exact .inl plain
    · exact .inr ⟨_, rfl, _, ⟨c, escaped, rfl⟩, rfl⟩

theorem mem_tokens {cs : List Char} :
    cs ∈ token.star.matches' ↔ ∃ value, QuotedTokens cs value := by
  constructor
  · apply star_induction
    · exact ⟨[], .none⟩
    · rintro first one rest ⟨value, tokens⟩
      rcases mem_token.mp one with ⟨c, plain, rfl⟩ | ⟨c, escaped, rfl⟩
      · exact ⟨c :: value, .plain plain tokens⟩
      · exact ⟨c :: value, .escaped escaped tokens⟩
  · rintro ⟨value, tokens⟩
    induction tokens with
    | none => exact nil_mem_star
    | plain plain _ ih => exact append_mem_star (mem_token.mpr (.inl ⟨_, plain, rfl⟩)) ih
    | escaped escaped _ ih => exact append_mem_star (mem_token.mpr (.inr ⟨_, escaped, rfl⟩)) ih

theorem mem_quotedField {cs : List Char} : cs ∈ quotedField.matches' ↔
    ∃ tokens value, QuotedTokens tokens value ∧ cs = '"' :: tokens ++ ['"'] := by
  simp only [quotedField, mem_mul, mem_char, mem_tokens]
  constructor
  · rintro ⟨_, ⟨_, rfl, tokens, ⟨value, text⟩, rfl⟩, _, rfl, rfl⟩
    exact ⟨tokens, value, text, rfl⟩
  · rintro ⟨tokens, value, text, rfl⟩
    exact ⟨_, ⟨_, rfl, tokens, ⟨value, text⟩, rfl⟩, _, rfl, rfl⟩

theorem mem_bareField {cs : List Char} :
    cs ∈ (among bareChars * (among bareChars).star).matches' ↔
      cs ≠ [] ∧ ∀ c ∈ cs, UnquotedChar c := by
  simp only [mem_mul, mem_among, mem_star_among, mem_bareChars]
  constructor
  · rintro ⟨_, ⟨c, first, rfl⟩, rest, others, rfl⟩
    exact ⟨by simp, List.forall_mem_cons.mpr ⟨first, others⟩⟩
  · rintro ⟨some, bare⟩
    cases cs with
    | nil => contradiction
    | cons c cs =>
      obtain ⟨first, others⟩ := List.forall_mem_cons.mp bare
      exact ⟨[c], ⟨c, first, rfl⟩, cs, others, rfl⟩

theorem mem_field {cs : List Char} : cs ∈ field.matches' ↔ ∃ value, FieldText cs value := by
  rw [field, matches'_add, Language.mem_add, mem_bareField, mem_quotedField]
  constructor
  · rintro (⟨some, bare⟩ | ⟨tokens, value, text, rfl⟩)
    · exact ⟨cs, .unquoted some bare⟩
    · exact ⟨value, .quoted text⟩
  · rintro ⟨value, text⟩
    cases text with
    | unquoted some bare => exact .inl ⟨some, bare⟩
    | quoted text => exact .inr ⟨_, _, text, rfl⟩

section Separated

variable {separator : Char} {item : RegularExpression Char}

theorem mem_behind {cs : List Char} :
    cs ∈ (blanks * char separator * blanks * item).matches' ↔ ∃ gap gap' next, Blanks gap ∧
      Blanks gap' ∧ next ∈ item.matches' ∧ cs = gap ++ separator :: gap' ++ next := by
  simp only [mem_mul, mem_blanks, mem_char]
  constructor
  · rintro ⟨_, ⟨_, ⟨gap, blank, _, rfl, rfl⟩, gap', blank', rfl⟩, next, text, rfl⟩
    exact ⟨gap, gap', next, blank, blank', text, by simp⟩
  · rintro ⟨gap, gap', next, blank, blank', text, rfl⟩
    exact ⟨_, ⟨_, ⟨gap, blank, _, rfl, rfl⟩, gap', blank', rfl⟩, next, text, by simp⟩

theorem separated_single {cs : List Char} (one : cs ∈ item.matches') :
    cs ∈ (separated separator item).matches' :=
  mem_mul.mpr ⟨cs, one, [], nil_mem_star, by simp⟩

theorem separated_more {cs gap gap' rest : List Char} (one : cs ∈ item.matches')
    (blank : Blanks gap) (blank' : Blanks gap')
    (others : rest ∈ (separated separator item).matches') :
    cs ++ gap ++ separator :: gap' ++ rest ∈ (separated separator item).matches' := by
  obtain ⟨next, text, last, repeated, rfl⟩ := mem_mul.mp others
  have behind : gap ++ separator :: gap' ++ next ∈
      (blanks * char separator * blanks * item).matches' :=
    mem_behind.mpr ⟨gap, gap', next, blank, blank', text, rfl⟩
  exact mem_mul.mpr ⟨cs, one, _, append_mem_star behind repeated, by simp⟩

/-- Separated items are taken apart from the first one on. -/
theorem separated_induction {P : List Char → Prop} (single : ∀ cs ∈ item.matches', P cs)
    (more : ∀ cs ∈ item.matches', ∀ gap gap' rest, Blanks gap → Blanks gap' → P rest →
      P (cs ++ gap ++ separator :: gap' ++ rest)) {cs : List Char}
    (text : cs ∈ (separated separator item).matches') : P cs := by
  -- The repetition is behind the first item, so the item before it has to be general.
  have along {last : List Char}
      (repeated : last ∈ (blanks * char separator * blanks * item).star.matches') :
      ∀ first ∈ item.matches', P (first ++ last) := by
    revert repeated
    apply star_induction
    · intro first one
      rw [List.append_nil]
      exact single first one
    · intro part behind rest ih first one
      obtain ⟨gap, gap', next, blank, blank', text, rfl⟩ := mem_behind.mp behind
      have whole := more first one gap gap' _ blank blank' (ih next text)
      simpa using whole
  obtain ⟨first, one, last, repeated, rfl⟩ := mem_mul.mp text
  exact along repeated first one

end Separated

theorem mem_id {cs : List Char} : cs ∈ id.matches' ↔ ∃ own, IdText cs own := by
  constructor
  · apply separated_induction
    · intro cs one
      obtain ⟨value, text⟩ := mem_field.mp one
      exact ⟨_, .single text⟩
    · rintro cs one gap gap' rest blank blank' ⟨others, later⟩
      obtain ⟨value, text⟩ := mem_field.mp one
      exact ⟨_, .more text blank blank' later⟩
  · rintro ⟨own, text⟩
    induction text with
    | single text => exact separated_single (mem_field.mpr ⟨_, text⟩)
    | more text blank blank' _ ih =>
      exact separated_more (mem_field.mpr ⟨_, text⟩) blank blank' ih

theorem mem_idList {cs : List Char} : cs ∈ idList.matches' ↔ ∃ ids, IdListText cs ids := by
  constructor
  · apply separated_induction
    · intro cs one
      obtain ⟨own, text⟩ := mem_id.mp one
      exact ⟨_, .single text⟩
    · rintro cs one gap gap' rest blank blank' ⟨others, later⟩
      obtain ⟨own, text⟩ := mem_id.mp one
      exact ⟨_, .more text blank blank' later⟩
  · rintro ⟨ids, text⟩
    induction text with
    | single text => exact separated_single (mem_id.mpr ⟨_, text⟩)
    | more text blank blank' _ ih => exact separated_more (mem_id.mpr ⟨_, text⟩) blank blank' ih

/-- The expression holds of the texts that mean something between brackets. -/
theorem mem_inner {cs : List Char} : cs ∈ inner.matches' ↔ ∃ ids, InnerText cs ids := by
  simp only [inner, mem_mul, mem_blanks, mem_idList]
  constructor
  · rintro ⟨_, ⟨lead, before, list, ⟨ids, text⟩, rfl⟩, trail, behind, rfl⟩
    exact ⟨ids, .inner before text behind⟩
  · rintro ⟨ids, @⟨lead, list, trail, _, before, text, behind⟩⟩
    exact ⟨_, ⟨lead, before, list, ⟨ids, text⟩, rfl⟩, trail, behind, rfl⟩

end Expression

namespace IdList

theorem read_eq_ok {cs : List Char} {ids : IdList} : read cs = .ok ids ↔ InnerText cs ids :=
  ⟨read_sound, read_complete⟩

end IdList

/-- A list comes to its end before a bracket if it is the text of a list. -/
theorem Bracket.close?_iff {cs after : List Char} :
    close? .before (cs ++ ']' :: after) = some (cs, after) ↔ ∃ ids, InnerText cs ids := by
  constructor
  · intro closed
    exact inner_of_ends (ends_of_close? closed)
  · rintro ⟨ids, text⟩
    exact close?_complete text after

/-- The reader takes exactly the texts that the regular expression holds of, which are those that
a bracket closes behind, and gives the list that the text means in the grammar. There are IDs in
it, each of them has components, and none of these is missing or not printable. -/
theorem IdList.read_iff_expression (cs : List Char) :
    ((∃ ids, read cs = .ok ids) ↔ cs ∈ Expression.inner.matches') ∧
    (∀ after, cs ∈ Expression.inner.matches' ↔
      Bracket.close? .before (cs ++ ']' :: after) = some (cs, after)) ∧
    (∀ ids, read cs = .ok ids ↔ InnerText cs ids) ∧
    ∀ ids, read cs = .ok ids →
      ids ≠ [] ∧ ∀ id ∈ ids, id ≠ [] ∧ ∀ field ∈ id, Writable field := by
  refine ⟨?_, fun after => ?_, fun ids => read_eq_ok, fun ids done => ?_⟩
  · rw [Expression.mem_inner]
    simp only [read_eq_ok]
  · rw [Expression.mem_inner, Bracket.close?_iff]
  · obtain ⟨_, text, _⟩ := read_eq_ok.mp done
    obtain ⟨some, each⟩ := text.writable
    exact ⟨some, fun id member => ⟨text.filled id member, each id member⟩⟩

end ObjectQuery

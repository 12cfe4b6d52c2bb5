import Mathlib.Data.List.Forall2
import ObjectQuery.Proofs.Pattern.SpecificationText

/-! ID lists that come to their bracket. The bracket is looked for character by character, before
the list is read as a list, and what stands before it can always be read. So every specification
that is taken from a text says something, and the texts of specifications are texts of patterns. -/
namespace ObjectQuery

open Outcome Pattern Grammar

namespace Bracket

/-- The list may end behind this text, if the text goes on from there. -/
def Ends (p : Place) (cs : List Char) : Prop := ∃ q, q.mayClose = true ∧ run p cs = some q

theorem ends_nil {p : Place} : Ends p [] ↔ p.mayClose = true := by
  simp [Ends]

theorem ends_cons {p : Place} {c : Char} {cs : List Char} :
    Ends p (c :: cs) ↔ ∃ q, p.next? c = some q ∧ Ends q cs := by
  simp only [Ends, run_cons, Option.bind_eq_some_iff]
  constructor
  · rintro ⟨last, closes, q, next, ran⟩
    exact ⟨q, next, last, closes, ran⟩
  · rintro ⟨q, next, last, closes, ran⟩
    exact ⟨last, closes, q, next, ran⟩

theorem ends_of_close? {p : Place} {cs inner after : List Char}
    (closed : close? p cs = some (inner, after)) : Ends p inner := by
  induction cs generalizing p inner with
  | nil => cases closed
  | cons c rest ih =>
    rw [close?] at closed
    split at closed
    · next closes =>
      obtain ⟨rfl, _⟩ := Prod.mk.inj (Option.some.inj closed)
      exact ends_nil.mpr closes.2
    · obtain ⟨q, next, closed⟩ := Option.bind_eq_some_iff.mp closed
      obtain ⟨⟨tail, left⟩, found, same⟩ := Option.map_eq_some_iff.mp closed
      obtain ⟨rfl, rfl⟩ := Prod.mk.inj same
      exact ends_cons.mpr ⟨q, next, ih found⟩

theorem next?_quoted {c : Char} {q : Place} (next : Place.quoted.next? c = some q) :
    c = '"' ∧ q = .behind ∨ c = '\\' ∧ q = .escaped ∨ PlainChar c ∧ q = .quoted := by
  simp only [Place.next?] at next
  split at next
  · next quote => exact .inl ⟨quote, (Option.some.inj next).symm⟩
  · split at next
    · next slash => exact .inr (.inl ⟨slash, (Option.some.inj next).symm⟩)
    · split at next
      · next plain => exact .inr (.inr ⟨isPlain_iff.mp plain, (Option.some.inj next).symm⟩)
      · cases next

theorem next?_escaped {c : Char} {q : Place} (next : Place.escaped.next? c = some q) :
    EscapedChar c ∧ q = .quoted := by
  simp only [Place.next?] at next
  split at next
  · next escaped => exact ⟨isEscaped_iff.mp escaped, (Option.some.inj next).symm⟩
  · cases next

theorem next?_before {c : Char} {q : Place} (visible : ¬ Whitespace c)
    (next : Place.before.next? c = some q) :
    UnquotedChar c ∧ q = .bare ∨ c = '"' ∧ q = .quoted := by
  simp only [Place.next?, mt isBlank_iff.mp visible] at next
  split at next
  · contradiction
  · split at next
    · next bare => exact .inl ⟨isBare_iff.mp bare, (Option.some.inj next).symm⟩
    · split at next
      · next quote => exact .inr ⟨quote, (Option.some.inj next).symm⟩
      · cases next

theorem next?_behind {c : Char} {q : Place} (next : Place.behind.next? c = some q) :
    Whitespace c ∧ q = .behind ∨ (c = ',' ∨ c = ';') ∧ q = .before := by
  simp only [Place.next?, Place.separated] at next
  split at next
  · next separator => exact .inr ⟨separator, (Option.some.inj next).symm⟩
  · split at next
    · next blank => exact .inl ⟨isBlank_iff.mp blank, (Option.some.inj next).symm⟩
    · cases next

/-- Within quotes, and behind a backslash there, the closing quote is still to come. -/
theorem tokens_of_ends (cs : List Char) :
    (Ends .quoted cs → ∃ tokens field rest, QuotedTokens tokens field ∧
      cs = tokens ++ '"' :: rest ∧ Ends .behind rest) ∧
    (Ends .escaped cs → ∃ c tokens field rest, EscapedChar c ∧ QuotedTokens tokens field ∧
      cs = c :: tokens ++ '"' :: rest ∧ Ends .behind rest) := by
  induction cs with
  | nil =>
    exact ⟨fun ends => absurd (ends_nil.mp ends) (by decide),
      fun ends => absurd (ends_nil.mp ends) (by decide)⟩
  | cons c cs ih =>
    obtain ⟨ofQuoted, ofEscaped⟩ := ih
    constructor
    · intro ends
      obtain ⟨q, next, later⟩ := ends_cons.mp ends
      rcases next?_quoted next with ⟨rfl, rfl⟩ | ⟨rfl, rfl⟩ | ⟨plain, rfl⟩
      · exact ⟨[], [], cs, .none, rfl, later⟩
      · obtain ⟨c, tokens, field, rest, escaped, text, rfl, behind⟩ := ofEscaped later
        exact ⟨'\\' :: c :: tokens, c :: field, rest, .escaped escaped text, rfl, behind⟩
      · obtain ⟨tokens, field, rest, text, rfl, behind⟩ := ofQuoted later
        exact ⟨c :: tokens, c :: field, rest, .plain plain text, rfl, behind⟩
    · intro ends
      obtain ⟨q, next, later⟩ := ends_cons.mp ends
      obtain ⟨escaped, rfl⟩ := next?_escaped next
      obtain ⟨tokens, field, rest, text, rfl, behind⟩ := ofQuoted later
      exact ⟨c, tokens, field, rest, escaped, text, rfl, behind⟩

/-- A bare field goes on up to a character that is not bare. -/
theorem bare_of_ends {cs : List Char} (ends : Ends .bare cs) :
    ∃ more rest, (∀ c ∈ more, UnquotedChar c) ∧ cs = more ++ rest ∧ Ends .behind rest := by
  induction cs with
  | nil => exact ⟨[], [], by simp, rfl, ends_nil.mpr rfl⟩
  | cons c cs ih =>
    obtain ⟨q, next, later⟩ := ends_cons.mp ends
    by_cases bare : UnquotedChar c
    · have same : Place.bare.next? c = some .bare := by simp [Place.next?, isBare_iff.mpr bare]
      obtain rfl := Option.some.inj (same.symm.trans next)
      obtain ⟨more, rest, all, rfl, behind⟩ := ih later
      exact ⟨c :: more, rest, List.forall_mem_cons.mpr ⟨bare, all⟩, rfl, behind⟩
    · rw [next?_closing rfl bare] at next
      exact ⟨[], c :: cs, by simp, rfl, ends_cons.mpr ⟨q, next, later⟩⟩

theorem field_of_ends {cs : List Char} (ends : Ends .before cs) :
    ∃ lead text field rest, Blanks lead ∧ FieldText text field ∧ cs = lead ++ text ++ rest ∧
      Ends .behind rest := by
  induction cs with
  | nil => cases ends_nil.mp ends
  | cons c cs ih =>
    obtain ⟨q, next, later⟩ := ends_cons.mp ends
    by_cases blank : Whitespace c
    · have same : Place.before.next? c = some .before := by
        simp [Place.next?, isBlank_iff.mpr blank]
      obtain rfl := Option.some.inj (same.symm.trans next)
      obtain ⟨lead, text, field, rest, blanks, fieldText, rfl, behind⟩ := ih later
      exact ⟨c :: lead, text, field, rest, List.forall_mem_cons.mpr ⟨blank, blanks⟩, fieldText,
        rfl, behind⟩
    · rcases next?_before blank next with ⟨bare, rfl⟩ | ⟨rfl, rfl⟩
      · obtain ⟨more, rest, all, rfl, behind⟩ := bare_of_ends later
        exact ⟨[], c :: more, c :: more, rest, .nil,
          .unquoted (by simp) (List.forall_mem_cons.mpr ⟨bare, all⟩), rfl, behind⟩
      · obtain ⟨tokens, field, rest, text, rfl, behind⟩ := (tokens_of_ends cs).1 later
        exact ⟨[], '"' :: tokens ++ ['"'], field, rest, .nil, .quoted text, by simp, behind⟩

/-- Behind a field there are blanks up to the end of the list or up to a separator. -/
theorem gap_of_ends {cs : List Char} (ends : Ends .behind cs) :
    ∃ gap, Blanks gap ∧ (cs = gap ∨ ∃ c rest, (c = ',' ∨ c = ';') ∧ cs = gap ++ c :: rest ∧
      Ends .before rest) := by
  induction cs with
  | nil => exact ⟨[], .nil, .inl rfl⟩
  | cons c cs ih =>
    obtain ⟨q, next, later⟩ := ends_cons.mp ends
    rcases next?_behind next with ⟨blank, rfl⟩ | ⟨separator, rfl⟩
    · obtain ⟨gap, blanks, split⟩ := ih later
      refine ⟨c :: gap, List.forall_mem_cons.mpr ⟨blank, blanks⟩, ?_⟩
      rcases split with rfl | ⟨d, rest, separator, rfl, before⟩
      · exact .inl rfl
      · exact .inr ⟨d, rest, separator, rfl, before⟩
    · exact ⟨[], .nil, .inr ⟨c, cs, separator, rfl, later⟩⟩

/-- A text at whose end a list may end is the text of a list. -/
theorem inner_of_ends {cs : List Char} (ends : Ends .before cs) : ∃ ids, InnerText cs ids := by
  obtain ⟨lead, text, field, behind, leadBlank, fieldText, split, onward⟩ := field_of_ends ends
  obtain ⟨gap, gapBlank, rfl | ⟨c, rest, separator, rfl, later⟩⟩ := gap_of_ends onward
  · rw [split]
    exact ⟨_, .inner leadBlank (.single (.single fieldText)) gapBlank⟩
  · have shorter : rest.length < cs.length := by
      simp [split]
      omega
    obtain ⟨ids, inner⟩ := inner_of_ends later
    obtain @⟨gap', list, trail, _, blank', listText, trailBlank⟩ := inner
    have shape : lead ++ text ++ (gap ++ c :: (gap' ++ list ++ trail)) =
        lead ++ (text ++ gap ++ c :: gap' ++ list) ++ trail := by simp
    rw [split, shape]
    rcases separator with rfl | rfl
    · exact ⟨_, .inner leadBlank (IdList.addField_text fieldText gapBlank blank' listText)
        trailBlank⟩
    · exact ⟨_, .inner leadBlank (.more (.single fieldText) gapBlank blank' listText) trailBlank⟩
termination_by cs.length
decreasing_by exact shorter

end Bracket

/-- Whatever stands as a source of IDs in a text means something. -/
theorem IdSource.read_means (cs : List Char) : ∃ source, (read cs).1.Means source := by
  fun_cases read cs with
  | case1 => exact ⟨_, .placeholder⟩
  | case2 rest inner after closed =>
    obtain ⟨ids, text⟩ := Bracket.inner_of_ends (Bracket.ends_of_close? closed)
    exact ⟨_, .inline (IdList.read_complete text)⟩
  | case3 => exact ⟨_, .absent⟩
  | case4 => exact ⟨_, .absent⟩

namespace Specification

theorem read?_means {cs rest : List Char} {s : Specification} (done : read? cs = some (s, rest)) :
    ∃ c, s.Means c := by
  obtain ⟨⟨down, afterRelation⟩, _, done⟩ := Option.bind_eq_some_iff.mp done
  obtain ⟨⟨type, afterType⟩, _, done⟩ := Option.map_eq_some_iff.mp done
  obtain ⟨rfl, rfl⟩ := Prod.mk.inj done
  obtain ⟨source, means⟩ := IdSource.read_means (skipBlanks afterType)
  exact ⟨⟨down, _, source, _⟩, rfl, rfl, means, rfl⟩

/-- Every specification of a text says what some clause says. -/
theorem readAll_means (cs : List Char) : ∀ s ∈ (readAll cs).1, ∃ c, s.Means c := by
  fun_induction readAll cs with
  | case1 => simp
  | case2 cs s rest found ih => exact List.forall_mem_cons.mpr ⟨read?_means found, ih⟩

theorem readAll_spaced (cs : List Char) : ∀ s ∈ (readAll cs).1, s.Spaced := by
  fun_induction readAll cs with
  | case1 => simp
  | case2 cs s rest found ih => exact List.forall_mem_cons.mpr ⟨read?_spaced found, ih⟩

/-- The texts of specifications, one behind the other, are patterns of the grammar. -/
theorem texts_derivable {specifications : List Specification}
    (means : ∀ s ∈ specifications, ∃ c, s.Means c) (spaced : ∀ s ∈ specifications, s.Spaced)
    {gap : List Char} (blank : Blanks gap) :
    ∃ patterns, Patterns (gap ++ specifications.flatMap text) patterns ∧
      List.Forall₂ Means specifications (patterns.map Placed.clause) := by
  -- The blanks behind a specification are the lead of the next pattern, so the lead is general.
  induction specifications generalizing gap with
  | nil => exact ⟨[], .none (by simpa using blank), .nil⟩
  | cons s specifications ih =>
    obtain ⟨⟨c, first⟩, means⟩ := List.forall_mem_cons.mp means
    obtain ⟨here, spaced⟩ := List.forall_mem_cons.mp spaced
    obtain ⟨body, trail, own, trailBlank, split⟩ := here.body first
    obtain ⟨patterns, later, same⟩ := ih means spaced trailBlank
    refine ⟨⟨gap ++ s.lead, body, c⟩ :: patterns, ?_, .cons first same⟩
    have shape : gap ++ (s :: specifications).flatMap text =
        gap ++ s.lead ++ body ++ (trail ++ specifications.flatMap text) := by
      rw [List.flatMap_cons, split]
      simp
    rw [shape]
    exact .more (p := ⟨gap ++ s.lead, body, c⟩) ⟨blank.append here.lead, own⟩ later

/-- A text that is taken as a whole is one of patterns. -/
theorem readAll_derivable {cs : List Char} (whole : (readAll cs).2 = []) (nonempty : cs ≠ []) :
    ∃ patterns, PatternString cs patterns := by
  obtain ⟨patterns, valid, same⟩ := texts_derivable (readAll_means cs) (readAll_spaced cs) .nil
  have split := readAll_text cs
  rw [whole, List.append_nil] at split
  rw [List.nil_append, split] at valid
  refine ⟨patterns, valid, ?_⟩
  rintro rfl
  rw [List.forall₂_nil_right_iff.mp same] at split
  exact nonempty split.symm

end Specification

end ObjectQuery

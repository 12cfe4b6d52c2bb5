import ObjectQuery.Proofs.Pattern.WrittenText

/-! The characters of written chains. Whatever the fields of its IDs are, the text of a chain is
printable ASCII throughout: names and separators are, and a field that is not is refused. So a text
never breaks off into a second line. -/
namespace ObjectQuery

open Outcome Pattern Grammar

/-- Text of printable characters only. -/
def Printable (cs : List Char) : Prop := ∀ c ∈ cs, isPrintable c = true

namespace Printable

theorem nil : Printable [] := fun _ member => (List.not_mem_nil member).elim

theorem cons {c : Char} {cs : List Char} (first : isPrintable c = true) (rest : Printable cs) :
    Printable (c :: cs) := List.forall_mem_cons.mpr ⟨first, rest⟩

theorem append {cs ds : List Char} (first : Printable cs) (second : Printable ds) :
    Printable (cs ++ ds) := fun c member =>
  (List.mem_append.mp member).elim (first c) (second c)

theorem intercalate {separator : List Char} {parts : List (List Char)}
    (between : Printable separator) (each : ∀ part ∈ parts, Printable part) :
    Printable (separator.intercalate parts) := by
  induction parts with
  | nil => exact .nil
  | cons part parts ih =>
    have later := ih fun other member => each other (List.mem_cons_of_mem part member)
    have first := each part List.mem_cons_self
    cases parts with
    | nil => simpa using first
    | cons next parts =>
      rw [List.intercalate_cons_cons]
      exact (first.append between).append later

theorem flatten {parts : List (List Char)} (each : ∀ part ∈ parts, Printable part) :
    Printable parts.flatten := by
  intro c member
  obtain ⟨part, inside, here⟩ := List.mem_flatten.mp member
  exact each part inside c here

/-- No line break is printable. -/
theorem one_line {cs : List Char} (printable : Printable cs) : '\n' ∉ cs := by
  intro member
  have broken := printable '\n' member
  revert broken
  decide

end Printable

theorem Grammar.NameChar.printable {c : Char} (name : NameChar c) : isPrintable c = true := by
  rw [isPrintable_iff]
  rcases name with digit | letter | rfl
  · omega
  · omega
  · decide

namespace IdField

theorem quote_printable {cs : List Char} (printable : Printable cs) : Printable (quote cs) := by
  intro c member
  have cases : c = '"' ∨ ∃ d ∈ cs, c = '\\' ∨ c = d := by
    simp only [quote, List.cons_append, List.mem_cons, List.mem_append, List.mem_flatMap,
      List.not_mem_nil, or_false] at member
    rcases member with rfl | ⟨d, inside, here⟩ | rfl
    · exact .inl rfl
    · refine .inr ⟨d, inside, ?_⟩
      split at here
      · simpa using here
      · exact .inr (by simpa using here)
    · exact .inl rfl
  rcases cases with rfl | ⟨d, inside, rfl | rfl⟩
  · decide
  · decide
  · exact printable c inside

theorem write_printable {field : Option String} {cs : List Char}
    (done : write field = .ok cs) : Printable cs := by
  cases field with
  | none => cases done
  | some value =>
    rw [write] at done
    split at done
    · next bare =>
      obtain rfl := Except.ok.inj done
      intro c member
      simp only [isBareWord, Bool.and_eq_true, List.all_eq_true] at bare
      have unquoted := bare.2 c member
      rw [isPrintable_iff]
      simp [isBare, char_le_iff, char_eq_iff] at unquoted
      omega
    · split at done
      · next printable =>
        obtain rfl := Except.ok.inj done
        exact quote_printable (List.all_eq_true.mp printable)
      · cases done

end IdField

namespace IdList

theorem writeId_printable {id : Id} {cs : List Char} (done : writeId id = .ok cs) :
    Printable cs := by
  obtain ⟨texts, each, same⟩ := bind_eq_ok.mp done
  obtain rfl := pure_eq_ok.mp same
  have separator : Printable [',', ' '] := .cons (by decide) (.cons (by decide) .nil)
  refine separator.intercalate fun text inside => ?_
  obtain ⟨field, _, written⟩ := mem_of_mapM each inside
  exact IdField.write_printable written

theorem write_printable {ids : IdList} {cs : List Char} (done : write ids = .ok cs) :
    Printable cs := by
  obtain ⟨texts, each, same⟩ := bind_eq_ok.mp done
  obtain rfl := pure_eq_ok.mp same
  have separator : Printable [';', ' '] := .cons (by decide) (.cons (by decide) .nil)
  have inner : Printable ([';', ' '].intercalate texts) := by
    refine separator.intercalate fun text inside => ?_
    obtain ⟨id, _, written⟩ := mem_of_mapM each inside
    exact writeId_printable written
  have opening : Printable ['['] := .cons (by decide) .nil
  have closing : Printable [']'] := .cons (by decide) .nil
  exact (opening.append inner).append closing

end IdList

namespace Step

def relationChar (down : Bool) : Char := if down then '>' else '<'

def markText (matched : Bool) : List Char := if matched then ['#'] else []

/-- The text of the ID list of a step, if it has one. -/
inductive IdsText : Option IdList → List Char → Prop
  | absent : IdsText none []
  | listed {ids : IdList} {cs : List Char} : IdList.write ids = .ok cs → IdsText (some ids) cs

theorem parts_of_write {s : Step} {cs : List Char} (done : s.write = .ok cs) :
    ∃ ids, IdsText s.ids ids ∧
      cs = relationChar s.down :: (s.type.name.toList ++ (ids ++ markText s.matched)) := by
  rw [write] at done
  cases listed : s.ids with
  | none =>
    rw [listed] at done
    obtain rfl := pure_eq_ok.mp done
    exact ⟨[], .absent, by simp [relationChar, markText]⟩
  | some ids =>
    rw [listed] at done
    obtain ⟨text, written, same⟩ := bind_eq_ok.mp done
    obtain rfl := pure_eq_ok.mp same
    exact ⟨text, .listed written, by simp [relationChar, markText]⟩

theorem IdsText.printable {ids : Option IdList} {cs : List Char} (text : IdsText ids cs) :
    Printable cs := by
  cases text with
  | absent => exact .nil
  | listed written => exact IdList.write_printable written

theorem write_printable {s : Step} (spelled : Schema.isTypeName s.type.name = true)
    {cs : List Char} (done : s.write = .ok cs) : Printable cs := by
  obtain ⟨ids, text, rfl⟩ := parts_of_write done
  have relation : isPrintable (relationChar s.down) = true := by cases s.down <;> decide
  have name : Printable s.type.name.toList := fun c member =>
    ((isTypeName_iff.mp spelled).2 c member).printable
  have mark : Printable (markText s.matched) := by
    cases s.matched with
    | true => exact .cons (by decide) .nil
    | false => exact .nil
  exact .cons relation (name.append (text.printable.append mark))

end Step

/-- The text of a chain is printable whatever IDs there are in its lists. -/
theorem Chain.text_printable {c : Chain}
    (spelled : ∀ s ∈ c.steps, Schema.isTypeName s.type.name = true) {f : String}
    (done : c.text = .ok f) : Printable f.toList := by
  obtain ⟨cs, written, same⟩ := bind_eq_ok.mp done
  obtain rfl := pure_eq_ok.mp same
  obtain ⟨texts, each, joined⟩ := bind_eq_ok.mp written
  obtain rfl := pure_eq_ok.mp joined
  rw [String.toList_ofList]
  apply Printable.flatten
  intro text inside
  obtain ⟨s, member, step⟩ := mem_of_mapM each inside
  exact Step.write_printable (spelled s (List.mem_reverse.mp member)) step

end ObjectQuery

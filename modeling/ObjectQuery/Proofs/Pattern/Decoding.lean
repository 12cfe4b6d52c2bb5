import ObjectQuery.Proofs.Pattern.PrintableText
import ObjectQuery.Proofs.Pattern.SuppliedLists

/-! What the text of a chain tells. It is cut into the texts of its steps in one way only, and the
text of a step gives all that makes steps equal. This goes for empty ID lists too, which no pattern
string may contain: there is nothing between their brackets, and no other list is written so. -/
namespace ObjectQuery

open Outcome Pattern Grammar

namespace IdList

/-- A list is written between brackets, and there is nothing between them only if it is empty. -/
theorem text_of_write {ids : IdList} {cs : List Char} (filled : ∀ id ∈ ids, id ≠ [])
    (done : write ids = .ok cs) :
    ∃ inner, cs = '[' :: inner ++ [']'] ∧ (ids = [] ∧ inner = [] ∨ InnerText inner ids) := by
  by_cases empty : ids = []
  · subst empty
    exact ⟨[], (Except.ok.inj done).symm, .inl ⟨rfl, rfl⟩⟩
  · have writable := writable_of_write done
    obtain ⟨text, written, spec⟩ :=
      write_text empty fun id member => ⟨filled id member, writable id member⟩
    obtain rfl := Except.ok.inj (written.symm.trans done)
    cases spec with
    | listed inner => exact ⟨_, rfl, .inr inner⟩

/-- Where the text of a list ends can be told from the text, and what is in the list. -/
theorem write_inj {ids others : IdList} {cs ds rest tail : List Char}
    (filled : ∀ id ∈ ids, id ≠ []) (filledToo : ∀ id ∈ others, id ≠ [])
    (done : write ids = .ok cs) (doneToo : write others = .ok ds)
    (same : cs ++ rest = ds ++ tail) : ids = others ∧ rest = tail := by
  obtain ⟨inner, rfl, text⟩ := text_of_write filled done
  obtain ⟨inner', rfl, text'⟩ := text_of_write filledToo doneToo
  have bodies : inner ++ ']' :: rest = inner' ++ ']' :: tail := by simpa using same
  have closed := congrArg (Bracket.close? .before) bodies
  rcases text with ⟨rfl, rfl⟩ | text <;> rcases text' with ⟨rfl, rfl⟩ | text'
  · exact ⟨rfl, by simpa using bodies⟩
  · rw [Bracket.close?_complete text'] at closed
    cases closed
  · rw [Bracket.close?_complete text] at closed
    cases closed
  · rw [Bracket.close?_complete text, Bracket.close?_complete text'] at closed
    obtain ⟨rfl, rfl⟩ := Prod.mk.inj (Option.some.inj closed)
    have values := (read_complete text).symm.trans (read_complete text')
    exact ⟨Except.ok.inj values, rfl⟩

end IdList

theorem Grammar.Follows.mem {marks rest : List Char} {c : Char}
    (follows : Follows marks (c :: rest)) (visible : ¬ Whitespace c) : c ∈ marks :=
  follows c (by rw [skipBlanks_cons visible]; rfl)

namespace Step

theorem relation_follows (down : Bool) (rest : List Char) :
    Follows ['>', '<'] (relationChar down :: rest) := by
  cases down with
  | true => exact .visible (by decide) (by simp [relationChar, Whitespace]) _
  | false => exact .visible (by decide) (by simp [relationChar, Whitespace]) _

theorem mark_follows (matched : Bool) {rest : List Char} (behind : Follows ['>', '<'] rest) :
    Follows ['>', '<', '#'] (markText matched ++ rest) := by
  cases matched with
  | true => exact .visible (by simp) (by simp [Whitespace]) _
  | false => exact behind.mono (by simp)

theorem IdsText.follows {ids : Option IdList} {cs rest : List Char} (text : IdsText ids cs)
    (behind : Follows ['>', '<', '#'] rest) : Follows ['>', '<', '#', '['] (cs ++ rest) := by
  cases text with
  | absent => exact behind.mono (by simp)
  | listed written =>
    obtain ⟨_, _, rfl⟩ := map_eq_ok.mp written
    exact .visible (by simp) (by simp [Whitespace]) _

theorem relationChar_inj {down other : Bool} (same : relationChar down = relationChar other) :
    down = other := by
  revert same
  cases down <;> cases other <;> decide

/-- A mark is told from what comes after the step. -/
theorem mark_inj {m n : Bool} {rest tail : List Char} (behind : Follows ['>', '<'] rest)
    (behindToo : Follows ['>', '<'] tail) (same : markText m ++ rest = markText n ++ tail) :
    m = n ∧ rest = tail := by
  have visible : ¬ Whitespace '#' := by simp [Whitespace]
  cases m <;> cases n
  · exact ⟨rfl, same⟩
  · obtain rfl : rest = '#' :: tail := same
    simpa using behind.mem visible
  · obtain rfl : '#' :: rest = tail := same
    simpa using behindToo.mem visible
  · exact ⟨rfl, (List.cons.inj same).2⟩

theorem ids_inj {ids others : Option IdList} {cs ds rest tail : List Char}
    (filled : ∀ list ∈ ids, ∀ id ∈ list, id ≠ [])
    (filledToo : ∀ list ∈ others, ∀ id ∈ list, id ≠ []) (text : IdsText ids cs)
    (textToo : IdsText others ds) (behind : Follows ['>', '<', '#'] rest)
    (behindToo : Follows ['>', '<', '#'] tail) (same : cs ++ rest = ds ++ tail) :
    ids = others ∧ rest = tail := by
  have visible : ¬ Whitespace '[' := by simp [Whitespace]
  cases text with
  | absent =>
    cases textToo with
    | absent => exact ⟨rfl, same⟩
    | listed written =>
      obtain ⟨_, _, rfl⟩ := map_eq_ok.mp written
      obtain rfl := (List.nil_append rest).symm.trans same
      simpa using behind.mem visible
  | listed written =>
    cases textToo with
    | absent =>
      obtain ⟨_, _, rfl⟩ := map_eq_ok.mp written
      obtain rfl := same.trans (List.nil_append tail)
      simpa using behindToo.mem visible
    | listed writtenToo =>
      obtain ⟨rfl, left⟩ :=
        IdList.write_inj (filled _ rfl) (filledToo _ rfl) written writtenToo same
      exact ⟨rfl, left⟩

theorem name_inj {name other : String} {rest tail : List Char}
    (spelled : Schema.isTypeName name = true) (spelledToo : Schema.isTypeName other = true)
    (behind : Follows ['>', '<', '#', '['] rest) (behindToo : Follows ['>', '<', '#', '['] tail)
    (same : name.toList ++ rest = other.toList ++ tail) : name = other ∧ rest = tail := by
  have cut {name : String} {rest : List Char} (spelled : Schema.isTypeName name = true)
      (behind : Follows ['>', '<', '#', '['] rest) :=
    @span_append Schema.isNameChar name.toList rest
      (fun c member => isNameChar_iff.mpr ((isTypeName_iff.mp spelled).2 c member))
      fun c first => mt isNameChar_iff.mp (behind.not_name (by simp [NameChar]) c first)
  obtain ⟨taken, dropped⟩ := cut spelled behind
  obtain ⟨takenToo, droppedToo⟩ := cut spelledToo behindToo
  rw [← same] at takenToo droppedToo
  exact ⟨String.toList_inj.mp (taken.symm.trans takenToo), dropped.symm.trans droppedToo⟩

/-- What it takes to cut a text behind a step: that the type is named by name characters, and that
IDs have components. -/
structure Legible (s : Step) : Prop where
  spelled : Schema.isTypeName s.type.name = true
  filled : ∀ ids ∈ s.ids, ∀ id ∈ ids, id ≠ []

/-- What makes a step can be told from its text, and where the text ends. -/
theorem write_inj {s t : Step} {cs ds rest tail : List Char} (legible : s.Legible)
    (legibleToo : t.Legible) (done : s.write = .ok cs) (doneToo : t.write = .ok ds)
    (behind : Follows ['>', '<'] rest) (behindToo : Follows ['>', '<'] tail)
    (same : cs ++ rest = ds ++ tail) : s.outline = t.outline ∧ rest = tail := by
  obtain ⟨ids, text, rfl⟩ := parts_of_write done
  obtain ⟨others, textToo, rfl⟩ := parts_of_write doneToo
  simp only [List.cons_append, List.append_assoc] at same
  -- From left to right, each part is cut off where a character follows that it cannot contain.
  obtain ⟨relations, same⟩ := List.cons.inj same
  have marked := mark_follows s.matched behind
  have markedToo := mark_follows t.matched behindToo
  obtain ⟨names, same⟩ := name_inj legible.spelled legibleToo.spelled (text.follows marked)
    (textToo.follows markedToo) same
  obtain ⟨lists, same⟩ :=
    ids_inj legible.filled legibleToo.filled text textToo marked markedToo same
  obtain ⟨marks, same⟩ := mark_inj behind behindToo same
  refine ⟨?_, same⟩
  simp only [outline, relationChar_inj relations, names, lists, marks]

section Steps

variable {l m : List Step} {texts others : List (List Char)}

/-- Each text begins with a relation character. -/
theorem mapM_write_follows (done : l.mapM write = .ok texts) :
    Follows ['>', '<'] texts.flatten ∧ (texts.flatten = [] → l = []) := by
  cases l with
  | nil =>
    obtain rfl : [] = texts := by simpa using done
    exact ⟨by simp [Follows, skipBlanks], fun _ => rfl⟩
  | cons s l =>
    obtain ⟨cs, first, rest, _, rfl⟩ : ∃ cs, s.write = .ok cs ∧ ∃ rest, l.mapM write = .ok rest ∧
        cs :: rest = texts := by simpa using done
    obtain ⟨ids, _, rfl⟩ := parts_of_write first
    exact ⟨relation_follows s.down _, fun none => by simp at none⟩

/-- The texts of steps one after the other tell what makes each of them. -/
theorem mapM_write_inj (legible : ∀ s ∈ l, s.Legible) (legibleToo : ∀ t ∈ m, t.Legible)
    (done : l.mapM write = .ok texts)
    (doneToo : m.mapM write = .ok others) (same : texts.flatten = others.flatten) :
    l.map outline = m.map outline := by
  induction l generalizing m texts others with
  | nil =>
    obtain rfl : [] = texts := by simpa using done
    rw [(mapM_write_follows doneToo).2 same.symm]
  | cons s l ih =>
    cases m with
    | nil =>
      obtain rfl : [] = others := by simpa using doneToo
      cases (mapM_write_follows done).2 same
    | cons t m =>
      obtain ⟨cs, first, rest, later, rfl⟩ : ∃ cs, s.write = .ok cs ∧ ∃ rest,
          l.mapM write = .ok rest ∧ cs :: rest = texts := by simpa using done
      obtain ⟨ds, firstToo, tail, laterToo, rfl⟩ : ∃ ds, t.write = .ok ds ∧ ∃ tail,
          m.mapM write = .ok tail ∧ ds :: tail = others := by simpa using doneToo
      obtain ⟨head, legibleLater⟩ := List.forall_mem_cons.mp legible
      obtain ⟨headToo, legibleLaterToo⟩ := List.forall_mem_cons.mp legibleToo
      obtain ⟨one, left⟩ := write_inj head headToo first firstToo
        (mapM_write_follows later).1 (mapM_write_follows laterToo).1 same
      rw [List.map_cons, List.map_cons, one, ih legibleLater legibleLaterToo later laterToo left]

/-- What makes a step is all that is written of it. -/
theorem mapM_write_congr (same : l.map outline = m.map outline) :
    l.mapM write = m.mapM write := by
  induction l generalizing m with
  | nil =>
    rw [List.map_eq_nil_iff.mp same.symm]
  | cons s l ih =>
    cases m with
    | nil => cases same
    | cons t m =>
      obtain ⟨first, rest⟩ := List.cons.inj same
      simp only [outline, Prod.mk.injEq] at first
      obtain ⟨down, name, ids, matched⟩ := first
      rw [List.mapM_cons, List.mapM_cons, ih rest]
      simp only [write, down, name, ids, matched]

end Steps

end Step

namespace Chain

theorem text_congr {a b : Chain} (same : a.outline = b.outline) : a.text = b.text := by
  have steps : a.steps.reverse.map Step.outline = b.steps.reverse.map Step.outline := by
    rw [List.map_reverse, List.map_reverse]
    exact congrArg List.reverse same
  rw [text, text, write, write, Step.mapM_write_congr steps]

/-- Chains with one text are equal. -/
theorem text_inj {a b : Chain} (legible : ∀ s ∈ a.steps, s.Legible)
    (legibleToo : ∀ s ∈ b.steps, s.Legible) {f : String} (done : a.text = .ok f)
    (doneToo : b.text = .ok f) : a.outline = b.outline := by
  obtain ⟨cs, written, rfl⟩ := map_eq_ok.mp done
  obtain ⟨ds, writtenToo, same⟩ := map_eq_ok.mp doneToo
  obtain rfl := String.ofList_inj.mp same
  obtain ⟨texts, each, rfl⟩ := map_eq_ok.mp written
  obtain ⟨others, eachToo, flat⟩ := map_eq_ok.mp writtenToo
  have steps := Step.mapM_write_inj (fun s inside => legible s (List.mem_reverse.mp inside))
    (fun s inside => legibleToo s (List.mem_reverse.mp inside)) each eachToo flat.symm
  rw [List.map_reverse, List.map_reverse] at steps
  exact List.reverse_inj.mp steps

end Chain

end ObjectQuery

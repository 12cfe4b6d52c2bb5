import ObjectQuery.Pattern.Writing
import ObjectQuery.Proofs.Outcome
import ObjectQuery.Proofs.Pattern.IdListText

/-! The text of a chain belongs to the grammar, and it says there what the steps of the chain say,
as long as there are IDs in every list and all their components can be written. -/
namespace ObjectQuery

open Outcome Pattern Grammar

/-- A component that pattern strings have a text for. -/
def Writable (field : Option String) : Prop :=
  ∃ value, field = some value ∧ ∀ c ∈ value.toList, 0x20 ≤ c.toNat ∧ c.toNat ≤ 0x7e

/-- A step that pattern strings have a text for. -/
def Step.Writable (s : Step) : Prop :=
  ∀ ids ∈ s.ids, ids ≠ [] ∧ ∀ id ∈ ids, ∀ field ∈ id, ObjectQuery.Writable field

theorem Pattern.isPrintable_iff {c : Char} :
    isPrintable c = true ↔ 0x20 ≤ c.toNat ∧ c.toNat ≤ 0x7e := by
  simp [isPrintable, char_le_iff]

namespace Grammar

theorem QuotedTokens.printable {cs field : List Char} (tokens : QuotedTokens cs field) :
    ∀ c ∈ field, isPrintable c = true := by
  induction tokens with
  | none => simp
  | plain plain _ ih => simpa [isPrintable_eq, isPlain_iff.mpr plain] using ih
  | escaped escaped _ ih => simpa [isPrintable_eq, isEscaped_iff.mpr escaped] using ih

theorem FieldText.writable {cs field : List Char} (text : FieldText cs field) :
    Writable (some (String.ofList field)) := by
  refine ⟨String.ofList field, rfl, ?_⟩
  rw [String.toList_ofList]
  intro c member
  cases text with
  | unquoted _ bare =>
    have unquoted := isBare_iff.mpr (bare c member)
    simp [isBare, char_le_iff, char_eq_iff] at unquoted
    omega
  | quoted tokens => exact isPrintable_iff.mp (tokens.printable c member)

theorem IdText.writable {cs : List Char} {id : Id} (text : IdText cs id) :
    ∀ field ∈ id, Writable field := by
  induction text with
  | single field => simpa using field.writable
  | more field _ _ _ ih => simpa using ⟨field.writable, ih⟩

theorem IdListText.writable {cs : List Char} {ids : IdList} (text : IdListText cs ids) :
    ids ≠ [] ∧ ∀ id ∈ ids, ∀ field ∈ id, Writable field := by
  induction text with
  | single id => simpa using id.writable
  | more id _ _ _ ih => simpa using ⟨id.writable, ih.2⟩

end Grammar

namespace IdField

theorem quote_tokens {cs : List Char} (printable : ∀ c ∈ cs, isPrintable c = true) :
    QuotedTokens (cs.flatMap fun c => if isEscaped c then ['\\', c] else [c]) cs := by
  induction cs with
  | nil => exact .none
  | cons c cs ih =>
    have later := ih fun d member => printable d (List.mem_cons_of_mem c member)
    rw [List.flatMap_cons]
    by_cases escaped : isEscaped c = true
    · rw [if_pos escaped]
      exact .escaped (isEscaped_iff.mp escaped) later
    · rw [if_neg escaped]
      have plain : isPlain c = true := by
        simpa [isPrintable_eq, escaped] using printable c List.mem_cons_self
      exact .plain (isPlain_iff.mp plain) later

theorem quote_text {cs : List Char} (printable : ∀ c ∈ cs, isPrintable c = true) :
    FieldText (quote cs) cs := .quoted (quote_tokens printable)

theorem write_text {field : Option String} (writable : Writable field) :
    ∃ cs value, write field = .ok cs ∧ field = some (String.ofList value) ∧ FieldText cs value := by
  obtain ⟨value, rfl, printable⟩ := writable
  have all : ∀ c ∈ value.toList, isPrintable c = true := fun c member =>
    isPrintable_iff.mpr (printable c member)
  by_cases bare : isBareWord value.toList = true
  · refine ⟨value.toList, value.toList, by simp [write, bare], by simp, ?_⟩
    simp only [isBareWord, Bool.and_eq_true, Bool.not_eq_true', List.isEmpty_eq_false_iff,
      List.all_eq_true] at bare
    exact .unquoted bare.1 fun c member => isBare_iff.mp (bare.2 c member)
  · refine ⟨quote value.toList, value.toList, ?_, by simp, quote_text all⟩
    rw [write, if_neg bare, if_pos (List.all_eq_true.mpr all)]

end IdField

/-- Texts that are put together with a separator belong together where each of them does. -/
theorem mapM_intercalate {α ε : Type} {write : α → Except ε (List Char)} {separator : List Char}
    (one : List Char → α → Prop) (several : List Char → List α → Prop)
    (single : ∀ {cs a}, one cs a → several cs [a])
    (more : ∀ {cs a rest others}, one cs a → several rest others →
      several (cs ++ separator ++ rest) (a :: others))
    {l : List α} (each : ∀ a ∈ l, ∃ cs, write a = .ok cs ∧ one cs a) (nonempty : l ≠ []) :
    ∃ text texts, l.mapM write = .ok (text :: texts) ∧
      several (separator.intercalate (text :: texts)) l := by
  induction l with
  | nil => contradiction
  | cons a l ih =>
    obtain ⟨cs, written, text⟩ := each a List.mem_cons_self
    cases l with
    | nil => exact ⟨cs, [], by simp [written], by simpa using single text⟩
    | cons b l =>
      obtain ⟨next, texts, later, rest⟩ :=
        ih (fun x member => each x (List.mem_cons_of_mem a member)) (by simp)
      refine ⟨cs, next :: texts, ?_, ?_⟩
      · rw [List.mapM_cons, written, later]
        rfl
      · rw [List.intercalate_cons_cons]
        exact more text rest

namespace IdList

theorem writeId_text {id : Id} (nonempty : id ≠ []) (writable : ∀ field ∈ id, Writable field) :
    ∃ cs, writeId id = .ok cs ∧ IdText cs id := by
  let one (cs : List Char) (field : Option String) : Prop :=
    ∃ value, field = some (String.ofList value) ∧ FieldText cs value
  have single {cs : List Char} {field : Option String} (first : one cs field) :
      IdText cs [field] := by
    obtain ⟨value, rfl, text⟩ := first
    exact .single text
  have more {cs rest : List Char} {field : Option String} {others : Id} (first : one cs field)
      (later : IdText rest others) : IdText (cs ++ [',', ' '] ++ rest) (field :: others) := by
    obtain ⟨value, rfl, text⟩ := first
    simpa using IdText.more text .nil .space later
  obtain ⟨text, texts, written, joined⟩ := mapM_intercalate one IdText single more
    (fun field member => by
      obtain ⟨cs, value, written, same, text⟩ := IdField.write_text (writable field member)
      exact ⟨cs, written, value, same, text⟩) nonempty
  exact ⟨_, by rw [writeId, written]; rfl, joined⟩

theorem write_text {ids : IdList} (nonempty : ids ≠ [])
    (writable : ∀ id ∈ ids, id ≠ [] ∧ ∀ field ∈ id, Writable field) :
    ∃ cs, write ids = .ok cs ∧ SpecText cs (.listed ids) := by
  have more {cs rest : List Char} {id : Id} {others : IdList} (first : IdText cs id)
      (later : IdListText rest others) : IdListText (cs ++ [';', ' '] ++ rest) (id :: others) := by
    simpa using IdListText.more first .nil .space later
  obtain ⟨text, texts, written, joined⟩ := mapM_intercalate IdText IdListText .single more
    (fun id member => writeId_text (writable id member).1 (writable id member).2) nonempty
  have inner : InnerText ([';', ' '].intercalate (text :: texts)) ids := by
    simpa using InnerText.inner .nil joined .nil
  exact ⟨_, by rw [write, written]; rfl, .listed inner⟩

end IdList

namespace Step

/-- What the text of a step says. -/
def clause (s : Step) : Clause :=
  ⟨s.down, .named s.type.name, s.ids.map .listed, if s.matched then .all else .none⟩

theorem name_text {name : String} (spelled : Schema.isTypeName name = true) :
    TypeText name.toList (.named name) := by
  obtain ⟨nonempty, chars⟩ := isTypeName_iff.mp spelled
  have text := TypeText.named (by simpa using nonempty) chars
  rwa [String.ofList_toList] at text

theorem write_text {s : Step} (spelled : Schema.isTypeName s.type.name = true)
    (filled : ∀ ids ∈ s.ids, ∀ id ∈ ids, id ≠ []) (writable : s.Writable) :
    ∃ cs, s.write = .ok cs ∧ BodyText cs s.clause := by
  have relation : RelationText [if s.down then '>' else '<'] s.down := by
    cases s.down with
    | true => exact .children
    | false => exact .parents
  have mark : OptionalMatch (if s.matched then ['#'] else [])
      (if s.matched then .all else .none) := by
    cases s.matched with
    | true => exact .present .nil .all
    | false => exact .absent
  obtain ⟨cs, spec, written⟩ : ∃ cs, OptionalSpec cs (s.ids.map .listed) ∧
      s.write = .ok ((if s.down then '>' else '<') :: s.type.name.toList ++ cs ++
        if s.matched then ['#'] else []) := by
    unfold write
    cases listed : s.ids with
    | none => exact ⟨[], .absent, rfl⟩
    | some ids =>
      obtain ⟨nonempty, fields⟩ := writable ids listed
      obtain ⟨cs, done, spec⟩ := IdList.write_text nonempty
        fun id member => ⟨filled ids listed id member, fields id member⟩
      exact ⟨cs, .present .nil spec, by simp only [done]; rfl⟩
  refine ⟨_, written, ?_⟩
  simpa [clause] using BodyText.body relation .nil (name_text spelled) spec mark

/-- The texts of steps one after the other are patterns that say what the steps say. -/
theorem mapM_write_text {steps : List Step}
    (each : ∀ s ∈ steps, ∃ cs, s.write = .ok cs ∧ BodyText cs s.clause) :
    ∃ texts patterns, steps.mapM write = .ok texts ∧ Patterns texts.flatten patterns ∧
      patterns.map Placed.clause = steps.map clause := by
  induction steps with
  | nil => exact ⟨[], [], rfl, .none .nil, rfl⟩
  | cons s steps ih =>
    obtain ⟨cs, written, text⟩ := each s List.mem_cons_self
    obtain ⟨texts, patterns, later, valid, clauses⟩ :=
      ih fun t member => each t (List.mem_cons_of_mem s member)
    let placed : Placed := ⟨[], cs, s.clause⟩
    exact ⟨cs :: texts, placed :: patterns, by rw [List.mapM_cons, written, later]; rfl,
      .more (p := placed) ⟨.nil, text⟩ valid, by rw [List.map_cons, clauses]; rfl⟩

end Step

/-- The text of a chain is a pattern string with a clause for each step. -/
theorem Chain.text_derivable {c : Chain}
    (spelled : ∀ s ∈ c.steps, Schema.isTypeName s.type.name = true)
    (filled : ∀ s ∈ c.steps, ∀ ids ∈ s.ids, ∀ id ∈ ids, id ≠ [])
    (writable : ∀ s ∈ c.steps, s.Writable) :
    ∃ f patterns, c.text = .ok f ∧ PatternString f.toList patterns ∧
      patterns.map Placed.clause = c.steps.reverse.map Step.clause := by
  have each : ∀ s ∈ c.steps.reverse, ∃ cs, s.write = .ok cs ∧ BodyText cs s.clause := by
    intro s inside
    have member := List.mem_reverse.mp inside
    exact Step.write_text (spelled s member) (filled s member) (writable s member)
  obtain ⟨texts, patterns, written, valid, clauses⟩ := Step.mapM_write_text each
  have nonempty : patterns ≠ [] := by
    rintro rfl
    simp [steps] at clauses
  refine ⟨String.ofList texts.flatten, patterns, by rw [text, write, written]; rfl, ?_, clauses⟩
  rw [String.toList_ofList]
  exact ⟨valid, nonempty⟩

end ObjectQuery

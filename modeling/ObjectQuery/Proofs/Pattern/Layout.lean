import ObjectQuery.Proofs.Pattern.PrintableText
import ObjectQuery.Proofs.Pattern.SuppliedLists

/-! The layout of written chains. The components of its IDs are all that can keep a chain from
being written, and the first one without a text is told. Around the components stands what the
steps have in common; a component stands in quotes unless it is a word of unquoted characters. -/
namespace ObjectQuery

open Outcome Pattern Grammar

theorem Grammar.QuotedTokens.length_le {cs field : List Char} (tokens : QuotedTokens cs field) :
    field.length ≤ cs.length := by
  induction tokens with
  | none => exact Nat.le_refl 0
  | plain _ _ ih => exact Nat.succ_le_succ ih
  | escaped _ _ ih => exact Nat.succ_le_succ (Nat.le_succ_of_le ih)

namespace IdField

theorem write_eq_error {field : Option String} {fault : PatternFault} :
    write field = .error fault ↔ ¬ Writable field ∧ fault = .unrepresentable field := by
  have named {fault : PatternFault} (failed : write field = .error fault) :
      fault = .unrepresentable field := by
    cases field with
    | none => exact (Except.error.inj failed).symm
    | some value =>
      rw [write] at failed
      split at failed
      · cases failed
      · split at failed
        · cases failed
        · exact (Except.error.inj failed).symm
  constructor
  · intro failed
    refine ⟨fun writable => ?_, named failed⟩
    obtain ⟨cs, _, written, _⟩ := write_text writable
    cases failed.symm.trans written
  · rintro ⟨unwritable, rfl⟩
    cases outcome : write field with
    | ok cs => exact absurd (writable_of_write outcome) unwritable
    | error fault => rw [named outcome]

/-- A word needs no quotes. -/
def IsWord (value : String) : Prop := value ≠ "" ∧ ∀ c ∈ value.toList, UnquotedChar c

/-- The form of a component: a word as it stands, and any other text in quotes. -/
inductive Form : Option String → List Char → Prop
  | bare {value : String} : IsWord value → Form (some value) value.toList
  | quoted {value : String} {cs : List Char} : ¬ IsWord value → QuotedTokens cs value.toList →
      Form (some value) ('"' :: cs ++ ['"'])

theorem isBareWord_iff {value : String} : isBareWord value.toList = true ↔ IsWord value := by
  simp [isBareWord, IsWord, isBare_iff]

theorem form_of_write {field : Option String} {cs : List Char} (done : write field = .ok cs) :
    Form field cs := by
  cases field with
  | none => cases done
  | some value =>
    rw [write] at done
    split at done
    · next word =>
      obtain rfl := Except.ok.inj done
      exact .bare (isBareWord_iff.mp word)
    · next other =>
      split at done
      · next printable =>
        obtain rfl := Except.ok.inj done
        exact .quoted (mt isBareWord_iff.mpr other) (quote_tokens (List.all_eq_true.mp printable))
      · cases done

/-- Quotes make a text longer than the component. -/
theorem Form.bare_iff {value : String} {cs : List Char} (form : Form (some value) cs) :
    cs = value.toList ↔ IsWord value := by
  cases form with
  | bare word => exact ⟨fun _ => word, fun _ => rfl⟩
  | quoted other tokens =>
    refine ⟨fun same => ?_, fun word => absurd word other⟩
    have longer := tokens.length_le
    rw [← same] at longer
    simp only [List.length_append, List.length_cons] at longer
    omega

end IdField

/-- The text of a list when each component is put as given. -/
def IdList.layout (put : Option String → List Char) (ids : IdList) : List Char :=
  '[' :: [';', ' '].intercalate (ids.map fun id => [',', ' '].intercalate (id.map put)) ++ [']']

def Step.layout (put : Option String → List Char) (s : Step) : List Char :=
  relationChar s.down :: s.type.name.toList ++ s.ids.elim [] (IdList.layout put)
    ++ markText s.matched

namespace Chain

def layout (put : Option String → List Char) (c : Chain) : List Char :=
  c.steps.reverse.flatMap (Step.layout put)

/-- The components of all IDs as they are read, from the root to the tip. -/
def components (c : Chain) : List (Option String) :=
  c.steps.reverse.flatMap fun s => (s.ids.getD []).flatten

end Chain

section Faults

theorem IdList.write_fault (ids : IdList) :
    error? (write ids) = ids.flatten.findSome? fun field => error? (IdField.write field) := by
  have each : ∀ id ∈ ids, error? (writeId id) =
      (id : List (Option String)).findSome? fun field => error? (IdField.write field) :=
    fun id _ => (error?_bind_pure (id.mapM IdField.write) _).trans (error?_mapM_single _ id)
  rw [write, error?_bind_pure, error?_mapM each, List.flatMap_id']

theorem Step.write_fault (s : Step) : error? s.write =
    (s.ids.getD []).flatten.findSome? fun field => error? (IdField.write field) := by
  unfold write
  cases s.ids with
  | none => rfl
  | some ids => exact (error?_bind_pure (IdList.write ids) _).trans (IdList.write_fault ids)

theorem Chain.text_fault (c : Chain) :
    error? c.text = c.components.findSome? fun field => error? (IdField.write field) := by
  rw [text, error?_bind_pure, write, error?_bind_pure, error?_mapM fun s _ => s.write_fault]
  rfl

end Faults

section Layout

variable {put : Option String → List Char}

theorem IdList.write_layout {ids : IdList}
    (written : ∀ field ∈ ids.flatten, IdField.write field = .ok (put field)) :
    write ids = .ok (ids.layout put) := by
  have each : ∀ id ∈ ids, writeId id = .ok ([',', ' '].intercalate (id.map put)) := by
    intro id inside
    have fields := mapM_eq_map fun field member =>
      written field (List.mem_flatten.mpr ⟨id, inside, member⟩)
    rw [writeId, fields]
    rfl
  rw [write, mapM_eq_map each]
  rfl

theorem Step.write_layout {s : Step}
    (written : ∀ field ∈ (s.ids.getD []).flatten, IdField.write field = .ok (put field)) :
    s.write = .ok (s.layout put) := by
  unfold write layout
  cases listed : s.ids with
  | none => rfl
  | some ids =>
    rw [listed] at written
    have done : IdList.write ids = .ok (ids.layout put) := IdList.write_layout written
    simp only [done]
    rfl

theorem Chain.text_layout {c : Chain}
    (written : ∀ field ∈ c.components, IdField.write field = .ok (put field)) :
    c.text = .ok (String.ofList (c.layout put)) := by
  have each : ∀ s ∈ c.steps.reverse, s.write = .ok (s.layout put) := fun s inside =>
    s.write_layout fun field member => written field (List.mem_flatMap.mpr ⟨s, inside, member⟩)
  rw [text, write, mapM_eq_map each]
  rfl

end Layout

namespace Chain

/-- A chain has a text unless a component of its IDs is missing or not printable, and is refused for
the first such component. In the text, exactly the words among the components stand as they are. -/
theorem text_by_components (c : Chain) :
    ((∃ fault, c.text = .error fault) ↔ ∃ field ∈ c.components, ¬ Writable field) ∧
    (∀ fault, c.text = .error fault ↔ ∃ before field after,
      c.components = before ++ field :: after ∧ (∀ other ∈ before, Writable other) ∧
        ¬ Writable field ∧ fault = .unrepresentable field) ∧
    ∀ f, c.text = .ok f → ∃ put, f.toList = c.layout put ∧
      ∀ value, some value ∈ c.components → IdField.Form (some value) (put (some value)) ∧
        (put (some value) = value.toList ↔ IdField.IsWord value) := by
  have faults (field : Option String) (fault : PatternFault) :
      error? (IdField.write field) = some fault ↔
        ¬ Writable field ∧ fault = .unrepresentable field :=
    error?_eq_some.trans IdField.write_eq_error
  have passed : (∃ f, c.text = .ok f) ↔ ∀ field ∈ c.components, Writable field := by
    rw [← error?_eq_none, c.text_fault, findSome?_faultless faults]
  have refused (fault : PatternFault) : c.text = .error fault ↔ ∃ before field after,
      c.components = before ++ field :: after ∧ (∀ other ∈ before, Writable other) ∧
        ¬ Writable field ∧ fault = .unrepresentable field := by
    rw [← error?_eq_some, c.text_fault, findSome?_first faults]
  refine ⟨⟨?_, ?_⟩, refused, fun f done => ?_⟩
  · rintro ⟨fault, failed⟩
    obtain ⟨before, field, after, split, _, unwritable, _⟩ := (refused fault).mp failed
    exact ⟨field, by simp [split], unwritable⟩
  · rintro ⟨field, member, unwritable⟩
    cases outcome : c.text with
    | ok f => exact absurd (passed.mp ⟨f, outcome⟩ field member) unwritable
    | error fault => exact ⟨fault, rfl⟩
  · let put (field : Option String) : List Char := (IdField.write field).toOption.getD []
    have written : ∀ field ∈ c.components, IdField.write field = .ok (put field) := by
      intro field member
      obtain ⟨cs, _, done, _⟩ := IdField.write_text (passed.mp ⟨f, done⟩ field member)
      simp [put, done, Except.toOption]
    refine ⟨put, ?_, fun value member => ?_⟩
    · rw [← Except.ok.inj ((text_layout written).symm.trans done), String.toList_ofList]
    · have form := IdField.form_of_write (written (some value) member)
      exact ⟨form, form.bare_iff⟩

/-- A word and a text with a blank, and components of which two have no text. The one that comes
first is told, not the one that is missing. -/
theorem text_by_components_of_reports : ∃ reports type, Report.schema = .ok reports ∧
    reports.type? "revision" = some type ∧
    Chain.text ⟨⟨true, type, some [[some "a", some "b c"]], true⟩, []⟩ =
      .ok ">revision[a, \"b c\"]#" ∧
    (∃ put, ">revision[a, \"b c\"]#".toList =
        Chain.layout put ⟨⟨true, type, some [[some "a", some "b c"]], true⟩, []⟩ ∧
      put (some "a") = "a".toList ∧ put (some "b c") ≠ "b c".toList) ∧
    Chain.text ⟨⟨true, type, some [[some "a", some "é"], [none, some "b"]], true⟩, []⟩ =
      .error (.unrepresentable (some "é")) := by
  have run : (do
      let reports ← Report.schema.toOption
      let type ← reports.type? "revision"
      Chain.text ⟨⟨true, type, some [[some "a", some "b c"]], true⟩, []⟩ |>.toOption) =
      some ">revision[a, \"b c\"]#" := by
    decide +kernel
  simp only [Option.bind_eq_bind, Option.bind_eq_some_iff, toOption_eq_some] at run
  obtain ⟨reports, accepted, type, found, written⟩ := run
  refine ⟨reports, type, accepted, found, written, ?_, ?_⟩
  · obtain ⟨put, laidOut, forms⟩ := (text_by_components _).2.2 _ written
    obtain ⟨_, word⟩ := forms "a" (by simp [components, steps])
    obtain ⟨_, other⟩ := forms "b c" (by simp [components, steps])
    refine ⟨put, laidOut, word.mpr (IdField.isBareWord_iff.mp (by decide)), fun bare => ?_⟩
    have unquoted := IdField.isBareWord_iff.mpr (other.mp bare)
    revert unquoted
    decide
  · refine ((text_by_components _).2.1 _).mpr
      ⟨[some "a"], some "é", [none, some "b"], rfl, ?_, ?_, rfl⟩
    · simpa using ⟨"a", rfl, by simp⟩
    · rintro ⟨_, same, printable⟩
      obtain rfl := Option.some.inj same
      simp at printable

end Chain

end ObjectQuery

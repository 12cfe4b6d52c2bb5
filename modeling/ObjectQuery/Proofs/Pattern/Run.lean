import ObjectQuery.Proofs.Pattern.Evaluation

/-! Runs of clauses. What clauses come to depends neither on where in a text they stand, nor on the
supplied ID lists that are left over behind them. -/
namespace ObjectQuery

open Outcome Pattern Grammar

namespace Grammar

variable {schema : Schema} {text : String} {lists left : Option (List IdList)}
  {ids : Option IdList} {clauses : List Clause} {frontier grown : List Chain}

/-- A clause has its ID list from the supplied ones, or leaves them as they are. -/
inductive Draws : Option Source → Option (List IdList) → Option IdList → Option (List IdList) → Prop
  | absent {lists : Option (List IdList)} : Draws none lists none lists
  | listed {lists : Option (List IdList)} {ids : IdList} :
      Draws (some (.listed ids)) lists (some ids) lists
  | placeholder {ids : IdList} {left : List IdList} :
      Draws (some .placeholder) (some (ids :: left)) (some ids) (some left)

@[simp] theorem draws_absent : Draws none lists ids left ↔ ids = none ∧ left = lists := by
  constructor
  · rintro ⟨⟩
    exact ⟨rfl, rfl⟩
  · rintro ⟨rfl, rfl⟩
    exact .absent

@[simp] theorem draws_listed {own : IdList} :
    Draws (some (.listed own)) lists ids left ↔ ids = some own ∧ left = lists := by
  constructor
  · rintro ⟨⟩
    exact ⟨rfl, rfl⟩
  · rintro ⟨rfl, rfl⟩
    exact .listed

@[simp] theorem draws_placeholder {first : IdList} {list : List IdList} :
    Draws (some .placeholder) (some (first :: list)) ids left ↔
      ids = some first ∧ left = some list := by
  constructor
  · rintro ⟨⟩
    exact ⟨rfl, rfl⟩
  · rintro ⟨rfl, rfl⟩
    exact .placeholder

/-- A clause without a placeholder has the same list whatever is supplied. -/
theorem exists_draws_other {source : Option Source} (other : source ≠ some .placeholder) :
    ∃ own, ∀ lists ids left, Draws source lists ids left ↔ ids = own ∧ left = lists := by
  rcases source with _ | _ | own
  · exact ⟨none, fun _ _ _ => draws_absent⟩
  · contradiction
  · exact ⟨some own, fun _ _ _ => draws_listed⟩

theorem resolve_eq_ok {position : Nat} {source : Option Source} :
    resolve position lists source = .ok (ids, left) ↔ Draws source lists ids left := by
  constructor
  · intro done
    unfold resolve at done
    split at done
    · obtain ⟨rfl, rfl⟩ := Prod.mk.inj (Except.ok.inj done)
      exact .absent
    · obtain ⟨rfl, rfl⟩ := Prod.mk.inj (Except.ok.inj done)
      exact .listed
    · split at done
      · cases done
      · cases done
      · obtain ⟨rfl, rfl⟩ := Prod.mk.inj (Except.ok.inj done)
        exact .placeholder
  · intro draws
    cases draws <;> rfl

/-- The clauses expand a frontier one after the other, with the ID lists that they draw. -/
inductive Run (schema : Schema) : List Clause → Progress → Progress → Prop
  | done {p : Progress} : Run schema [] p p
  | clause {c : Clause} {clauses : List Clause} {frontier grown : List Chain}
      {lists left : Option (List IdList)} {ids : Option IdList} {last : Progress} :
      Draws c.source lists ids left →
      Chain.expand schema frontier c.down c.target ids c.scope = .ok grown →
      Run schema clauses ⟨grown, left⟩ last → Run schema (c :: clauses) ⟨frontier, lists⟩ last

theorem run_nil {first last : Progress} : Run schema [] first last ↔ last = first := by
  constructor
  · rintro ⟨⟩
    rfl
  · rintro rfl
    exact .done

theorem run_cons {c : Clause} {last : Progress} :
    Run schema (c :: clauses) ⟨frontier, lists⟩ last ↔ ∃ ids left grown,
      Draws c.source lists ids left ∧
      Chain.expand schema frontier c.down c.target ids c.scope = .ok grown ∧
      Run schema clauses ⟨grown, left⟩ last := by
  constructor
  · intro run
    cases run with
    | clause draws expanded run => exact ⟨_, _, _, draws, expanded, run⟩
  · rintro ⟨ids, left, grown, draws, expanded, run⟩
    exact .clause draws expanded run

theorem run_append {front back : List Clause} {first last : Progress} :
    Run schema (front ++ back) first last ↔
      ∃ middle, Run schema front first middle ∧ Run schema back middle last := by
  induction front generalizing first with
  | nil => simp [run_nil]
  | cons c front ih =>
    obtain ⟨frontier, lists⟩ := first
    simp only [List.cons_append, run_cons, ih]
    constructor
    · rintro ⟨ids, left, grown, draws, expanded, middle, earlier, later⟩
      exact ⟨middle, ⟨ids, left, grown, draws, expanded, earlier⟩, later⟩
    · rintro ⟨middle, ⟨ids, left, grown, draws, expanded, earlier⟩, later⟩
      exact ⟨ids, left, grown, draws, expanded, middle, earlier, later⟩

theorem Progress.step_eq_ok {reached next : Progress} {before : List Char} {c : Clause} :
    reached.step schema text (before, c) = .ok next ↔
      ∃ ids, Draws c.source reached.lists ids next.lists ∧
        Chain.expand schema reached.frontier c.down c.target ids c.scope = .ok next.frontier := by
  constructor
  · intro done
    obtain ⟨⟨ids, left⟩, resolved, done⟩ := bind_eq_ok.mp done
    dsimp only at done
    split at done
    · next expanded =>
      obtain rfl := pure_eq_ok.mp done
      exact ⟨ids, resolve_eq_ok.mp resolved, expanded⟩
    · cases done
  · rintro ⟨ids, draws, expanded⟩
    rw [Progress.step, resolve_eq_ok.mpr draws]
    simp only [bind, Except.bind, expanded]
    rfl

/-- Wherever the clauses are placed, their steps succeed along a run of them. -/
theorem foldlM_step_eq_ok {places : List (List Char × Clause)} {reached last : Progress} :
    places.foldlM (Progress.step schema text) reached = .ok last ↔
      Run schema (places.map Prod.snd) reached last := by
  induction places generalizing reached with
  | nil => rw [List.foldlM_nil, pure_eq_ok, List.map_nil, run_nil, eq_comm]
  | cons place places ih =>
    obtain ⟨before, c⟩ := place
    simp only [List.foldlM_cons, bind_eq_ok, ih, List.map_cons]
    constructor
    · rintro ⟨next, step, run⟩
      obtain ⟨ids, draws, expanded⟩ := Progress.step_eq_ok.mp step
      exact .clause draws expanded run
    · intro run
      cases run with
      | clause draws expanded run => exact ⟨_, Progress.step_eq_ok.mpr ⟨_, draws, expanded⟩, run⟩

/-- A text comes to chains along a run of its clauses that leaves no list over. -/
theorem evaluate_eq_ok {patterns : List Placed} {chains : List Chain} :
    evaluate schema text lists patterns = .ok chains ↔
      ∃ left, Run schema (patterns.map Placed.clause) ⟨[], lists⟩ ⟨chains, left⟩ ∧
        ∀ list ∈ left, list = [] := by
  simp only [evaluate, bind_eq_ok, foldlM_step_eq_ok, located_clauses]
  constructor
  · rintro ⟨last, run, finish⟩
    split at finish
    · cases finish
    · next none =>
      obtain rfl := pure_eq_ok.mp finish
      refine ⟨last.lists, run, fun list some => ?_⟩
      cases list with
      | nil => rfl
      | cons ids list => exact absurd some (none ids list)
  · rintro ⟨left, run, none⟩
    refine ⟨_, run, ?_⟩
    split
    · next some => cases none _ some
    · rfl

/-- The number of clauses that take one of the supplied lists. -/
def placeholders (clauses : List Clause) : Nat :=
  clauses.countP fun c => c.source matches some .placeholder

theorem placeholders_own {c : Clause} (own : c.source = some .placeholder) :
    placeholders (c :: clauses) = placeholders clauses + 1 := by
  simp [placeholders, own]

theorem placeholders_other {c : Clause} (other : c.source ≠ some .placeholder) :
    placeholders (c :: clauses) = placeholders clauses := by
  rcases own : c.source with _ | _ | ids
  · simp [placeholders, own]
  · contradiction
  · simp [placeholders, own]

/-- A run draws a list for each of its placeholders, if there are any lists at all. -/
theorem Run.count (run : Run schema clauses ⟨frontier, lists⟩ ⟨grown, left⟩) :
    (lists.getD []).length = placeholders clauses + (left.getD []).length := by
  induction clauses generalizing frontier lists with
  | nil =>
    cases run
    simp [placeholders]
  | cons c clauses ih =>
    obtain ⟨ids, next, _, draws, _, later⟩ := run_cons.mp run
    by_cases own : c.source = some .placeholder
    · rw [own] at draws
      cases draws with
      | placeholder =>
        have rest := ih later
        rw [placeholders_own own]
        simp only [Option.getD_some, List.length_cons] at rest ⊢
        omega
    · obtain ⟨_, passed⟩ := exists_draws_other own
      obtain ⟨_, rfl⟩ := (passed _ _ _).mp draws
      rw [placeholders_other own, ih later]

theorem Run.unsupplied (run : Run schema clauses ⟨frontier, none⟩ ⟨grown, left⟩) :
    left = none := by
  induction clauses generalizing frontier with
  | nil =>
    cases run
    rfl
  | cons c clauses ih =>
    cases run with
    | clause draws _ run =>
      generalize c.source = source at draws
      cases draws with
      | absent => exact ih run
      | listed => exact ih run

/-- A run draws a list for each of its placeholders, and does not look at those behind. -/
theorem Run.supplied {list : List IdList}
    (run : Run schema clauses ⟨frontier, some list⟩ ⟨grown, left⟩) :
    ∃ drawn rest, list = drawn ++ rest ∧ drawn.length = placeholders clauses ∧
      left = some rest ∧
      ∀ other, Run schema clauses ⟨frontier, some (drawn ++ other)⟩ ⟨grown, some other⟩ := by
  -- Only a placeholder changes the lists, so what is drawn grows from behind.
  induction clauses generalizing frontier list with
  | nil =>
    cases run
    exact ⟨[], list, rfl, rfl, rfl, fun _ => .done⟩
  | cons c clauses ih =>
    obtain ⟨ids, next, _, draws, expanded, later⟩ := run_cons.mp run
    by_cases own : c.source = some .placeholder
    · rw [own] at draws
      cases draws with
      | @placeholder ids _ =>
        obtain ⟨drawn, rest, split, count, behind, reframed⟩ := ih later
        refine ⟨ids :: drawn, rest, by simp [split], by simp [placeholders_own own, count], behind,
          fun other => ?_⟩
        exact .clause (own ▸ .placeholder) expanded (reframed other)
    · obtain ⟨_, passed⟩ := exists_draws_other own
      obtain ⟨rfl, rfl⟩ := (passed _ _ _).mp draws
      obtain ⟨drawn, rest, split, count, behind, reframed⟩ := ih later
      refine ⟨drawn, rest, split, by rw [placeholders_other own, count], behind, fun other => ?_⟩
      exact .clause ((passed _ _ _).mpr ⟨rfl, rfl⟩) expanded (reframed other)

/-- A run goes through with as many lists as it has placeholders. -/
theorem Run.cut {last : Progress} (run : Run schema clauses ⟨frontier, lists⟩ last) :
    ∃ left, Run schema clauses ⟨frontier, lists.map (List.take (placeholders clauses))⟩
      ⟨last.frontier, left⟩ ∧ ∀ list ∈ left, list = [] := by
  cases lists with
  | none =>
    obtain ⟨grown, left⟩ := last
    obtain rfl := run.unsupplied
    exact ⟨none, run, by simp⟩
  | some list =>
    obtain ⟨drawn, rest, rfl, count, _, reframed⟩ := run.supplied
    refine ⟨some [], ?_, by simp⟩
    rw [Option.map_some, ← count, List.take_left]
    simpa using reframed []

theorem evaluate_none_eq_ok {patterns : List Placed} {chains : List Chain} :
    evaluate schema text none patterns = .ok chains ↔
      Run schema (patterns.map Placed.clause) ⟨[], none⟩ ⟨chains, none⟩ := by
  rw [evaluate_eq_ok]
  constructor
  · rintro ⟨left, run, _⟩
    obtain rfl := run.unsupplied
    exact run
  · exact fun run => ⟨none, run, by simp⟩

theorem evaluate_some_eq_ok {patterns : List Placed} {chains : List Chain} {list : List IdList} :
    evaluate schema text (some list) patterns = .ok chains ↔
      Run schema (patterns.map Placed.clause) ⟨[], some list⟩ ⟨chains, some []⟩ := by
  rw [evaluate_eq_ok]
  constructor
  · rintro ⟨left, run, nothing⟩
    obtain ⟨_, rest, _, _, rfl, _⟩ := run.supplied
    obtain rfl := nothing rest rfl
    exact run
  · exact fun run => ⟨some [], run, by simp⟩

/-- What comes to chains has as many placeholders as lists. -/
theorem placeholders_of_evaluate {patterns : List Placed} {chains : List Chain}
    {list : List IdList} (done : evaluate schema text (some list) patterns = .ok chains) :
    placeholders (patterns.map Placed.clause) = list.length := by
  simpa using (evaluate_some_eq_ok.mp done).count.symm

end Grammar

/-- Specifications that go through are a run of the clauses that they mean. -/
theorem Reading.run_of_fold {schema : Schema} {specifications : List Specification}
    {clauses : List Clause} (means : List.Forall₂ Specification.Means specifications clauses)
    {r last : Reading} (done : specifications.foldlM (step schema) r = .ok last) :
    Run schema clauses ⟨r.frontier, r.lists⟩ ⟨last.frontier, last.lists⟩ := by
  induction means generalizing r with
  | nil =>
    obtain rfl : r = last := by simpa using done
    exact .done
  | @cons s c specifications clauses first _ ih =>
    obtain ⟨next, here, later⟩ : ∃ next, step schema r s = .ok next ∧
        specifications.foldlM (step schema) next = .ok last := by simpa using done
    obtain ⟨ids, left, grown, resolved, expanded, rfl⟩ := step_eq_ok.mp here
    rw [first.ids.resolve] at resolved
    rw [first.down, first.target, first.scope] at expanded
    exact .clause (resolve_eq_ok.mp resolved) expanded (ih later)

end ObjectQuery

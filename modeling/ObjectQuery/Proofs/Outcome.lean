/-! Computations that may fail: what follows when a sequence of them succeeds. -/
namespace ObjectQuery.Outcome
variable {ε α β : Type}

@[simp] theorem bind_eq_ok {x : Except ε α} {f : α → Except ε β} {b : β} :
    (x >>= f) = .ok b ↔ ∃ a, x = .ok a ∧ f a = .ok b := by
  cases x <;> simp [bind, Except.bind]

theorem bind_eq_error {x : Except ε α} {f : α → Except ε β} {e : ε} :
    (x >>= f) = .error e ↔ x = .error e ∨ ∃ a, x = .ok a ∧ f a = .error e := by
  cases x <;> simp [bind, Except.bind]

@[simp] theorem pure_eq_ok {a b : α} : (pure a : Except ε α) = .ok b ↔ a = b := by
  simp [pure, Except.pure]

@[simp] theorem throw_ne_ok {e : ε} {a : α} : (throw e : Except ε α) ≠ .ok a := by
  simp [throw, throwThe, MonadExceptOf.throw]

@[simp] theorem map_eq_ok {x : Except ε α} {f : α → β} {b : β} :
    (f <$> x) = .ok b ↔ ∃ a, x = .ok a ∧ f a = b := by
  cases x <;> simp [Functor.map, Except.map]

@[simp] theorem exceptMap_eq_ok {x : Except ε α} {f : α → β} {b : β} :
    x.map f = .ok b ↔ ∃ a, x = .ok a ∧ f a = b := map_eq_ok

@[simp] theorem toOption_eq_some {x : Except ε α} {a : α} : x.toOption = some a ↔ x = .ok a := by
  cases x <;> simp [Except.toOption]

/-- What a computation fails with. -/
def error? : Except ε α → Option ε
  | .ok _ => none
  | .error e => some e

@[simp] theorem error?_eq_some {x : Except ε α} {e : ε} : error? x = some e ↔ x = .error e := by
  cases x <;> simp [error?]

theorem error?_eq_none {x : Except ε α} : error? x = none ↔ ∃ a, x = .ok a := by
  cases x <;> simp [error?]

theorem error?_bind_pure (x : Except ε α) (f : α → β) :
    error? (x >>= fun a => pure (f a)) = error? x := by
  cases x <;> rfl

/-- A list of computations succeeds where each of them does. -/
theorem mapM_eq_ok {f : α → Except ε β} {l : List α} {bs : List β} :
    l.mapM f = .ok bs ↔ l.map f = bs.map .ok := by
  induction l generalizing bs with
  | nil => cases bs <;> simp
  | cons a l ih => cases bs <;> simp [ih]

theorem mapM_eq_map {f : α → Except ε β} {g : α → β} {l : List α}
    (each : ∀ a ∈ l, f a = .ok (g a)) : l.mapM f = .ok (l.map g) := by
  rw [mapM_eq_ok, List.map_map]
  exact List.map_congr_left each

theorem mem_of_mapM {f : α → Except ε β} {l : List α} {bs : List β} (done : l.mapM f = .ok bs)
    {b : β} (member : b ∈ bs) : ∃ a ∈ l, f a = .ok b := by
  have image : (.ok b : Except ε β) ∈ l.map f := by
    rw [mapM_eq_ok.mp done]
    exact List.mem_map_of_mem member
  exact List.mem_map.mp image

theorem ok_of_mapM {f : α → Except ε β} {l : List α} {bs : List β} (done : l.mapM f = .ok bs)
    {a : α} (member : a ∈ l) : ∃ b ∈ bs, f a = .ok b := by
  have image : f a ∈ bs.map .ok := by
    rw [← mapM_eq_ok.mp done]
    exact List.mem_map_of_mem member
  obtain ⟨b, inside, same⟩ := List.mem_map.mp image
  exact ⟨b, inside, same.symm⟩

theorem mapM_ok_iff {f : α → Except ε β} {l : List α} :
    (∃ bs, l.mapM f = .ok bs) ↔ ∀ a ∈ l, ∃ b, f a = .ok b := by
  constructor
  · rintro ⟨bs, done⟩ a member
    obtain ⟨b, _, same⟩ := ok_of_mapM done member
    exact ⟨b, same⟩
  · intro each
    induction l with
    | nil => exact ⟨[], rfl⟩
    | cons a l ih =>
      obtain ⟨b, first⟩ := each a List.mem_cons_self
      obtain ⟨bs, rest⟩ := ih fun x member => each x (List.mem_cons_of_mem a member)
      exact ⟨b :: bs, by simp [first, rest]⟩

/-- What is done to each result alone can be done to all of them in the end. -/
theorem mapM_pure {γ : Type} (f : α → Except ε β) (g : β → γ) (l : List α) :
    l.mapM (fun a => do pure (g (← f a))) = (do pure ((← l.mapM f).map g)) := by
  induction l with
  | nil => rfl
  | cons a l ih =>
    rw [List.mapM_cons, List.mapM_cons, ih]
    cases f a with
    | error => rfl
    | ok b =>
      cases l.mapM f with
      | error => rfl
      | ok bs => rfl

theorem some_of_mapM {f : α → Option β} {l : List α} {bs : List β} (done : l.mapM f = some bs)
    {b : β} (member : b ∈ bs) : ∃ a ∈ l, f a = some b := by
  induction l generalizing bs with
  | nil =>
    obtain rfl : [] = bs := by simpa using done
    cases member
  | cons a l ih =>
    obtain ⟨first, found, rest, later, rfl⟩ : ∃ first, f a = some first ∧ ∃ rest,
        l.mapM f = some rest ∧ first :: rest = bs := by
      simpa [List.mapM_cons, Option.bind_eq_some_iff] using done
    rcases List.mem_cons.mp member with rfl | member
    · exact ⟨a, List.mem_cons_self, found⟩
    · obtain ⟨x, inside, same⟩ := ih later member
      exact ⟨x, List.mem_cons_of_mem a inside, same⟩

theorem mapM_self {m : Type → Type} [Monad m] [LawfulMonad m] {f : α → m α} {l : List α}
    (each : ∀ a ∈ l, f a = pure a) : l.mapM f = pure l := by
  induction l with
  | nil => exact List.mapM_nil
  | cons a l ih =>
    obtain ⟨first, others⟩ := List.forall_mem_cons.mp each
    rw [List.mapM_cons, first, pure_bind, ih others, pure_bind]

/-- What is known of each result by its argument holds along the whole list. -/
theorem map_of_mapM {γ : Type} {f : α → Except ε β} {g : β → γ} {h : α → γ} {l : List α}
    {bs : List β} (each : ∀ a ∈ l, ∀ b, f a = .ok b → g b = h a) (done : l.mapM f = .ok bs) :
    bs.map g = l.map h := by
  induction l generalizing bs with
  | nil =>
    obtain rfl : [] = bs := by simpa using done
    rfl
  | cons a l ih =>
    obtain ⟨b, first, rest, later, rfl⟩ : ∃ b, f a = .ok b ∧ ∃ rest, l.mapM f = .ok rest ∧
        b :: rest = bs := by simpa using done
    have tail := ih (fun x inside => each x (List.mem_cons_of_mem a inside)) later
    rw [List.map_cons, List.map_cons, each a List.mem_cons_self b first, tail]

/-- A list of computations fails with the first of them that does. -/
theorem error_of_mapM {f : α → Except ε β} {l : List α} {e : ε} (failed : l.mapM f = .error e) :
    ∃ before a after, l = before ++ a :: after ∧ (∃ bs, before.mapM f = .ok bs) ∧
      f a = .error e := by
  induction l with
  | nil => cases failed
  | cons x l ih =>
    rw [List.mapM_cons] at failed
    cases first : f x with
    | error fault =>
      rw [first] at failed
      obtain rfl : fault = e := Except.error.inj failed
      exact ⟨[], x, l, rfl, ⟨[], rfl⟩, first⟩
    | ok b =>
      rw [first] at failed
      cases rest : l.mapM f with
      | ok bs =>
        rw [rest] at failed
        cases failed
      | error fault =>
        rw [rest] at failed
        obtain rfl : fault = e := Except.error.inj failed
        obtain ⟨before, a, after, rfl, ⟨bs, done⟩, here⟩ := ih rest
        refine ⟨x :: before, a, after, rfl, ⟨b :: bs, ?_⟩, here⟩
        rw [List.mapM_cons, first, done]
        rfl

/-- Where each computation goes through items and fails with the first faulty one, a list of them
goes through all their items. -/
theorem error?_mapM {ι : Type} {f : α → Except ε β} {items : α → List ι} {fault : ι → Option ε}
    {l : List α} (each : ∀ a ∈ l, error? (f a) = (items a).findSome? fault) :
    error? (l.mapM f) = (l.flatMap items).findSome? fault := by
  induction l with
  | nil => rfl
  | cons a l ih =>
    have first := each a List.mem_cons_self
    have later := ih fun x inside => each x (List.mem_cons_of_mem a inside)
    rw [List.mapM_cons, List.flatMap_cons, List.findSome?_append, ← first, ← later]
    cases f a with
    | error e => rfl
    | ok b => exact error?_bind_pure (l.mapM f) (b :: ·)

theorem error?_mapM_single (f : α → Except ε β) (l : List α) :
    error? (l.mapM f) = l.findSome? fun a => error? (f a) := by
  have each : ∀ a ∈ l, error? (f a) = [a].findSome? fun a => error? (f a) := by simp
  rw [error?_mapM each, List.flatMap_singleton']

section Faults

variable {ι : Type} {fault? : ι → Option ε} {met : ι → Prop} {fault : ι → ε}
  (each : ∀ i e, fault? i = some e ↔ ¬ met i ∧ e = fault i)
include each

theorem faultless_iff (i : ι) : fault? i = none ↔ met i := by
  rw [Option.eq_none_iff_forall_ne_some]
  constructor
  · intro none
    exact Classical.byContradiction fun unmet =>
      none (fault i) ((each i (fault i)).mpr ⟨unmet, rfl⟩)
  · intro holds e failed
    exact ((each i e).mp failed).1 holds

theorem findSome?_faultless {l : List ι} : l.findSome? fault? = none ↔ ∀ i ∈ l, met i := by
  rw [List.findSome?_eq_none_iff]
  exact forall₂_congr fun i _ => faultless_iff each i

/-- The first item that fails a condition decides, with the items before it meeting it. -/
theorem findSome?_first {l : List ι} {e : ε} :
    l.findSome? fault? = some e ↔ ∃ before i after, l = before ++ i :: after ∧
      (∀ x ∈ before, met x) ∧ ¬ met i ∧ e = fault i := by
  rw [List.findSome?_eq_some_iff]
  constructor
  · rintro ⟨before, i, after, split, failed, passed⟩
    exact ⟨before, i, after, split, fun x member => (faultless_iff each x).mp (passed x member),
      (each i e).mp failed⟩
  · rintro ⟨before, i, after, split, passed, failed⟩
    exact ⟨before, i, after, split, (each i e).mpr failed,
      fun x member => (faultless_iff each x).mpr (passed x member)⟩

end Faults

theorem filterMap_of_mapM {f : α → Except ε β} {g : α → Option β} {l : List α} {bs : List β}
    (each : ∀ a ∈ l, ∀ b, f a = .ok b → g a = some b) (done : l.mapM f = .ok bs) :
    l.filterMap g = bs := by
  have same : bs.map some = l.map g :=
    map_of_mapM (fun a inside b step => (each a inside b step).symm) done
  calc l.filterMap g = (l.map g).filterMap id := by rw [List.filterMap_map]; rfl
    _ = (bs.map some).filterMap id := by rw [same]
    _ = bs := by rw [List.filterMap_map]; simp

/-- What each step of a fold keeps, the whole fold keeps. -/
theorem foldlM_invariant {f : β → α → Except ε β} {l : List α} {b b' : β} (property : β → Prop)
    (preserved : ∀ b a b', property b → f b a = .ok b' → property b') (initial : property b)
    (done : l.foldlM f b = .ok b') : property b' := by
  induction l generalizing b with
  | nil =>
    obtain rfl : b = b' := by simpa using done
    exact initial
  | cons a l ih =>
    obtain ⟨middle, first, rest⟩ : ∃ middle, f b a = .ok middle ∧ l.foldlM f middle = .ok b' := by
      simpa using done
    exact ih (preserved b a middle initial first) rest

/-- A fold fails with the first of its steps that does, where those before it have led. -/
theorem error_of_foldlM {f : β → α → Except ε β} {l : List α} {b : β} {e : ε}
    (failed : l.foldlM f b = .error e) : ∃ before a after reached, l = before ++ a :: after ∧
      before.foldlM f b = .ok reached ∧ f reached a = .error e := by
  induction l generalizing b with
  | nil => cases failed
  | cons a l ih =>
    rw [List.foldlM_cons] at failed
    cases first : f b a with
    | error fault =>
      rw [first] at failed
      exact ⟨[], a, l, b, rfl, rfl, first.trans failed⟩
    | ok next =>
      rw [first] at failed
      obtain ⟨before, x, after, reached, rfl, led, here⟩ := ih failed
      refine ⟨a :: before, x, after, reached, rfl, ?_, here⟩
      rw [List.foldlM_cons, first]
      exact led

end ObjectQuery.Outcome

import ObjectQuery.Json.Reference

/-! The values within a JSON value. A reference leads to one of them or to the whole, and there is
never more within the place it leads to than within the whole. -/
namespace ObjectQuery.Json

mutual

/-- The values within a value, apart from itself. -/
def within : Json → List Json
  | .arr items => withinItems items
  | .obj members => withinMembers members
  | _ => []

def withinItems : List Json → List Json
  | [] => []
  | v :: rest => v :: within v ++ withinItems rest

def withinMembers : List (String × Json) → List Json
  | [] => []
  | (_, v) :: rest => v :: within v ++ withinMembers rest

end

mutual

theorem length_within (v : Json) : v.count = v.within.length + 1 := by
  cases v with
  | arr items => rw [count, within, length_withinItems items]
  | obj members => rw [count, within, length_withinMembers members]
  | _ => rfl

theorem length_withinItems (items : List Json) : countItems items = (withinItems items).length := by
  cases items with
  | nil => rfl
  | cons v rest =>
    simp only [countItems, withinItems, List.cons_append, List.length_cons, List.length_append]
    rw [length_within v, length_withinItems rest]
    omega

theorem length_withinMembers (members : List (String × Json)) :
    countMembers members = (withinMembers members).length := by
  cases members with
  | nil => rfl
  | cons m rest =>
    obtain ⟨name, v⟩ := m
    simp only [countMembers, withinMembers, List.cons_append, List.length_cons, List.length_append]
    rw [length_within v, length_withinMembers rest]
    omega

end

theorem mem_withinItems {w : Json} {items : List Json} :
    w ∈ withinItems items ↔ ∃ v ∈ items, w = v ∨ w ∈ v.within := by
  induction items with
  | nil => simp [withinItems]
  | cons v rest ih => simp [withinItems, ih, or_assoc]

theorem mem_withinMembers {w : Json} {members : List (String × Json)} :
    w ∈ withinMembers members ↔ ∃ m ∈ members, w = m.2 ∨ w ∈ m.2.within := by
  induction members with
  | nil => simp [withinMembers]
  | cons m rest ih => simp [withinMembers, ih, or_assoc]

/-- What holds of an object and of all that is within its members. -/
theorem forall_within_obj {P : Json → Prop} {members : List (String × Json)} :
    (∀ w ∈ obj members :: (obj members).within, P w) ↔
      P (obj members) ∧ ∀ m ∈ members, ∀ w ∈ m.2 :: m.2.within, P w := by
  rw [List.forall_mem_cons]
  apply and_congr_right
  intro _
  constructor
  · intro each m inside w member
    exact each w (mem_withinMembers.mpr ⟨m, inside, List.mem_cons.mp member⟩)
  · intro each w member
    obtain ⟨m, inside, below⟩ := mem_withinMembers.mp member
    exact each m inside w (List.mem_cons.mpr below)

theorem forall_within_arr {P : Json → Prop} {items : List Json} :
    (∀ w ∈ arr items :: (arr items).within, P w) ↔
      P (arr items) ∧ ∀ v ∈ items, ∀ w ∈ v :: v.within, P w := by
  rw [List.forall_mem_cons]
  apply and_congr_right
  intro _
  constructor
  · intro each v inside w member
    exact each w (mem_withinItems.mpr ⟨v, inside, List.mem_cons.mp member⟩)
  · intro each w member
    obtain ⟨v, inside, below⟩ := mem_withinItems.mp member
    exact each v inside w (List.mem_cons.mpr below)

theorem depthItems_le {items : List Json} {n : Nat} :
    depthItems items ≤ n ↔ ∀ v ∈ items, v.depth ≤ n := by
  induction items with
  | nil => simp [depthItems]
  | cons v rest ih => rw [depthItems, Nat.max_le, ih, List.forall_mem_cons]

theorem depthMembers_le {members : List (String × Json)} {n : Nat} :
    depthMembers members ≤ n ↔ ∀ m ∈ members, m.2.depth ≤ n := by
  induction members with
  | nil => simp [depthMembers]
  | cons m rest ih => rw [depthMembers, Nat.max_le, ih, List.forall_mem_cons]

theorem within_subset {v w : Json} (member : w ∈ v.within) : w.within ⊆ v.within := by
  intro x inner
  match v with
  | .arr items =>
    obtain ⟨u, inside, same⟩ := mem_withinItems.mp member
    refine mem_withinItems.mpr ⟨u, inside, .inr ?_⟩
    rcases same with rfl | below
    · exact inner
    · have := List.sizeOf_lt_of_mem inside
      exact within_subset below inner
  | .obj members =>
    obtain ⟨m, inside, same⟩ := mem_withinMembers.mp member
    refine mem_withinMembers.mpr ⟨m, inside, .inr ?_⟩
    rcases same with rfl | below
    · exact inner
    · have := List.sizeOf_lt_of_mem inside
      have : sizeOf m = 1 + sizeOf m.1 + sizeOf m.2 := rfl
      exact within_subset below inner
termination_by sizeOf v

theorem sizeOf_within {v w : Json} (member : w ∈ v.within) : sizeOf w < sizeOf v := by
  match v with
  | .arr items =>
    obtain ⟨u, inside, same⟩ := mem_withinItems.mp member
    have outer := List.sizeOf_lt_of_mem inside
    have whole := Json.arr.sizeOf_spec items
    rcases same with rfl | below
    · omega
    · have inner := sizeOf_within below
      omega
  | .obj members =>
    obtain ⟨m, inside, same⟩ := mem_withinMembers.mp member
    have outer := List.sizeOf_lt_of_mem inside
    have pair : sizeOf m = 1 + sizeOf m.1 + sizeOf m.2 := rfl
    have whole := Json.obj.sizeOf_spec members
    rcases same with rfl | below
    · omega
    · have inner := sizeOf_within below
      omega
termination_by sizeOf v

theorem within_of_member {members : List (String × Json)} {m : String × Json} (inside : m ∈ members)
    {w : Json} (below : w = m.2 ∨ w ∈ m.2.within) : w ∈ (obj members).within :=
  mem_withinMembers.mpr ⟨m, inside, below⟩

theorem within_of_child? {v w : Json} {step : String} (found : v.child? step = some w) :
    w ∈ v.within := by
  cases v with
  | obj members =>
    obtain ⟨front, back, rfl, _⟩ := List.lookup_eq_some_iff.mp found
    exact mem_withinMembers.mpr ⟨(step, w), by simp, .inl rfl⟩
  | arr items =>
    obtain ⟨i, _, here⟩ := Option.bind_eq_some_iff.mp found
    exact mem_withinItems.mpr ⟨w, List.mem_of_getElem? here, .inl rfl⟩
  | _ => cases found

theorem within_of_at? {root target : Json} {reference : String}
    (found : root.at? reference = some target) : target.within ⊆ root.within := by
  have along (steps : List String) (v : Json) (reached : steps.foldlM child? v = some target) :
      target.within ⊆ v.within := by
    induction steps generalizing v with
    | nil =>
      obtain rfl := Option.some.inj reached
      exact List.Subset.refl _
    | cons step steps ih =>
      obtain ⟨w, first, rest⟩ := Option.bind_eq_some_iff.mp reached
      exact List.Subset.trans (ih w rest) (within_subset (within_of_child? first))
  unfold at? at found
  dsimp only at found
  split at found
  · obtain ⟨steps, _, reached⟩ := Option.bind_eq_some_iff.mp found
    exact along steps root reached
  · cases found

/-- The reference to the whole document. -/
theorem at?_root (root : Json) : root.at? "#" = some root := rfl

end ObjectQuery.Json

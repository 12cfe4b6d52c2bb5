import Mathlib.Data.List.Induction
import Mathlib.Data.List.Nodup
import ObjectQuery.Proofs.Schema.Accepted

/-! Objects that are put together from a list of members. Their members come in the order of the
names, and under each name stands its last value. -/
namespace ObjectQuery.Json

theorem lookup_placeMember (name key : String) (value : Json) (l : List (String × Json)) :
    (placeMember name value l).lookup key = if key = name then some value else l.lookup key := by
  induction l with
  | nil => exact Table.lookup_cons_if name key value []
  | cons e rest ih =>
    obtain ⟨n, v⟩ := e
    rw [placeMember]
    by_cases known : n = name
    · subst known
      rw [if_pos rfl, Table.lookup_cons_if, Table.lookup_cons_if]
      split <;> rfl
    · rw [if_neg known]
      by_cases before : name < n
      · rw [if_pos before, Table.lookup_cons_if]
      · rw [if_neg before, Table.lookup_cons_if, ih, Table.lookup_cons_if]
        by_cases same : key = n
        · rw [if_pos same, if_pos same, if_neg (fun again => known (same.symm.trans again))]
        · rw [if_neg same, if_neg same]

theorem placeMember_nil (name : String) (value : Json) :
    placeMember name value [] = [(name, value)] := rfl

theorem placeMember_first {name n : String} (other : n ≠ name) (before : name < n)
    (value v : Json) (rest : List (String × Json)) :
    placeMember name value ((n, v) :: rest) = (name, value) :: (n, v) :: rest := by
  rw [placeMember, if_neg other, if_pos before]

theorem placeMember_later {name n : String} (other : n ≠ name) (behind : ¬ name < n)
    (value v : Json) (rest : List (String × Json)) :
    placeMember name value ((n, v) :: rest) = (n, v) :: placeMember name value rest := by
  rw [placeMember, if_neg other, if_neg behind]

theorem mem_of_placeMember {name : String} {value : Json} {l : List (String × Json)}
    {m : String × Json} (member : m ∈ placeMember name value l) : m = (name, value) ∨ m ∈ l := by
  induction l with
  | nil => exact .inl (by simpa [placeMember] using member)
  | cons e rest ih =>
    rw [placeMember] at member
    split at member
    · next known =>
      rcases List.mem_cons.mp member with rfl | later
      · exact .inl (by rw [← known])
      · exact .inr (List.mem_cons_of_mem e later)
    · split at member
      · rcases List.mem_cons.mp member with rfl | later
        · exact .inl rfl
        · exact .inr later
      · rcases List.mem_cons.mp member with rfl | later
        · exact .inr List.mem_cons_self
        · exact (ih later).imp_right (List.mem_cons_of_mem e)

/-- The members of an object that is put together. -/
def placed (l : List (String × Json)) : List (String × Json) :=
  l.foldl (fun sorted m => placeMember m.1 m.2 sorted) []

theorem object_eq (l : List (String × Json)) : object l = .obj (placed l) := rfl

theorem placed_snoc (l : List (String × Json)) (m : String × Json) :
    placed (l ++ [m]) = placeMember m.1 m.2 (placed l) := List.foldl_append

theorem lookup_placed (l : List (String × Json)) (key : String) :
    (placed l).lookup key = l.reverse.lookup key := by
  induction l using List.reverseRecOn with
  | nil => rfl
  | append_singleton l m ih =>
    rw [placed_snoc, lookup_placeMember, ih, List.reverse_append, List.reverse_singleton,
      List.singleton_append, Table.lookup_cons_if]

theorem mem_of_placed {l : List (String × Json)} {m : String × Json} (member : m ∈ placed l) :
    m ∈ l := by
  induction l using List.reverseRecOn with
  | nil => cases member
  | append_singleton l x ih =>
    rw [placed_snoc] at member
    rcases mem_of_placeMember member with rfl | earlier
    · exact List.mem_append_right l List.mem_cons_self
    · exact List.mem_append_left [x] (ih earlier)

/-- Where no name is given twice, under each name stands what it is put together from. -/
theorem lookup_placed_of_distinct {l : List (String × Json)} (distinct : (l.map Prod.fst).Nodup)
    (key : String) : (placed l).lookup key = l.lookup key := by
  have turned : (l.reverse.map Prod.fst).Nodup := by
    rw [List.map_reverse]
    exact List.nodup_reverse.mpr distinct
  refine Option.ext fun value => ?_
  rw [lookup_placed, Table.lookup_iff turned, Table.lookup_iff distinct, List.mem_reverse]

theorem placeMember_last {name : String} (value : Json) {l : List (String × Json)}
    (before : ∀ m ∈ l, m.1 < name) : placeMember name value l = l ++ [(name, value)] := by
  induction l with
  | nil => rfl
  | cons m rest ih =>
    obtain ⟨n, v⟩ := m
    obtain ⟨first, others⟩ := List.forall_mem_cons.mp before
    have other : n ≠ name := by
      rintro rfl
      exact String.lt_irrefl n first
    have behind : ¬ name < n := fun again => String.lt_irrefl n (String.lt_trans first again)
    rw [placeMember_later other behind, ih others, List.cons_append]

/-- Members in the order of their names stay as they are. -/
theorem placed_of_ordered {l : List (String × Json)}
    (ordered : (l.map Prod.fst).Pairwise (· < ·)) : placed l = l := by
  induction l using List.reverseRecOn with
  | nil => rfl
  | append_singleton l m ih =>
    rw [List.map_append, List.pairwise_append] at ordered
    obtain ⟨earlier, _, before⟩ := ordered
    rw [placed_snoc, ih earlier]
    apply placeMember_last
    intro x member
    exact before x.1 (List.mem_map_of_mem member) m.1 List.mem_cons_self

end ObjectQuery.Json

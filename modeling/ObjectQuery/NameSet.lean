/-! Sets of names, listed in increasing order. -/
namespace ObjectQuery

structure NameSet where
  names : List String
  sorted : names.Pairwise (· < ·)

namespace NameSet

@[ext] theorem ext {s t : NameSet} (h : s.names = t.names) : s = t := by
  cases s; cases t; cases h; rfl

def empty : NameSet := ⟨[], List.Pairwise.nil⟩

def place (name : String) : List String → List String
  | [] => [name]
  | n :: rest => if name < n then name :: n :: rest
    else if n = name then n :: rest
    else n :: place name rest

@[simp] theorem mem_place (x name : String) (l : List String) :
    x ∈ place name l ↔ x = name ∨ x ∈ l := by
  induction l with
  | nil => simp [place]
  | cons n rest ih =>
    by_cases before : name < n
    · simp [place, before]
    · by_cases same : n = name
      · subst same; simp [place]
      · simp only [place, before, same, if_false, List.mem_cons, ih]
        constructor
        · rintro (h | h | h) <;> simp [h]
        · rintro (h | h | h) <;> simp [h]

theorem sorted_place (name : String) (l : List String) (h : l.Pairwise (· < ·)) :
    (place name l).Pairwise (· < ·) := by
  induction l with
  | nil => simp [place]
  | cons n rest ih =>
    obtain ⟨first, tail⟩ := List.pairwise_cons.mp h
    by_cases before : name < n
    · simp only [place, before, if_true]
      refine List.pairwise_cons.mpr ⟨?_, h⟩
      intro x hx
      rcases List.mem_cons.mp hx with rfl | hx
      · exact before
      · exact String.lt_trans before (first x hx)
    · by_cases same : n = name
      · rw [place, if_neg before, if_pos same]; exact h
      · simp only [place, before, same, if_false]
        refine List.pairwise_cons.mpr ⟨?_, ih tail⟩
        intro x hx
        rcases (mem_place x name rest).mp hx with rfl | hx
        · exact String.not_le.mp fun le => same (String.le_antisymm (String.not_lt.mp before) le)
        · exact first x hx

def insert (s : NameSet) (name : String) : NameSet :=
  ⟨place name s.names, sorted_place name s.names s.sorted⟩

def ofList (l : List String) : NameSet := l.foldl insert empty

def contains (s : NameSet) (name : String) : Bool := s.names.contains name

end NameSet

end ObjectQuery

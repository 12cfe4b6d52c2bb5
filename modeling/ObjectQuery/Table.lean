/-! Tables keyed by text, in the order in which their keys arrived. A later value under a known
key takes the place of the earlier one, and the key stays where it stands. -/
namespace ObjectQuery

structure Table (α : Type) where
  entries : List (String × α)
  distinct : (entries.map Prod.fst).Nodup

namespace Table
variable {α β : Type}

@[ext] theorem ext {s t : Table α} (h : s.entries = t.entries) : s = t := by
  cases s; cases t; cases h; rfl

def empty : Table α := ⟨[], List.nodup_nil⟩

def keys (t : Table α) : List String := t.entries.map Prod.fst
def values (t : Table α) : List α := t.entries.map Prod.snd
def size (t : Table α) : Nat := t.entries.length
def isEmpty (t : Table α) : Bool := t.entries.isEmpty
def get? (t : Table α) (key : String) : Option α := t.entries.lookup key
def contains (t : Table α) (key : String) : Bool := t.keys.contains key

/-- The entries after a write: the first one under the key changes, or a new one ends the list. -/
def write (key : String) (value : α) : List (String × α) → List (String × α)
  | [] => [(key, value)]
  | (k, v) :: rest => if k = key then (k, value) :: rest else (k, v) :: write key value rest

theorem keys_write (key : String) (value : α) (l : List (String × α)) :
    (write key value l).map Prod.fst =
      if key ∈ l.map Prod.fst then l.map Prod.fst else l.map Prod.fst ++ [key] := by
  induction l with
  | nil => simp [write]
  | cons e rest ih =>
    obtain ⟨k, v⟩ := e
    by_cases same : k = key
    · simp [write, same]
    · have apart : ¬ key = k := fun h => same h.symm
      simp only [write, same, if_false, List.map_cons, ih, List.mem_cons, apart, false_or]
      split <;> rfl

theorem write_distinct (key : String) (value : α) (l : List (String × α))
    (h : (l.map Prod.fst).Nodup) : ((write key value l).map Prod.fst).Nodup := by
  rw [keys_write]
  split
  · exact h
  · next fresh =>
    rw [List.nodup_append]
    refine ⟨h, by simp, ?_⟩
    intro a ha b hb eq
    simp only [List.mem_singleton] at hb
    exact fresh (by rw [← hb, ← eq]; exact ha)

def insert (t : Table α) (key : String) (value : α) : Table α :=
  ⟨write key value t.entries, write_distinct key value t.entries t.distinct⟩

def ofList (l : List (String × α)) : Table α := l.foldl (fun t e => t.insert e.1 e.2) empty

/-- The values change and the keys stay. -/
def map (f : α → β) (t : Table α) : Table β :=
  ⟨t.entries.map (fun e => (e.1, f e.2)), by
    have same : (t.entries.map (fun e => (e.1, f e.2))).map Prod.fst = t.entries.map Prod.fst := by
      simp [List.map_map, Function.comp_def]
    rw [same]; exact t.distinct⟩

@[simp] theorem keys_insert (t : Table α) (key : String) (value : α) :
    (t.insert key value).keys = if key ∈ t.keys then t.keys else t.keys ++ [key] :=
  keys_write key value t.entries

@[simp] theorem keys_map (f : α → β) (t : Table α) : (t.map f).keys = t.keys := by
  simp [keys, map, List.map_map, Function.comp_def]

end Table

instance {α : Type} : Inhabited (Table α) := ⟨Table.empty⟩

end ObjectQuery

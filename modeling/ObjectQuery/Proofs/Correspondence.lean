import ObjectQuery.Proofs.Outcome
import Mathlib.Data.List.Perm.Basic

/-! Two computations side by side. Their lists hold members that belong together one by one, and
their outcomes are either two results that belong together or two faults. Everything is said twice
at once: where `ordered` holds, lists stand in the same order and faults are the same; where it does
not, lists may be rearranged, and any fault goes with any other. -/
namespace ObjectQuery

open Outcome

variable {α β γ δ ε : Type} {ordered : Prop}

/-- Each member of the one list belongs to one of the other. -/
def Matched (ordered : Prop) (R : α → β → Prop) (l : List α) (m : List β) : Prop :=
  ∃ k, List.Forall₂ R l k ∧ k.Perm m ∧ (ordered → k = m)

namespace Matched

variable {R : α → β → Prop} {S : γ → δ → Prop} {l : List α} {m : List β}

theorem ofForall₂ (each : List.Forall₂ R l m) : Matched ordered R l m :=
  ⟨m, each, .refl m, fun _ => rfl⟩

theorem refl (l : List α) : Matched ordered Eq l l :=
  .ofForall₂ (List.forall₂_same.mpr fun _ _ => rfl)

theorem nil : Matched ordered R [] [] := .ofForall₂ .nil

theorem single {a : α} {b : β} (first : R a b) : Matched ordered R [a] [b] :=
  .ofForall₂ (.cons first .nil)

theorem length_eq (matched : Matched ordered R l m) : l.length = m.length := by
  obtain ⟨k, each, perm, _⟩ := matched
  exact each.length_eq.trans perm.length_eq

theorem eq_nil_iff (matched : Matched ordered R l m) : l = [] ↔ m = [] := by
  rw [← List.length_eq_zero_iff, ← List.length_eq_zero_iff, matched.length_eq]

theorem isEmpty_eq (matched : Matched ordered R l m) : l.isEmpty = m.isEmpty := by
  rw [Bool.eq_iff_iff, List.isEmpty_iff, List.isEmpty_iff]
  exact matched.eq_nil_iff

theorem imp {T : α → β → Prop} (matched : Matched ordered R l m)
    (more : ∀ a ∈ l, ∀ b ∈ m, R a b → T a b) : Matched ordered T l m := by
  obtain ⟨k, each, perm, same⟩ := matched
  refine ⟨k, ?_, perm, same⟩
  have inside : ∀ b ∈ k, b ∈ m := fun b => perm.mem_iff.mp
  clear perm same
  induction each with
  | nil => exact .nil
  | cons first _ ih =>
    refine .cons (more _ List.mem_cons_self _ (inside _ List.mem_cons_self) first) (ih ?_ ?_)
    · intro a member
      exact more a (List.mem_cons_of_mem _ member)
    · intro b member
      exact inside b (List.mem_cons_of_mem _ member)

theorem map (matched : Matched ordered R l m) {f : α → γ} {g : β → δ}
    (each : ∀ a b, R a b → S (f a) (g b)) : Matched ordered S (l.map f) (m.map g) := by
  obtain ⟨k, pairs, perm, same⟩ := matched
  refine ⟨k.map g, ?_, perm.map g, fun exact => by rw [same exact]⟩
  rw [List.forall₂_map_left_iff, List.forall₂_map_right_iff]
  exact pairs.imp each

theorem map_eq (matched : Matched ordered R l m) (exact : ordered) {f : α → γ} {g : β → γ}
    (each : ∀ a b, R a b → f a = g b) : l.map f = m.map g := by
  obtain ⟨k, pairs, _, same⟩ := matched
  obtain rfl := same exact
  rw [← List.forall₂_eq_eq_eq, List.forall₂_map_left_iff, List.forall₂_map_right_iff]
  exact pairs.imp each

theorem filter (matched : Matched ordered R l m) {p : α → Bool} {q : β → Bool}
    (each : ∀ a b, R a b → p a = q b) : Matched ordered R (l.filter p) (m.filter q) := by
  obtain ⟨k, pairs, perm, same⟩ := matched
  refine ⟨k.filter q, ?_, perm.filter q, fun exact => by rw [same exact]⟩
  refine List.rel_filter ?_ pairs
  intro a b related
  simp [each a b related]

theorem append {l' : List α} {m' : List β} (front : Matched ordered R l m)
    (back : Matched ordered R l' m') : Matched ordered R (l ++ l') (m ++ m') := by
  obtain ⟨k, pairs, perm, same⟩ := front
  obtain ⟨k', pairs', perm', same'⟩ := back
  refine ⟨k ++ k', List.rel_append pairs pairs', perm.append perm', ?_⟩
  intro exact
  rw [same exact, same' exact]

theorem flatten {l : List (List α)} {m : List (List β)}
    (matched : Matched ordered (Matched ordered R) l m) :
    Matched ordered R l.flatten m.flatten := by
  obtain ⟨k, pairs, perm, same⟩ := matched
  have first : Matched ordered R l.flatten k.flatten := by
    clear perm same
    induction pairs with
    | nil => exact .nil
    | cons front _ ih => exact front.append ih
  obtain ⟨k', pairs', perm', same'⟩ := first
  refine ⟨k', pairs', perm'.trans perm.flatten, ?_⟩
  intro exact
  rw [same' exact, same exact]

theorem forall_iff (matched : Matched ordered R l m) {p : α → Prop} {q : β → Prop}
    (each : ∀ a b, R a b → (p a ↔ q b)) : (∀ a ∈ l, p a) ↔ ∀ b ∈ m, q b := by
  obtain ⟨k, pairs, perm, same⟩ := matched
  have here : (∀ a ∈ l, p a) ↔ ∀ b ∈ k, q b := by
    clear perm same
    induction pairs with
    | nil => simp
    | cons first _ ih => simp only [List.forall_mem_cons, each _ _ first, ih]
  rw [here]
  exact ⟨fun all b member => all b (perm.mem_iff.mpr member),
    fun all b member => all b (perm.mem_iff.mp member)⟩

theorem exists_of_forall₂ {k : List β} (pairs : List.Forall₂ R l k) {a : α} (member : a ∈ l) :
    ∃ b ∈ k, R a b := by
  induction pairs with
  | nil => cases member
  | cons first _ ih =>
    rcases List.mem_cons.mp member with rfl | later
    · exact ⟨_, List.mem_cons_self, first⟩
    · obtain ⟨b, inside, related⟩ := ih later
      exact ⟨b, List.mem_cons_of_mem _ inside, related⟩

theorem exists_right (matched : Matched ordered R l m) {a : α} (member : a ∈ l) :
    ∃ b ∈ m, R a b := by
  obtain ⟨k, pairs, perm, _⟩ := matched
  obtain ⟨b, inside, related⟩ := exists_of_forall₂ pairs member
  exact ⟨b, perm.mem_iff.mp inside, related⟩

theorem exists_left (matched : Matched ordered R l m) {b : β} (member : b ∈ m) :
    ∃ a ∈ l, R a b := by
  obtain ⟨k, pairs, perm, _⟩ := matched
  exact exists_of_forall₂ (List.Forall₂.flip pairs) (perm.mem_iff.mpr member)

/-- Lists that are known by the same marks belong together by these. -/
theorem ofMarks {f : α → γ} {g : β → γ} (perm : (l.map f).Perm (m.map g))
    (same : ordered → l.map f = m.map g) : Matched ordered (fun a b => f a = g b) l m := by
  have marked (m : List β) : List.Forall₂ (fun c b => c = g b) (m.map g) m :=
    List.forall₂_map_left_iff.mpr (List.forall₂_same.mpr fun b _ => rfl)
  have shared {k : List β} (pairs : List.Forall₂ (fun c b => c = g b) (l.map f) k) :
      List.Forall₂ (fun a b => f a = g b) l k := List.forall₂_map_left_iff.mp pairs
  by_cases exact : ordered
  · exact .ofForall₂ (shared (same exact ▸ marked m))
  · obtain ⟨k, pairs, arranged⟩ := List.perm_comp_forall₂ perm (marked m)
    exact ⟨k, shared pairs, arranged, fun holds => absurd holds exact⟩

end Matched

/-- Results that belong together, or two faults. -/
inductive Abreast (ordered : Prop) (R : α → β → Prop) : Except ε α → Except ε β → Prop
  | ok {a : α} {b : β} : R a b → Abreast ordered R (.ok a) (.ok b)
  | error {e f : ε} : (ordered → e = f) → Abreast ordered R (.error e) (.error f)

namespace Abreast

variable {R : α → β → Prop} {S : γ → δ → Prop} {x : Except ε α} {y : Except ε β}

theorem fault (e : ε) : Abreast ordered R (.error e) (.error e) := .error fun _ => rfl

theorem bind_of_eq (first : Abreast ordered R x y) {f : α → Except ε γ} {g : β → Except ε δ}
    (later : ∀ a b, x = .ok a → y = .ok b → R a b → Abreast ordered S (f a) (g b)) :
    Abreast ordered S (x >>= f) (y >>= g) := by
  cases first with
  | ok related => exact later _ _ rfl rfl related
  | error same => exact .error same

theorem bind (first : Abreast ordered R x y) {f : α → Except ε γ} {g : β → Except ε δ}
    (later : ∀ a b, R a b → Abreast ordered S (f a) (g b)) :
    Abreast ordered S (x >>= f) (y >>= g) :=
  first.bind_of_eq fun a b _ _ => later a b

theorem map (abreast : Abreast ordered R x y) {f : α → γ} {g : β → δ}
    (each : ∀ a b, R a b → S (f a) (g b)) :
    Abreast ordered S (do pure (f (← x))) (do pure (g (← y))) :=
  abreast.bind fun a b related => .ok (each a b related)

theorem ok_iff (abreast : Abreast ordered R x y) : (∃ a, x = .ok a) ↔ ∃ b, y = .ok b := by
  cases abreast <;> simp

theorem related (abreast : Abreast ordered R x y) {a : α} {b : β} (left : x = .ok a)
    (right : y = .ok b) : R a b := by
  subst left right
  cases abreast with
  | ok related => exact related

theorem error_iff (abreast : Abreast ordered R x y) (exact : ordered) {e : ε} :
    x = .error e ↔ y = .error e := by
  cases abreast with
  | ok => simp
  | error same => rw [same exact]; simp

theorem outcomes (abreast : Abreast ordered R x y) (exact : ordered) :
    (∃ e, x = .error e ∧ y = .error e) ∨ ∃ a b, x = .ok a ∧ y = .ok b ∧ R a b := by
  cases abreast with
  | ok related => exact .inr ⟨_, _, rfl, rfl, related⟩
  | error same => exact .inl ⟨_, rfl, by rw [same exact]⟩

theorem mapM_forall₂ {f : α → Except ε γ} {g : β → Except ε δ} {l : List α} {m : List β}
    (pairs : List.Forall₂ R l m) (each : ∀ a b, R a b → Abreast ordered S (f a) (g b)) :
    Abreast ordered (List.Forall₂ S) (l.mapM f) (m.mapM g) := by
  induction pairs with
  | nil => exact .ok .nil
  | cons first _ ih =>
    rw [List.mapM_cons, List.mapM_cons]
    exact (each _ _ first).bind fun c d related =>
      ih.map fun cs ds rest => .cons related rest

theorem mapM_eq_ok_iff_forall₂ {g : β → Except ε δ} {m : List β} {ds : List δ} :
    m.mapM g = .ok ds ↔ List.Forall₂ (fun b d => g b = .ok d) m ds := by
  rw [mapM_eq_ok, ← List.forall₂_eq_eq_eq, List.forall₂_map_left_iff, List.forall₂_map_right_iff]

/-- A rearranged list succeeds as well, with its results rearranged. -/
theorem mapM_perm {g : β → Except ε δ} {k m : List β} (perm : k.Perm m) {ds : List δ}
    (done : k.mapM g = .ok ds) : ∃ es, m.mapM g = .ok es ∧ ds.Perm es := by
  obtain ⟨es, each, arranged⟩ :=
    List.perm_comp_forall₂ perm.symm (mapM_eq_ok_iff_forall₂.mp done)
  exact ⟨es, mapM_eq_ok_iff_forall₂.mpr each, arranged.symm⟩

/-- Matched lists go through computations that are abreast at each pair of members. -/
theorem mapM {l : List α} {m : List β} (matched : Matched ordered R l m) {f : α → Except ε γ}
    {g : β → Except ε δ} (each : ∀ a b, R a b → Abreast ordered S (f a) (g b)) :
    Abreast ordered (Matched ordered S) (l.mapM f) (m.mapM g) := by
  obtain ⟨k, pairs, perm, same⟩ := matched
  have first := mapM_forall₂ pairs each
  -- Only in the order of the pairs are first faults comparable; a rearranged list may meet another.
  by_cases exact : ordered
  · rw [← same exact]
    generalize l.mapM f = x, k.mapM g = y at first ⊢
    cases first with
    | ok related => exact .ok (.ofForall₂ related)
    | error faults => exact .error faults
  · generalize l.mapM f = x at first ⊢
    cases atK : k.mapM g with
    | ok ds =>
      obtain ⟨es, atM, arranged⟩ := mapM_perm perm atK
      rw [atK] at first
      rw [atM]
      cases first with
      | ok related => exact .ok ⟨ds, related, arranged, fun holds => absurd holds exact⟩
    | error e =>
      rw [atK] at first
      cases atM : m.mapM g with
      | ok es =>
        obtain ⟨ds, again, _⟩ := mapM_perm perm.symm atM
        rw [atK] at again
        cases again
      | error e' =>
        cases first with
        | error => exact .error fun holds => absurd holds exact

/-- Two computations at each member of one list. -/
theorem mapM_same (l : List α) {f : α → Except ε γ} {g : α → Except ε δ}
    (each : ∀ a, Abreast ordered S (f a) (g a)) :
    Abreast ordered (Matched ordered S) (l.mapM f) (l.mapM g) :=
  mapM (.refl l) fun a _ same => same ▸ each a

theorem foldlM {f : α → δ → Except ε α} {g : β → δ → Except ε β}
    (each : ∀ a b d, R a b → Abreast ordered R (f a d) (g b d)) (l : List δ) {a : α} {b : β}
    (start : R a b) : Abreast ordered R (l.foldlM f a) (l.foldlM g b) := by
  induction l generalizing a b with
  | nil => exact .ok start
  | cons d l ih =>
    rw [List.foldlM_cons, List.foldlM_cons]
    exact (each a b d start).bind fun a' b' related => ih related

end Abreast

end ObjectQuery

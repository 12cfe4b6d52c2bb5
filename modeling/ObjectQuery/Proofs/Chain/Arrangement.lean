import ObjectQuery.Proofs.Chain.Path
import ObjectQuery.Proofs.Schema.SameGraph

/-! What the order of declarations means to pattern strings. Two schemas over the same graph of
types are read with side by side, and every part of the expansion keeps the two frontiers matched,
round after round. The order decides in which order chains are listed, and which of several faults
is met first, and nothing else. -/
namespace ObjectQuery

open Outcome

variable {ordered : Prop}

/-- Steps that are equal as patterns go, to types with the same relations. -/
structure Step.Alike (ordered : Prop) (s t : Step) : Prop where
  outline : s.outline = t.outline
  type : s.type.Alike ordered t.type

def Chain.Alike (ordered : Prop) (c d : Chain) : Prop :=
  List.Forall₂ (Step.Alike ordered) c.steps d.steps

structure Chain.Branch.Alike (ordered : Prop) (a b : Chain.Branch) : Prop where
  chain : a.chain.Alike ordered b.chain
  depth : a.depth = b.depth

/-- Readings at the same place, with frontiers that belong together. -/
structure Reading.Alike (ordered : Prop) (r q : Reading) : Prop where
  position : r.position = q.position
  rest : r.rest = q.rest
  lists : r.lists = q.lists
  frontier : Matched ordered (Chain.Alike ordered) r.frontier q.frontier

namespace Chain

theorem Alike.tip {c d : Chain} (alike : c.Alike ordered d) : c.tip.type.Alike ordered d.tip.type :=
  (List.forall₂_cons.mp alike).1.type

theorem Alike.outline {c d : Chain} (alike : c.Alike ordered d) : c.outline = d.outline := by
  have pairs : List.Forall₂ Eq (c.steps.map Step.outline) (d.steps.map Step.outline) := by
    rw [List.forall₂_map_left_iff, List.forall₂_map_right_iff]
    exact List.Forall₂.imp (fun _ _ related => related.outline) alike
  rwa [List.forall₂_eq_eq_eq] at pairs

theorem Alike.mark {c d : Chain} (alike : c.Alike ordered d) (matched : Bool) :
    (c.mark matched).Alike ordered (d.mark matched) := by
  obtain ⟨first, rest⟩ := List.forall₂_cons.mp alike
  have same := first.outline
  simp only [Step.outline, Prod.mk.injEq] at same
  exact .cons ⟨by simp [Chain.mark, Step.outline, same], first.type⟩ rest

/-- Chains of one outline are equal as patterns go. -/
theorem beq_of_outlines {l m : List Chain}
    (pairs : List.Forall₂ (fun c d => c.outline = d.outline) l m) : (l == m) = true := by
  induction pairs with
  | nil => rfl
  | @cons c d _ _ first _ ih =>
    have same : (c.outline == d.outline) = true := by simp [first]
    have equal : (c == d) = true := same
    simp [equal, ih]

theorem Alike.related {c d : Chain} (alike : c.Alike ordered d) (down : Bool) (name : String) :
    (c.tip.type.related down).contains name = (d.tip.type.related down).contains name := by
  obtain ⟨k, pairs, perm, _⟩ := alike.tip.related down
  rw [List.forall₂_eq_eq_eq] at pairs
  subst pairs
  simp [Table.contains, perm.mem_iff]

section Steps

variable {t u : ObjectType} (types : t.Alike ordered u)
include types

theorem checkIds_alike (ids : Option IdList) : checkIds t ids = checkIds u ids := by
  rw [checkIds, checkIds, types.name, types.count]

theorem checkBase_alike {b c : Option Chain} (bases : Option.Rel (Alike ordered) b c)
    (down : Bool) : checkBase b down t = checkBase c down u := by
  cases bases with
  | none => simp [checkBase, types.name]
  | some alike =>
    simp only [checkBase, types.name, alike.tip.name, alike.related]

/-- A step is made from both bases or from none. -/
theorem make_alike {b c : Option Chain} (bases : Option.Rel (Alike ordered) b c) (down : Bool)
    (ids : Option IdList) (matched : Bool) :
    Abreast ordered (Alike ordered) (make b down t ids matched) (make c down u ids matched) := by
  rw [make, make, checkBase_alike types bases, checkIds_alike types]
  cases checkBase c down u with
  | error fault => exact .fault fault
  | ok =>
    cases checkIds u ids with
    | error fault => exact .fault fault
    | ok =>
      have first : Step.Alike ordered ⟨down, t, ids, matched⟩ ⟨down, u, ids, matched⟩ :=
        ⟨by simp [Step.outline, types.name], types⟩
      cases bases with
      | none => exact .ok (.cons first .nil)
      | some alike => exact .ok (.cons first alike)

end Steps

section Expansion

variable {s t : Schema} (schemas : s.Alike ordered t) (down matched : Bool) (ids : Option IdList)
include schemas

theorem relatedType_alike (name : String) :
    Abreast ordered (ObjectType.Alike ordered) (relatedType s down name)
      (relatedType t down name) := by
  rcases schemas.type? name with ⟨noneS, noneT⟩ | ⟨a, b, foundS, foundT, types⟩
  · rw [relatedType, relatedType, noneS, noneT]
    exact .fault _
  · rw [relatedType, relatedType, foundS, foundT]
    exact .ok types

theorem extend_alike {c d : Chain} (alike : c.Alike ordered d) (name : String) :
    Abreast ordered (Alike ordered) (extend s down ids matched c name)
      (extend t down ids matched d name) :=
  (relatedType_alike schemas down name).bind fun _ _ types =>
    make_alike types (.some alike) down ids matched

theorem expandName_alike {l m : List Chain} (frontiers : Matched ordered (Alike ordered) l m)
    (name : String) :
    Abreast ordered (Matched ordered (Alike ordered)) (expandName s l down name ids matched)
      (expandName t m down name ids matched) := by
  unfold expandName
  rw [frontiers.isEmpty_eq]
  split
  · rcases schemas.type? name with ⟨noneS, noneT⟩ | ⟨a, b, foundS, foundT, types⟩
    · rw [noneS, noneT]
      exact .fault _
    · rw [foundS, foundT]
      exact (make_alike types .none true ids matched).map fun c d alike => .single alike
  · have bases := frontiers.filter (p := fun c => (c.tip.type.related down).contains name)
      (q := fun d => (d.tip.type.related down).contains name)
      fun c d alike => alike.related down name
    have extended := Abreast.mapM bases fun c d alike =>
      extend_alike schemas down matched ids alike name
    refine extended.bind fun grown others same => ?_
    cases grown with
    | nil =>
      rw [same.eq_nil_iff.mp rfl]
      exact .fault _
    | cons c grown =>
      cases others with
      | nil => exact absurd (same.eq_nil_iff.mpr rfl) (by simp)
      | cons d others => exact .ok same

omit schemas in
/-- The two branches have seen the same types, and can step into the same ones. -/
theorem exits_alike {a b : Branch} (alike : a.Alike ordered b) :
    Matched ordered Eq (a.exits down) (b.exits down) := by
  have seen : a.visited = b.visited := by
    have outlines := congrArg (List.map fun o : Step.Outline => o.2.1) alike.chain.outline
    have names : a.chain.steps.map (fun s => s.type.name) =
        b.chain.steps.map fun s => s.type.name := by
      simpa [outline, Step.outline, Function.comp_def] using outlines
    rw [Branch.visited, Branch.visited, List.map_take, List.map_take, names, alike.depth]
  exact (alike.chain.tip.related down).filter fun x y same => by rw [same, seen]

theorem grow_alike {a b : Branch} (alike : a.Alike ordered b) :
    Abreast ordered (Matched ordered (Branch.Alike ordered)) (a.grow s down ids matched)
      (b.grow t down ids matched) := by
  have exits := exits_alike down alike
  unfold Branch.grow
  split
  · next closed =>
    rw [exits.eq_nil_iff.mp closed]
    exact .ok (.single alike)
  · next opened =>
    split
    · next closed => exact absurd (exits.eq_nil_iff.mpr closed) opened
    · refine .mapM exits fun name other same => ?_
      subst same
      exact (extend_alike schemas down matched ids alike.chain name).map fun c d grown =>
        ⟨grown, by rw [alike.depth]⟩

theorem round_alike {l m : List Branch} (branches : Matched ordered (Branch.Alike ordered) l m) :
    Abreast ordered (Matched ordered (Branch.Alike ordered)) (round s down ids matched l)
      (round t down ids matched m) :=
  (Abreast.mapM branches fun _ _ alike => grow_alike schemas down matched ids alike).map
    fun _ _ grown => grown.flatten

theorem settle_alike (rounds : Nat) {l m : List Branch}
    (branches : Matched ordered (Branch.Alike ordered) l m) :
    Abreast ordered (Matched ordered (Branch.Alike ordered))
      (settle s down ids matched rounds l) (settle t down ids matched rounds m) := by
  induction rounds generalizing l m with
  | zero => exact .ok branches
  | succ rounds ih =>
    have next := round_alike schemas down matched ids branches
    -- Rounds are counted alike: whether one is the last is decided by the exits of all branches.
    have finished : (∀ a ∈ l, a.exits down = []) ↔ ∀ b ∈ m, b.exits down = [] :=
      branches.forall_iff fun a b alike => (exits_alike down alike).eq_nil_iff
    rw [settle, settle]
    refine next.bind_of_eq fun grown others roundS roundT related => ?_
    have stop := (settled_iff roundS).trans
      (finished.trans (settled_iff roundT).symm)
    by_cases settled : (others.map Branch.chain == m.map Branch.chain) = true
    · rw [if_pos settled, if_pos (stop.mpr settled)]
      exact .ok related
    · rw [if_neg settled, if_neg (mt stop.mp settled)]
      exact ih related

theorem seeds_alike {l m : List Chain} (frontiers : Matched ordered (Alike ordered) l m) :
    Abreast ordered (Matched ordered (Branch.Alike ordered)) (seeds s l ids matched)
      (seeds t m ids matched) := by
  unfold seeds
  rw [frontiers.isEmpty_eq]
  split
  · refine .mapM schemas.types fun a b types => ?_
    exact (make_alike types .none true ids matched).map fun c d alike => ⟨alike, rfl⟩
  · exact .ok (frontiers.map fun c d alike => ⟨alike, rfl⟩)

theorem expandAny_alike {l m : List Chain} (frontiers : Matched ordered (Alike ordered) l m) :
    Abreast ordered (Matched ordered (Alike ordered)) (expandAny s l down ids matched)
      (expandAny t m down ids matched) := by
  rw [expandAny, expandAny, schemas.size_eq]
  refine (seeds_alike schemas matched ids frontiers).bind fun a b branches => ?_
  refine (settle_alike schemas down matched ids _ branches).map fun x y settled => ?_
  exact settled.map fun c d alike => alike.chain

/-- One specification expands matched frontiers to matched frontiers. -/
theorem expand_alike {l m : List Chain} (frontiers : Matched ordered (Alike ordered) l m)
    (target : Target) (scope : Scope) :
    Abreast ordered (Matched ordered (Alike ordered)) (expand s l down target ids scope)
      (expand t m down target ids scope) := by
  unfold expand
  rw [frontiers.isEmpty_eq]
  split
  · exact .fault _
  · cases target with
    | named name => exact expandName_alike schemas down _ ids frontiers name
    | any =>
      refine (expandAny_alike schemas down _ ids frontiers).map fun x y chains => ?_
      by_cases furthest : scope = .furthest
      · rw [if_pos furthest, if_pos furthest]
        exact chains.map fun c d alike => alike.mark true
      · rwa [if_neg furthest, if_neg furthest]

theorem step_alike {r q : Reading} (alike : r.Alike ordered q) (specification : Specification) :
    Abreast ordered (Reading.Alike ordered) (r.step s specification) (q.step t specification) := by
  rw [Reading.step, Reading.step, alike.position, alike.lists]
  cases specification.ids.resolve q.position q.lists with
  | error fault => exact .fault fault
  | ok found =>
    obtain ⟨ids, lists⟩ := found
    have next := expand_alike schemas specification.down ids alike.frontier specification.target
      specification.scope
    simp only [bind, Except.bind]
    generalize expand s r.frontier specification.down specification.target ids
      specification.scope = x at next ⊢
    generalize expand t q.frontier specification.down specification.target ids
      specification.scope = y at next ⊢
    cases next with
    | ok frontiers => exact .ok ⟨by simp, by simp [alike.rest], rfl, frontiers⟩
    | error same =>
      refine .error fun exact => ?_
      rw [same exact, alike.rest]

omit schemas in
theorem finish_alike {r q : Reading} (alike : r.Alike ordered q) (text : String) :
    Abreast ordered (Matched ordered (Alike ordered)) (r.finish text) (q.finish text) := by
  rw [Reading.finish, Reading.finish, alike.position, alike.rest, alike.lists]
  split
  · exact .fault _
  · split
    · exact .fault _
    · exact .ok alike.frontier

theorem parse_alike (text : String) (lists : Option (List IdList)) :
    Abreast ordered (Matched ordered (Alike ordered)) (parse s text lists)
      (parse t text lists) := by
  have start : (Reading.start text.toList lists).Alike ordered (.start text.toList lists) :=
    ⟨rfl, rfl, rfl, .nil⟩
  exact (Abreast.foldlM (fun _ _ specification alike => step_alike schemas alike specification)
    _ start).bind fun _ _ last => finish_alike last text

end Expansion

/-- Over two schemas with the same graph of types a pattern string comes to chains or to a fault
alike. The chains are the same up to their order, and if the order of declarations is the same as
well, so are the chains with their order and the faults. -/
theorem parse_independent_of_order {x y : Description} {s t : Schema}
    (acceptedX : Schema.ofDescription x = .ok s) (acceptedY : Schema.ofDescription y = .ok t)
    (graph : x.SameGraph y) (text : String) (lists : Option (List IdList)) :
    ((∃ chains, parse s text lists = .ok chains) ↔ ∃ chains, parse t text lists = .ok chains) ∧
    (∀ chains others, parse s text lists = .ok chains → parse t text lists = .ok others →
      ∃ arranged, arranged.Perm others ∧ (chains == arranged) = true) ∧
    (x.SameOrder y →
      (∀ chains others, parse s text lists = .ok chains → parse t text lists = .ok others →
        (chains == others) = true) ∧
      ∀ fault, parse s text lists = .error fault ↔ parse t text lists = .error fault) := by
  have equal {ordered : Prop} {l m : List Chain} (pairs : List.Forall₂ (Alike ordered) l m) :
      (l == m) = true :=
    beq_of_outlines (pairs.imp fun _ _ alike => alike.outline)
  have loose : s.Alike False t := Schema.alike_of_sameGraph acceptedX acceptedY graph False.elim
  have rearranged := parse_alike loose text lists
  refine ⟨rearranged.ok_iff, ?_, ?_⟩
  · intro chains others left right
    obtain ⟨arranged, pairs, perm, _⟩ := rearranged.related left right
    exact ⟨arranged, perm, equal pairs⟩
  · intro order
    have strict : s.Alike True t :=
      Schema.alike_of_sameGraph acceptedX acceptedY graph fun _ => order
    have same := parse_alike strict text lists
    constructor
    · intro chains others left right
      obtain ⟨arranged, pairs, _, exact⟩ := same.related left right
      exact exact trivial ▸ equal pairs
    · intro fault
      exact same.error_iff trivial

/-- A letter that has a name, which may be anything, and an owner. -/
def ownedLetter (children : List String) : TypeDescription :=
  Report.describeParent [("name", .bool true), ("owner", Report.text)] [] "name" "owner" children

/-- The graph of `letters`, with every declaration moved, other fields and other references. -/
def lettersBackwards : Description :=
  .ofList [("d", ownedLetter ["b"]), ("c", ownedLetter ["a", "d"]), ("b", ownedLetter ["d"]),
    ("a", ownedLetter ["c", "b", "a"])]

/-- The graph of `letters` with its order, and with other fields. -/
def lettersOfOwners : Description :=
  .ofList [("a", ownedLetter ["a", "b", "c"]), ("b", ownedLetter ["d"]),
    ("c", ownedLetter ["d", "a"]), ("d", ownedLetter ["b"])]

/-- Over letters the chains come in another order when declarations do, and a pattern with too many
components fails with the same fault when they do not. -/
theorem parse_independent_of_order_of_letters : ∃ forward backward owned chains others fault,
    Schema.ofDescription letters = .ok forward ∧
    Schema.ofDescription lettersBackwards = .ok backward ∧
    Schema.ofDescription lettersOfOwners = .ok owned ∧
    letters.SameGraph lettersBackwards ∧ letters.SameGraph lettersOfOwners ∧
    letters.SameOrder lettersOfOwners ∧
    parse forward ">a%>*$" (some [[[some "x"]]]) = .ok chains ∧
    parse backward ">a%>*$" (some [[[some "x"]]]) = .ok others ∧
    chains.map (fun c => c.steps.map fun s => s.type.name) =
      [["d", "b", "a"], ["b", "d", "c", "a"]] ∧
    others.map (fun c => c.steps.map fun s => s.type.name) =
      [["b", "d", "c", "a"], ["d", "b", "a"]] ∧
    (∃ arranged, arranged.Perm others ∧ (chains == arranged) = true) ∧
    parse forward ">*>a[x, y]" none = .error fault ∧
    parse owned ">*>a[x, y]" none = .error fault := by
  have run : (do
      let forward ← (Schema.ofDescription letters).toOption
      let backward ← (Schema.ofDescription lettersBackwards).toOption
      let owned ← (Schema.ofDescription lettersOfOwners).toOption
      let chains ← (parse forward ">a%>*$" (some [[[some "x"]]])).toOption
      let others ← (parse backward ">a%>*$" (some [[[some "x"]]])).toOption
      pure (owned.types.size, chains.map fun c => c.steps.map fun s => s.type.name,
        others.map fun c => c.steps.map fun s => s.type.name,
        (parse forward ">*>a[x, y]" none).toOption.isNone)) =
      some (4, [["d", "b", "a"], ["b", "d", "c", "a"]], [["b", "d", "c", "a"], ["d", "b", "a"]],
        true) := by
    decide +kernel
  simp only [Option.bind_eq_bind, Option.pure_def, Option.bind_eq_some_iff, toOption_eq_some,
    Option.some.injEq, Prod.mk.injEq] at run
  obtain ⟨forward, acceptedF, backward, acceptedB, owned, acceptedO, chains, left, others, right,
    _, namesL, namesR, refused⟩ := run
  have moved : letters.SameGraph lettersBackwards := by
    have types : letters.idCounts.Perm lettersBackwards.idCounts := by decide +kernel
    have pairs : letters.families.Perm lettersBackwards.families := by decide +kernel
    exact ⟨fun e => types.mem_iff, fun e => pairs.mem_iff⟩
  have kept : letters.SameGraph lettersOfOwners := by
    have types : letters.idCounts = lettersOfOwners.idCounts := by decide +kernel
    have pairs : letters.families = lettersOfOwners.families := by decide +kernel
    exact ⟨fun e => by rw [types], fun e => by rw [pairs]⟩
  have order : letters.SameOrder lettersOfOwners := by
    unfold Description.SameOrder
    decide +kernel
  obtain ⟨fault, failed⟩ : ∃ fault, parse forward ">*>a[x, y]" none = .error fault := by
    cases done : parse forward ">*>a[x, y]" none with
    | error fault => exact ⟨fault, rfl⟩
    | ok => simp [done, Except.toOption] at refused
  have again := (parse_independent_of_order acceptedF acceptedO kept ">*>a[x, y]" none).2.2 order
  exact ⟨forward, backward, owned, chains, others, fault, acceptedF, acceptedB, acceptedO, moved,
    kept, order, left, right, namesL, namesR,
    (parse_independent_of_order acceptedF acceptedB moved _ _).2.1 chains others left right,
    failed, (again.2 fault).mp failed⟩

end Chain

end ObjectQuery

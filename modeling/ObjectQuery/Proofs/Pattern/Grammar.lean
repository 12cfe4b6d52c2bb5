import ObjectQuery.Pattern.Reading

/-! The grammar of pattern strings, rule by rule as the guide gives it, with what each text means.
Nothing here reads a text: a text belongs to the grammar where it can be put together by the
rules. What a pattern string comes to is a fold over the clauses that it is put together from. -/
namespace ObjectQuery.Grammar

/-- `%x09-0d / %x20` -/
def Whitespace (c : Char) : Prop := 0x09 ≤ c.toNat ∧ c.toNat ≤ 0x0d ∨ c.toNat = 0x20

/-- `%x30-39 / %x61-7a / "_"` -/
def NameChar (c : Char) : Prop :=
  0x30 ≤ c.toNat ∧ c.toNat ≤ 0x39 ∨ 0x61 ≤ c.toNat ∧ c.toNat ≤ 0x7a ∨ c = '_'

def UnquotedChar (c : Char) : Prop :=
  0x30 ≤ c.toNat ∧ c.toNat ≤ 0x39 ∨ 0x41 ≤ c.toNat ∧ c.toNat ≤ 0x5a ∨
    0x61 ≤ c.toNat ∧ c.toNat ≤ 0x7a ∨ c ∈ ['_', ':', '/', '.', '?', '%', '+', '-']

/-- `%x20-21 / %x23-5b / %x5d-7e` -/
def PlainChar (c : Char) : Prop :=
  0x20 ≤ c.toNat ∧ c.toNat ≤ 0x21 ∨ 0x23 ≤ c.toNat ∧ c.toNat ≤ 0x5b ∨
    0x5d ≤ c.toNat ∧ c.toNat ≤ 0x7e

/-- `%x22 / %x5c` -/
def EscapedChar (c : Char) : Prop := c.toNat = 0x22 ∨ c.toNat = 0x5c

/-- `*whitespace` -/
def Blanks (cs : List Char) : Prop := ∀ c ∈ cs, Whitespace c

/-- `*id_field_quoted_token`, and the characters that the tokens stand for. -/
inductive QuotedTokens : List Char → List Char → Prop
  | none : QuotedTokens [] []
  | plain {c : Char} {cs field : List Char} : PlainChar c → QuotedTokens cs field →
      QuotedTokens (c :: cs) (c :: field)
  | escaped {c : Char} {cs field : List Char} : EscapedChar c → QuotedTokens cs field →
      QuotedTokens ('\\' :: c :: cs) (c :: field)

inductive FieldText : List Char → List Char → Prop
  | unquoted {cs : List Char} : cs ≠ [] → (∀ c ∈ cs, UnquotedChar c) → FieldText cs cs
  | quoted {cs field : List Char} : QuotedTokens cs field → FieldText ('"' :: cs ++ ['"']) field

/-- `id_field *(*whitespace "," *whitespace id_field)` -/
inductive IdText : List Char → Id → Prop
  | single {cs field : List Char} : FieldText cs field → IdText cs [some (String.ofList field)]
  | more {cs field gap gap' rest : List Char} {id : Id} : FieldText cs field → Blanks gap →
      Blanks gap' → IdText rest id →
      IdText (cs ++ gap ++ ',' :: gap' ++ rest) (some (String.ofList field) :: id)

/-- `id *(*whitespace ";" *whitespace id)` -/
inductive IdListText : List Char → IdList → Prop
  | single {cs : List Char} {id : Id} : IdText cs id → IdListText cs [id]
  | more {cs gap gap' rest : List Char} {id : Id} {ids : IdList} : IdText cs id → Blanks gap →
      Blanks gap' → IdListText rest ids →
      IdListText (cs ++ gap ++ ';' :: gap' ++ rest) (id :: ids)

/-- `*whitespace id_list *whitespace`, what stands between brackets. -/
inductive InnerText : List Char → IdList → Prop
  | inner {lead cs trail : List Char} {ids : IdList} : Blanks lead → IdListText cs ids →
      Blanks trail → InnerText (lead ++ cs ++ trail) ids

/-- Where the ID list of a clause comes from, if it has one. -/
inductive Source where
  | placeholder
  | listed (ids : IdList)

inductive SpecText : List Char → Source → Prop
  | placeholder : SpecText ['%'] .placeholder
  | listed {cs : List Char} {ids : IdList} : InnerText cs ids →
      SpecText ('[' :: cs ++ [']']) (.listed ids)

inductive RelationText : List Char → Bool → Prop
  | children : RelationText ['>'] true
  | parents : RelationText ['<'] false

inductive TypeText : List Char → Target → Prop
  | any : TypeText ['*'] .any
  | named {cs : List Char} : cs ≠ [] → (∀ c ∈ cs, NameChar c) →
      TypeText cs (.named (String.ofList cs))

inductive MatchText : List Char → Scope → Prop
  | all : MatchText ['#'] .all
  | furthest : MatchText ['$'] .furthest

/-- `[*whitespace spec]` -/
inductive OptionalSpec : List Char → Option Source → Prop
  | absent : OptionalSpec [] none
  | present {gap cs : List Char} {source : Source} : Blanks gap → SpecText cs source →
      OptionalSpec (gap ++ cs) (some source)

/-- `[*whitespace match]` -/
inductive OptionalMatch : List Char → Scope → Prop
  | absent : OptionalMatch [] .none
  | present {gap cs : List Char} {scope : Scope} : Blanks gap → MatchText cs scope →
      OptionalMatch (gap ++ cs) scope

/-- What one pattern says. -/
structure Clause where
  down : Bool
  target : Target
  source : Option Source
  scope : Scope

/-- A pattern behind its leading whitespace. -/
inductive BodyText : List Char → Clause → Prop
  | body {relation gap type spec mark : List Char} {down : Bool} {target : Target}
      {source : Option Source} {scope : Scope} : RelationText relation down → Blanks gap →
      TypeText type target → OptionalSpec spec source → OptionalMatch mark scope →
      BodyText (relation ++ gap ++ type ++ spec ++ mark) ⟨down, target, source, scope⟩

/-- A pattern of a pattern string: its leading whitespace, the text behind it, and its clause. -/
structure Placed where
  lead : List Char
  body : List Char
  clause : Clause

/-- `pattern` -/
def Placed.Valid (p : Placed) : Prop := Blanks p.lead ∧ BodyText p.body p.clause

/-- `*pattern *whitespace` -/
inductive Patterns : List Char → List Placed → Prop
  | none {trail : List Char} : Blanks trail → Patterns trail []
  | more {p : Placed} {rest : List Char} {patterns : List Placed} : p.Valid →
      Patterns rest patterns → Patterns (p.lead ++ p.body ++ rest) (p :: patterns)

/-- `1*pattern *whitespace` -/
def PatternString (cs : List Char) (patterns : List Placed) : Prop :=
  Patterns cs patterns ∧ patterns ≠ []

/-- The patterns' clauses, each with the text that is matched before it. A match takes along the
blanks behind it, and the first one also those before it. -/
def located : List Placed → List (List Char × Clause)
  | [] => []
  | p :: rest => ([], p.clause) :: behind (p.lead ++ p.body) rest
where
  behind (taken : List Char) : List Placed → List (List Char × Clause)
    | [] => []
    | p :: rest => (taken ++ p.lead, p.clause) :: behind (taken ++ p.lead ++ p.body) rest

/-- What the clauses so far have come to. -/
structure Progress where
  frontier : List Chain
  lists : Option (List IdList)

/-- The ID list of a clause, and the supplied lists that are left. -/
def resolve (position : Nat) (lists : Option (List IdList)) :
    Option Source → Except PatternFault (Option IdList × Option (List IdList))
  | none => .ok (none, lists)
  | some (.listed ids) => .ok (some ids, lists)
  | some .placeholder =>
    match lists with
    | none => .error (.noIdLists position)
    | some [] => .error (.notEnoughIdLists position)
    | some (ids :: left) => .ok (some ids, some left)

/-- A clause expands the frontier. Its faults are placed where the match before it ended. -/
def Progress.step (schema : Schema) (text : String) (reached : Progress) :
    List Char × Clause → Except PatternFault Progress
  | (before, c) => do
    let (ids, left) ← resolve (Pattern.bytes before) reached.lists c.source
    match Chain.expand schema reached.frontier c.down c.target ids c.scope with
    | .ok frontier => pure ⟨frontier, left⟩
    | .error cause => throw (.expansion (Pattern.bytes before)
        (String.ofList (text.toList.drop before.length)) cause)

/-- The clauses from the left to the right, from an empty frontier on. No list may be left over. -/
def evaluate (schema : Schema) (text : String) (lists : Option (List IdList))
    (patterns : List Placed) : Except PatternFault (List Chain) := do
  let last ← (located patterns).foldlM (Progress.step schema text) ⟨[], lists⟩
  match last.lists with
  | some (_ :: _) => throw (.tooManyIdLists text)
  | _ => pure last.frontier

end ObjectQuery.Grammar

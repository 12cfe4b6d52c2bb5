import ObjectQuery.Chain.Fault
import ObjectQuery.Pattern.Alphabet
import ObjectQuery.Schema.Identity

/-! ID lists as they stand in pattern strings. A semicolon separates IDs and a comma the fields of
an ID. A field of bare characters may stand as it is; any other stands in quotes, and it can only
stand there if all its characters are printable ASCII. -/
namespace ObjectQuery

open Pattern

namespace IdField

def isBareWord (cs : List Char) : Bool := !cs.isEmpty && cs.all isBare

def quote (cs : List Char) : List Char :=
  '"' :: cs.flatMap (fun c => if isEscaped c then ['\\', c] else [c]) ++ ['"']

def write (field : Option String) : Except PatternFault (List Char) :=
  match field with
  | none => .error (.unrepresentable none)
  | some s =>
    if isBareWord s.toList then .ok s.toList
    else if s.toList.all isPrintable then .ok (quote s.toList)
    else .error (.unrepresentable field)

structure Read (cs : List Char) where
  field : List Char
  rest : List Char
  shorter : rest.length < cs.length

/-- Reads up to the closing quote. A failed reading gives the text where it stopped. -/
def readQuoted (cs : List Char) : Except (List Char) (Read cs) :=
  match cs with
  | [] => .error []
  | ['\\'] => .error []
  | '"' :: rest => .ok ⟨[], rest, by simp⟩
  | '\\' :: c :: rest =>
    if isEscaped c then
      (readQuoted rest).map fun r => ⟨c :: r.field, r.rest, by have := r.shorter; simp; omega⟩
    else .error (c :: rest)
  | c :: rest =>
    if isPlain c then
      (readQuoted rest).map fun r => ⟨c :: r.field, r.rest, by have := r.shorter; simp; omega⟩
    else .error (c :: rest)

def readBare (cs : List Char) : Except (List Char) (Read cs) :=
  match cs with
  | [] => .error []
  | c :: rest =>
    if isBare c then
      .ok ⟨c :: rest.takeWhile isBare, rest.dropWhile isBare, by
        have := (List.dropWhile_sublist isBare (l := rest)).length_le
        simp; omega⟩
    else .error (c :: rest)

def read (cs : List Char) : Except (List Char) (Read cs) :=
  match cs with
  | '"' :: rest =>
    (readQuoted rest).map fun r => ⟨r.field, r.rest, by have := r.shorter; simp; omega⟩
  | cs => readBare cs

end IdField

def skipBlanks (cs : List Char) : List Char := cs.dropWhile isBlank

theorem length_skipBlanks (cs : List Char) : (skipBlanks cs).length ≤ cs.length :=
  (List.dropWhile_sublist isBlank).length_le

namespace IdList

def writeId (id : Id) : Except PatternFault (List Char) := do
  pure ([',', ' '].intercalate (← id.mapM IdField.write))

def write (ids : IdList) : Except PatternFault (List Char) := do
  pure ('[' :: [';', ' '].intercalate (← ids.mapM writeId) ++ [']'])

/-- Puts a field in front of the first ID. -/
def addField (field : Option String) : IdList → IdList
  | [] => [[field]]
  | id :: ids => (field :: id) :: ids

/-- Reads IDs up to the end of the text. No blank stands before a field. -/
def readFrom (cs : List Char) : Except (List Char) IdList :=
  match IdField.read cs with
  | .error rest => .error rest
  | .ok r =>
    let field := some (String.ofList r.field)
    match _next : skipBlanks r.rest with
    | [] => .ok [[field]]
    | ',' :: rest => (readFrom (skipBlanks rest)).map (addField field)
    | ';' :: rest => (readFrom (skipBlanks rest)).map ([field] :: ·)
    | rest => .error rest
termination_by cs.length
decreasing_by
  all_goals
    have field := r.shorter
    have gap := length_skipBlanks r.rest
    have more := length_skipBlanks rest
    rw [_next] at gap
    simp at gap
    omega

/-- Reads the text between brackets. A failed reading gives the text where it stopped. -/
def read (cs : List Char) : Except (List Char) IdList := readFrom (skipBlanks cs)

end IdList

end ObjectQuery

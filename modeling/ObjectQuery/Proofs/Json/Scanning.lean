import ObjectQuery.Json.Printer
import ObjectQuery.Json.Token
import ObjectQuery.Proofs.Json.Integer
import ObjectQuery.Proofs.Json.Within

/-! Tokens of printed values. The text of a value is scanned into the tokens of its structure: its
marks, its names and texts with all their characters, and its other values. Only a number does not
tell by itself where it ends, so what follows it must not go on with it. -/
namespace ObjectQuery.Json

open Token Display

/-- Numbers are integers that are read as integers. -/
def Exact : Json → Prop
  | .num (.int i) => -2 ^ 63 ≤ i ∧ i < 2 ^ 64
  | .num (.double _) => False
  | _ => True

mutual

def tokens : Json → List Token
  | .str s => [.text s]
  | .arr [] => [.openArray, .closeArray]
  | .arr (v :: rest) => .openArray :: tokens v ++ tokensOfItems rest
  | .obj [] => [.openObject, .closeObject]
  | .obj ((name, v) :: rest) =>
    .openObject :: .text name :: .colon :: tokens v ++ tokensOfMembers rest
  | v => [.atom v]

def tokensOfItems : List Json → List Token
  | [] => [.closeArray]
  | v :: rest => .comma :: tokens v ++ tokensOfItems rest

def tokensOfMembers : List (String × Json) → List Token
  | [] => [.closeObject]
  | (name, v) :: rest => .comma :: .text name :: .colon :: tokens v ++ tokensOfMembers rest

end

theorem hexValue?_hexDigit {d : Nat} (small : d < 16) :
    Decimal.hexValue? (hexDigit d) = some d := by
  have all : ∀ d < 16, Decimal.hexValue? (hexDigit d) = some d := by decide
  exact all d small

/-- A character is escaped by another one or by its code, or stands for itself. -/
theorem escape_cases (c : Char) :
    (∃ e, escape c = ['\\', e] ∧ e ≠ 'u' ∧ simpleEscape? e = some c) ∨
    (c.toNat < 32 ∧
      escape c = ['\\', 'u', '0', '0', hexDigit (c.toNat / 16), hexDigit (c.toNat % 16)]) ∨
    (c ≠ '"' ∧ c ≠ '\\' ∧ ¬ c.toNat < 32 ∧ escape c = [c]) := by
  by_cases short : c ∈ ['"', '\\', '\n', '\t', '\r', '\x08', '\x0c']
  · left
    simp only [List.mem_cons, List.not_mem_nil, or_false] at short
    rcases short with rfl | rfl | rfl | rfl | rfl | rfl | rfl
    all_goals exact ⟨_, rfl, by decide, by decide⟩
  · right
    simp only [List.mem_cons, List.not_mem_nil, or_false, not_or] at short
    by_cases control : c.toNat < 32
    · left
      simp [escape, short, control]
    · right
      simp [escape, short, control]

/-- Four digits that are collected name the character of their code. -/
theorem scanFrom_code {seen : List Char} {high low : Nat} (first : high < 2) (second : low < 16)
    (rest : List Char) :
    scanFrom (.text seen) (['\\', 'u', '0', '0', hexDigit high, hexDigit low] ++ rest) =
      scanFrom (.text (Char.ofNat (high * 16 + low) :: seen)) rest := by
  have zero : Decimal.hexValue? '0' = some 0 := by decide
  have named : unit seen none (high * 16 + low) =
      ([], .text (Char.ofNat (high * 16 + low) :: seen)) := by
    unfold unit
    rw [if_neg (by omega), if_neg (by omega)]
  simp [scanFrom, Token.step, zero, hexValue?_hexDigit (d := high) (by omega),
    hexValue?_hexDigit second, named]

/-- A character that is escaped is collected as itself. -/
theorem scanFrom_escape (seen : List Char) (c : Char) (rest : List Char) :
    scanFrom (.text seen) (escape c ++ rest) = scanFrom (.text (c :: seen)) rest := by
  rcases escape_cases c with ⟨e, short, noCode, named⟩ | ⟨control, code⟩ |
    ⟨noQuote, noSlash, visible, itself⟩
  · rw [short]
    simp [scanFrom, Token.step, noCode, named]
  · rw [code, scanFrom_code (by omega) (by omega)]
    have whole : c.toNat / 16 * 16 + c.toNat % 16 = c.toNat := by omega
    rw [whole, Char.ofNat_toNat]
  · rw [itself]
    simp [scanFrom, Token.step, noQuote, noSlash, visible]

theorem scanFrom_text (seen cs rest : List Char) :
    scanFrom (.text seen) (cs.flatMap escape ++ '"' :: rest) =
      .text (String.ofList (seen.reverse ++ cs)) :: scanFrom .idle rest := by
  induction cs generalizing seen with
  | nil => simp [scanFrom, Token.step]
  | cons c cs ih =>
    rw [List.flatMap_cons, List.append_assoc, scanFrom_escape, ih]
    simp

theorem scanFrom_quote (s : String) (rest : List Char) :
    scanFrom .idle (quote s ++ rest) = .text s :: scanFrom .idle rest := by
  have opened : scanFrom .idle (quote s ++ rest) =
      scanFrom (.text []) (s.toList.flatMap escape ++ '"' :: rest) := by
    simp [quote, scanFrom, Token.step, start, Token.isBlank]
  rw [opened, scanFrom_text, List.reverse_nil, List.nil_append, String.ofList_toList]

/-- What may follow a number. -/
def Ends (cs : List Char) : Prop := ∀ c ∈ cs.head?, isNumeric c = false

theorem Ends.nil : Ends [] := by simp [Ends]

theorem Ends.cons {c : Char} (other : isNumeric c = false) (cs : List Char) : Ends (c :: cs) := by
  simpa [Ends] using other

/-- A number goes on up to what may follow it. -/
theorem scanFrom_number {seen cs rest : List Char} (each : ∀ c ∈ cs, isNumeric c = true)
    (ends : Ends rest) :
    scanFrom (.number seen) (cs ++ rest) =
      ofNumber (cs.reverse ++ seen) :: scanFrom .idle rest := by
  induction cs generalizing seen with
  | nil =>
    cases rest with
    | nil => rfl
    | cons c rest =>
      have other := ends c rfl
      simp [scanFrom, Token.step, other]
  | cons c cs ih =>
    obtain ⟨first, others⟩ := List.forall_mem_cons.mp each
    have onward : scanFrom (.number seen) (c :: cs ++ rest) =
        scanFrom (.number (c :: seen)) (cs ++ rest) := by
      simp [scanFrom, Token.step, first]
    rw [onward, ih others]
    simp

theorem isNumeric_of_isDigit {c : Char} (digit : Decimal.isDigit c = true) :
    isNumeric c = true := by
  simp [isNumeric, digit]

theorem start_of_isDigit {c : Char} (digit : Decimal.isDigit c = true) :
    start c = ([], .number [c]) := by
  have other {d : Char} (mark : Decimal.isDigit d = false) : c ≠ d := by
    rintro rfl
    rw [digit] at mark
    cases mark
  have noSpace : Token.isBlank c = false := by
    simp [Token.isBlank, other (d := ' ') rfl, other (d := '\t') rfl, other (d := '\n') rfl,
      other (d := '\r') rfl]
  simp [start, noSpace, digit, other (d := '[') rfl, other (d := ']') rfl,
    other (d := '\x7b') rfl, other (d := '\x7d') rfl, other (d := ',') rfl,
    other (d := ':') rfl, other (d := '"') rfl]

theorem digitsOfInt_numeric (i : Int) : ∃ c cs, Number.digitsOfInt i = c :: cs ∧
    start c = ([], .number [c]) ∧ ∀ d ∈ cs, isNumeric d = true := by
  have each (n : Nat) : ∀ d ∈ Decimal.digits n, isNumeric d = true := fun d member =>
    isNumeric_of_isDigit (Decimal.isDigit_digits n d member)
  unfold Number.digitsOfInt
  split
  · exact ⟨'-', _, rfl, rfl, each _⟩
  · obtain ⟨c, cs, same⟩ := List.exists_cons_of_ne_nil (Decimal.digits_ne_nil i.natAbs)
    have first := Decimal.isDigit_digits i.natAbs c (by rw [same]; exact List.mem_cons_self)
    refine ⟨c, cs, same, start_of_isDigit first, fun d member => ?_⟩
    exact each i.natAbs d (by rw [same]; exact List.mem_cons_of_mem c member)

theorem scanFrom_int {i : Int} (low : -2 ^ 63 ≤ i) (high : i < 2 ^ 64) {rest : List Char}
    (ends : Ends rest) : scanFrom .idle (Number.digitsOfInt i ++ rest) =
      .atom (.num (.int i)) :: scanFrom .idle rest := by
  obtain ⟨c, cs, same, opens, each⟩ := digitsOfInt_numeric i
  have opened : scanFrom .idle (c :: cs ++ rest) = scanFrom (.number [c]) (cs ++ rest) := by
    simp [scanFrom, Token.step, opens]
  have whole : (cs.reverse ++ [c]).reverse = c :: cs := by simp
  rw [same, opened, scanFrom_number each ends, ofNumber, whole, ← same,
    Number.read?_digitsOfInt low high]

/-- A mark is a token by itself. -/
theorem scanFrom_mark {c : Char} {t : Token} (mark : start c = ([t], .idle)) (rest : List Char) :
    scanFrom .idle (c :: rest) = t :: scanFrom .idle rest := by
  simp [scanFrom, Token.step, mark]

theorem ends_items (items : List Json) (rest : List Char) : Ends (compactItems items ++ rest) := by
  cases items <;> exact .cons (by decide) _

theorem ends_members (members : List (String × Json)) (rest : List Char) :
    Ends (compactMembers members ++ rest) := by
  cases members with
  | nil => exact .cons (by decide) _
  | cons m members => exact .cons (by decide) _

mutual

/-- The text of a value is scanned into its tokens. -/
theorem scanFrom_compact (v : Json) (exact : ∀ w ∈ v :: v.within, w.Exact) {rest : List Char}
    (ends : Ends rest) : scanFrom .idle (v.compact ++ rest) = v.tokens ++ scanFrom .idle rest := by
  obtain ⟨own, below⟩ := List.forall_mem_cons.mp exact
  match v with
  | .null => rfl
  | .bool true => rfl
  | .bool false => rfl
  | .num (.int i) => exact scanFrom_int own.1 own.2 ends
  | .num (.double bits) => cases own
  | .str s => exact scanFrom_quote s rest
  | .arr [] => rfl
  | .arr (v :: items) =>
    obtain ⟨first, others⟩ := List.forall_mem_append.mp below
    simp only [compact, List.cons_append, List.append_assoc]
    rw [scanFrom_mark (t := .openArray) rfl, scanFrom_compact v first (ends_items items rest),
      scanFrom_items items others]
    simp [tokens]
  | .obj [] => rfl
  | .obj ((name, v) :: members) =>
    obtain ⟨first, others⟩ := List.forall_mem_append.mp below
    simp only [compact, List.cons_append, List.append_assoc]
    rw [scanFrom_mark (t := .openObject) rfl, scanFrom_quote, scanFrom_mark (t := .colon) rfl,
      scanFrom_compact v first (ends_members members rest), scanFrom_members members others]
    simp [tokens]

theorem scanFrom_items (items : List Json) (exact : ∀ w ∈ withinItems items, w.Exact)
    (rest : List Char) :
    scanFrom .idle (compactItems items ++ rest) = tokensOfItems items ++ scanFrom .idle rest := by
  match items with
  | [] => rfl
  | v :: items =>
    obtain ⟨first, others⟩ := List.forall_mem_append.mp exact
    simp only [compactItems, List.cons_append, List.append_assoc]
    rw [scanFrom_mark (t := .comma) rfl, scanFrom_compact v first (ends_items items rest),
      scanFrom_items items others]
    simp [tokensOfItems]

theorem scanFrom_members (members : List (String × Json))
    (exact : ∀ w ∈ withinMembers members, w.Exact) (rest : List Char) :
    scanFrom .idle (compactMembers members ++ rest) =
      tokensOfMembers members ++ scanFrom .idle rest := by
  match members with
  | [] => rfl
  | (name, v) :: members =>
    obtain ⟨first, others⟩ := List.forall_mem_append.mp exact
    simp only [compactMembers, List.cons_append, List.append_assoc]
    rw [scanFrom_mark (t := .comma) rfl, scanFrom_quote, scanFrom_mark (t := .colon) rfl,
      scanFrom_compact v first (ends_members members rest), scanFrom_members members others]
    simp [tokensOfMembers]

end

theorem scan_compact (v : Json) (exact : ∀ w ∈ v :: v.within, w.Exact) :
    scan v.compact = v.tokens := by
  have whole := scanFrom_compact v exact .nil
  simpa [scan, scanFrom, finish] using whole

end ObjectQuery.Json

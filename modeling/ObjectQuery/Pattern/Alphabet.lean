/-! The characters of pattern strings. All of them are ASCII. -/
namespace ObjectQuery.Pattern

def isBlank (c : Char) : Bool := '\t' ≤ c && c ≤ '\r' || c = ' '

/-- Characters of ID fields that need no quotes. -/
def isBare (c : Char) : Bool :=
  '0' ≤ c && c ≤ '9' || 'A' ≤ c && c ≤ 'Z' || 'a' ≤ c && c ≤ 'z'
    || ['_', ':', '/', '.', '?', '%', '+', '-'].contains c

/-- Characters that stand behind a backslash within quotes. -/
def isEscaped (c : Char) : Bool := c = '"' || c = '\\'

def isPrintable (c : Char) : Bool := ' ' ≤ c && c ≤ '~'

/-- Characters that stand for themselves within quotes. -/
def isPlain (c : Char) : Bool := isPrintable c && !isEscaped c

theorem isPrintable_eq (c : Char) : isPrintable c = (isPlain c || isEscaped c) := by
  by_cases escaped : isEscaped c
  · have printable : isPrintable c := by
      simp only [isEscaped, Bool.or_eq_true, decide_eq_true_eq] at escaped
      rcases escaped with rfl | rfl <;> decide
    simp [isPlain, escaped, printable]
  · simp [isPlain, escaped]

def bytes : List Char → Nat
  | [] => 0
  | c :: cs => c.utf8Size + bytes cs

@[simp] theorem bytes_nil : bytes [] = 0 := rfl

@[simp] theorem bytes_cons (c : Char) (cs : List Char) :
    bytes (c :: cs) = c.utf8Size + bytes cs := rfl

@[simp] theorem bytes_append (as bs : List Char) : bytes (as ++ bs) = bytes as + bytes bs := by
  induction as with
  | nil => simp
  | cons c as ih => simp [ih, Nat.add_assoc]

end ObjectQuery.Pattern

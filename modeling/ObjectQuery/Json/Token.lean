import ObjectQuery.Decimal.Radix
import ObjectQuery.Json.Numeral

/-! Tokens of JSON texts, read by a machine that takes one character at a time. Where the text
is no JSON the list of tokens ends with `junk`. -/
namespace ObjectQuery.Json

inductive Token where
  | openArray
  | closeArray
  | openObject
  | closeObject
  | comma
  | colon
  | text (value : String)
  | atom (value : Json)
  | junk

namespace Token

/-- What the machine is inside of. Collected characters stand in reverse; `high` is the first half
of a pair of escapes that together name one character. -/
inductive Mode where
  | idle
  | word (next : Char) (rest : List Char) (value : Json)
  | number (seen : List Char)
  | text (seen : List Char)
  | escape (seen : List Char)
  | hex (seen : List Char) (high : Option Nat) (missing : Nat) (value : Nat)
  | second (seen : List Char) (high : Nat) (marked : Bool)
  | dead

def isBlank (c : Char) : Bool := c = ' ' || c = '\t' || c = '\n' || c = '\r'
def isNumeric (c : Char) : Bool :=
  Decimal.isDigit c || c = '-' || c = '+' || c = '.' || c = 'e' || c = 'E'

def ofNumber (seen : List Char) : Token :=
  match Number.read? seen.reverse with
  | some n => .atom (.num n)
  | none => .junk

def start (c : Char) : List Token × Mode :=
  if isBlank c then ([], .idle)
  else if c = '[' then ([.openArray], .idle)
  else if c = ']' then ([.closeArray], .idle)
  else if c = '\x7b' then ([.openObject], .idle)
  else if c = '\x7d' then ([.closeObject], .idle)
  else if c = ',' then ([.comma], .idle)
  else if c = ':' then ([.colon], .idle)
  else if c = '"' then ([], .text [])
  else if c = '-' || Decimal.isDigit c then ([], .number [c])
  else if c = 't' then ([], .word 'r' ['u', 'e'] (.bool true))
  else if c = 'f' then ([], .word 'a' ['l', 's', 'e'] (.bool false))
  else if c = 'n' then ([], .word 'u' ['l', 'l'] .null)
  else ([.junk], .dead)

def simpleEscape? (c : Char) : Option Char :=
  if c = '"' ∨ c = '\\' ∨ c = '/' then some c
  else if c = 'b' then some '\x08'
  else if c = 'f' then some '\x0c'
  else if c = 'n' then some '\n'
  else if c = 'r' then some '\r'
  else if c = 't' then some '\t'
  else none

/-- Four hexadecimal digits name a character, or half of one beyond U+FFFF. A second half alone
and a first half without its second are refused. -/
def unit (seen : List Char) (high : Option Nat) (value : Nat) : List Token × Mode :=
  match high with
  | none =>
    if 0xD800 ≤ value ∧ value < 0xDC00 then ([], .second seen value false)
    else if 0xDC00 ≤ value ∧ value < 0xE000 then ([.junk], .dead)
    else ([], .text (Char.ofNat value :: seen))
  | some first =>
    if 0xDC00 ≤ value ∧ value < 0xE000 then
      ([], .text (Char.ofNat (0x10000 + (first - 0xD800) * 0x400 + (value - 0xDC00)) :: seen))
    else ([.junk], .dead)

def step : Mode → Char → List Token × Mode
  | .idle, c => start c
  | .word next rest value, c =>
    if c = next then match rest with
      | [] => ([.atom value], .idle)
      | n :: rest => ([], .word n rest value)
    else ([.junk], .dead)
  | .number seen, c =>
    if isNumeric c then ([], .number (c :: seen))
    else let (ts, mode) := start c; (ofNumber seen :: ts, mode)
  | .text seen, c =>
    if c = '"' then ([.text (String.ofList seen.reverse)], .idle)
    else if c = '\\' then ([], .escape seen)
    else if c.toNat < 32 then ([.junk], .dead)
    else ([], .text (c :: seen))
  | .escape seen, c =>
    if c = 'u' then ([], .hex seen none 3 0)
    else match simpleEscape? c with
      | some e => ([], .text (e :: seen))
      | none => ([.junk], .dead)
  | .hex seen high missing value, c =>
    match Decimal.hexValue? c with
    | none => ([.junk], .dead)
    | some d => match missing with
      | 0 => unit seen high (value * 16 + d)
      | m + 1 => ([], .hex seen high m (value * 16 + d))
  | .second seen high marked, c =>
    if marked then if c = 'u' then ([], .hex seen (some high) 3 0) else ([.junk], .dead)
    else if c = '\\' then ([], .second seen high true) else ([.junk], .dead)
  | .dead, _ => ([], .dead)

def finish : Mode → List Token
  | .idle => []
  | .dead => []
  | .number seen => [ofNumber seen]
  | _ => [.junk]

def scanFrom (mode : Mode) : List Char → List Token
  | [] => finish mode
  | c :: rest => (step mode c).1 ++ scanFrom (step mode c).2 rest

def scan (cs : List Char) : List Token := scanFrom .idle cs

end Token

end ObjectQuery.Json

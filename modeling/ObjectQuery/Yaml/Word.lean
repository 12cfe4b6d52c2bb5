import ObjectQuery.Decimal.Nearest
import ObjectQuery.Decimal.Radix
import ObjectQuery.Json.Numeral

/-! What the words of YAML texts stand for: null, a truth value, a number, or themselves. -/
namespace ObjectQuery.Yaml.Word

open Decimal

/-- Integers that need more than 64 bits, but not more than 128, are read as integers and stand for
no value. -/
inductive Meaning where
  | value (value : Json)
  | nothing

def null? (word : String) : Option Json :=
  if ["null", "Null", "NULL", "~"].contains word then some .null else none

def bool? (word : String) : Option Json :=
  if ["true", "True", "TRUE"].contains word then some (.bool true)
  else if ["false", "False", "FALSE"].contains word then some (.bool false)
  else none

/-! ### Numbers -/

def sign (cs : List Char) : Bool × List Char :=
  match cs with
  | '+' :: rest => (false, rest)
  | cs => Numeral.sign cs

/-- Digits behind a zero make a word that is no number, though a base may follow a zero. -/
def magnitude? : List Char → Option Nat
  | '0' :: 'x' :: ds => valueIn? 16 ds
  | '0' :: 'o' :: ds => valueIn? 8 ds
  | '0' :: 'b' :: ds => valueIn? 2 ds
  | ds => if Numeral.isWhole ds then valueIn? 10 ds else none

/-- Integers of more than 128 bits are not read as integers. -/
def meaningOf? (value : Int) : Option Meaning :=
  if -(Nat.pow 2 63 : Int) ≤ value ∧ value < Nat.pow 2 64 then some (.value (.num (.int value)))
  else if -(Nat.pow 2 127 : Int) ≤ value ∧ value < Nat.pow 2 128 then some .nothing
  else none

def integer? (word : String) : Option Meaning :=
  let (negative, cs) := sign word.toList
  (magnitude? cs).bind fun n => meaningOf? (if negative then -n else n)

/-- Digits with a point before, among or behind them, and an exponent. -/
def decimal? (cs : List Char) : Option Scaled := do
  let whole := cs.takeWhile isDigit
  let rest := cs.dropWhile isDigit
  let (fraction, rest) := match rest with
    | '.' :: rest => (rest.takeWhile isDigit, rest.dropWhile isDigit)
    | rest => ([], rest)
  if whole.isEmpty && fraction.isEmpty then none
  let (exponent, rest) ← Numeral.readExponent? rest
  if rest.isEmpty then
    let shift : Int := match exponent with
      | none => 0
      | some (negative, ds) => if negative then -(Decimal.value ds : Int) else Decimal.value ds
    some ⟨Decimal.value (whole ++ fraction), shift - fraction.length⟩
  else none

def finite? (word : String) : Option Json := do
  let (negative, cs) := sign word.toList
  let bits ← (← decimal? cs).nearest?
  some (.num (.double (if negative then bits ||| 0x8000000000000000 else bits)))

/-- There are words for the infinite numbers and for what is no number, but no values. -/
def isBoundless (word : String) : Bool :=
  [".inf", ".Inf", ".INF", "+.inf", "+.Inf", "+.INF", "-.inf", "-.Inf", "-.INF", ".nan", ".NaN",
    ".NAN"].contains word

def double? (word : String) : Option Json :=
  if isBoundless word then some .null else finite? word

def isPadded (word : String) : Bool :=
  let ds := (sign word.toList).2
  ds.all isDigit && !Numeral.isWhole ds

/-! ### Words -/

def meaning (word : String) : Meaning :=
  let named := if word = "" then some .null else null? word <|> bool? word
  let double := if isPadded word then none else double? word
  (named.map Meaning.value <|> integer? word <|> double.map Meaning.value).getD (.value (.str word))

/-- The tags that tell what a word stands for, with the ways to read it. -/
def readers : List (String × (String → Option Meaning)) :=
  [("tag:yaml.org,2002:null", fun word => (null? word).map .value),
    ("tag:yaml.org,2002:bool", fun word => (bool? word).map .value),
    ("tag:yaml.org,2002:int", integer?),
    ("tag:yaml.org,2002:float", fun word => (double? word).map .value)]

/-- Tags that start with an exclamation mark are the author's own. -/
def isLocal (tag : String) : Bool := tag.toList.head? = some '!'

/-- The meaning of a word under a tag. Nothing is known of an author's own tags. Under any other tag
that is not known a word stands for itself. -/
def meaningUnder (tag word : String) : Meaning :=
  if isLocal tag then .nothing
  else match readers.lookup tag with
    | some read => (read word).getD .nothing
    | none => .value (.str word)

end ObjectQuery.Yaml.Word

import ObjectQuery.Decimal.Radix

/-! Text in which a percent sign and two hexadecimal digits stand for a byte. -/
namespace ObjectQuery.Percent

def bytes? : List Char → Option (List UInt8)
  | '%' :: high :: low :: rest => do
    let h ← Decimal.hexValue? high
    let l ← Decimal.hexValue? low
    some ((16 * h + l).toUInt8 :: (← bytes? rest))
  | '%' :: _ => none
  | c :: rest => (bytes? rest).map ((String.singleton c).toUTF8.toList ++ ·)
  | [] => some []

/-- The text that the bytes spell, if they spell one. -/
def decode? (cs : List Char) : Option String :=
  (bytes? cs).bind fun bytes => String.fromUTF8? ⟨bytes.toArray⟩

/-- Every percent sign stands before two digits, and every other character may stand for itself. -/
def isSpelled (plain : Char → Bool) (cs : List Char) : Bool :=
  (bytes? cs).isSome && cs.all fun c => c = '%' || plain c

end ObjectQuery.Percent

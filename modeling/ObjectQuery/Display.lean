import ObjectQuery.Display.Unseen

/-! Text as it is displayed: in quotes, with the quote, the backslash and characters that cannot be
seen escaped. -/
namespace ObjectQuery.Display

def hexDigit (d : Nat) : Char := if d < 10 then Char.ofNat (48 + d) else Char.ofNat (87 + d)

def hexDigits (n : Nat) : List Char :=
  if n < 16 then [hexDigit n] else hexDigits (n / 16) ++ [hexDigit (n % 16)]

def escape (c : Char) : List Char :=
  if c = '"' then ['\\', '"']
  else if c = '\\' then ['\\', '\\']
  else if c = '\x00' then ['\\', '0']
  else if c = '\t' then ['\\', 't']
  else if c = '\r' then ['\\', 'r']
  else if c = '\n' then ['\\', 'n']
  else if isUnseen c then '\\' :: 'u' :: '\x7b' :: hexDigits c.toNat ++ ['\x7d']
  else [c]

def text (s : String) : String := "\"" ++ String.ofList (s.toList.flatMap escape) ++ "\""

def optional : Option String → String
  | none => "None"
  | some s => "Some(" ++ text s ++ ")"

def list (items : List String) : String := "[" ++ ", ".intercalate items ++ "]"

end ObjectQuery.Display

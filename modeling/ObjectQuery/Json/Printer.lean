import ObjectQuery.Display
import ObjectQuery.Json.Numeral

/-! JSON texts, on one line or indented by two spaces. Members are printed in the order in which
they stand. -/
namespace ObjectQuery.Json

open Display (hexDigit)

/-- The quote, the backslash and the control characters below U+0020 are escaped. -/
def escape (c : Char) : List Char :=
  if c = '"' then ['\\', '"']
  else if c = '\\' then ['\\', '\\']
  else if c = '\n' then ['\\', 'n']
  else if c = '\t' then ['\\', 't']
  else if c = '\r' then ['\\', 'r']
  else if c = '\x08' then ['\\', 'b']
  else if c = '\x0c' then ['\\', 'f']
  else if c.toNat < 32 then ['\\', 'u', '0', '0', hexDigit (c.toNat / 16), hexDigit (c.toNat % 16)]
  else [c]

def quote (s : String) : List Char := '"' :: s.toList.flatMap escape ++ ['"']

mutual

def compact : Json → List Char
  | .null => ['n', 'u', 'l', 'l']
  | .bool true => ['t', 'r', 'u', 'e']
  | .bool false => ['f', 'a', 'l', 's', 'e']
  | .num n => n.render
  | .str s => quote s
  | .arr [] => ['[', ']']
  | .arr (v :: rest) => '[' :: v.compact ++ compactItems rest
  | .obj [] => ['\x7b', '\x7d']
  | .obj ((name, v) :: rest) => '\x7b' :: quote name ++ ':' :: v.compact ++ compactMembers rest

def compactItems : List Json → List Char
  | [] => [']']
  | v :: rest => ',' :: v.compact ++ compactItems rest

def compactMembers : List (String × Json) → List Char
  | [] => ['\x7d']
  | (name, v) :: rest => ',' :: quote name ++ ':' :: v.compact ++ compactMembers rest

end

def newline (depth : Nat) : List Char := '\n' :: List.replicate (2 * depth) ' '

mutual

def indented (depth : Nat) : Json → List Char
  | .arr [] => ['[', ']']
  | .arr (v :: rest) =>
    '[' :: newline (depth + 1) ++ v.indented (depth + 1) ++ indentedItems depth rest
  | .obj [] => ['\x7b', '\x7d']
  | .obj ((name, v) :: rest) =>
    '\x7b' :: newline (depth + 1) ++ quote name ++ ':' :: ' ' :: v.indented (depth + 1)
      ++ indentedMembers depth rest
  | .null => compact .null
  | .bool b => compact (.bool b)
  | .num n => n.render
  | .str s => quote s

def indentedItems (depth : Nat) : List Json → List Char
  | [] => newline depth ++ [']']
  | v :: rest => ',' :: newline (depth + 1) ++ v.indented (depth + 1) ++ indentedItems depth rest

def indentedMembers (depth : Nat) : List (String × Json) → List Char
  | [] => newline depth ++ ['\x7d']
  | (name, v) :: rest =>
    ',' :: newline (depth + 1) ++ quote name ++ ':' :: ' ' :: v.indented (depth + 1)
      ++ indentedMembers depth rest

end

def line (v : Json) : String := String.ofList v.compact
def page (v : Json) : String := String.ofList (v.indented 0)

end ObjectQuery.Json

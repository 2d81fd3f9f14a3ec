/-!
# JSON in one line

Values are printed without blanks, fields in the order given. In a text the
quote, the backslash and the control characters below the blank are escaped;
all other characters stand for themselves.
-/

namespace LineKeeper
namespace Text

/-- A JSON value without fractions. -/
inductive Json
  | bool (b : Bool)
  | nat (n : Nat)
  | str (s : String)
  | arr (xs : List Json)
  | obj (fields : List (String × Json))

namespace Json

/-- A digit of base sixteen, in lower case. -/
def hexDigit (n : Nat) : Char :=
  if n < 10 then Char.ofNat (48 + n) else Char.ofNat (87 + n)

/-- The characters that stand for `c` inside a text. -/
def escapeChar (c : Char) : List Char :=
  if c = '"' then ['\\', '"']
  else if c = '\\' then ['\\', '\\']
  else if c = '\n' then ['\\', 'n']
  else if c = '\r' then ['\\', 'r']
  else if c = '\t' then ['\\', 't']
  else if c = '\x08' then ['\\', 'b']
  else if c = '\x0c' then ['\\', 'f']
  else if c.toNat < 32 then
    ['\\', 'u', '0', '0', hexDigit (c.toNat / 16), hexDigit (c.toNat % 16)]
  else [c]

/-- A text between quotes. -/
def quote (s : String) : String :=
  "\"" ++ String.ofList (s.toList.flatMap escapeChar) ++ "\""

mutual

/-- The value in one line. -/
def print : Json → String
  | .bool true => "true"
  | .bool false => "false"
  | .nat n => toString n
  | .str s => quote s
  | .arr xs => "[" ++ ",".intercalate (printAll xs) ++ "]"
  | .obj fields => "\x7b" ++ ",".intercalate (printFields fields) ++ "\x7d"

/-- The elements of an array. -/
def printAll : List Json → List String
  | [] => []
  | x :: xs => print x :: printAll xs

/-- The fields of an object, each with its name. -/
def printFields : List (String × Json) → List String
  | [] => []
  | (k, x) :: fields => (quote k ++ ":" ++ print x) :: printFields fields

end

end Json
end Text
end LineKeeper

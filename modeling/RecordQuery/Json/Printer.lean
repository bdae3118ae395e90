import RecordQuery.Json.Value

/-!
# Writing JSON

JSON text has no spaces and keeps the order of list items and object members. Only the quote, the
backslash and the characters below U+0020 are escaped.
-/

namespace RecordQuery.Json

/-- A digit of base sixteen, in lower case. -/
def hexDigit (n : Nat) : Char :=
  Nat.digitChar (n % 16)

def escapeChar (c : Char) : List Char :=
  if c = '"' then ['\\', '"']
  else if c = '\\' then ['\\', '\\']
  else if c = '\x08' then ['\\', 'b']
  else if c = '\x0c' then ['\\', 'f']
  else if c = '\n' then ['\\', 'n']
  else if c = '\r' then ['\\', 'r']
  else if c = '\t' then ['\\', 't']
  else if c.toNat < 0x20 then ['\\', 'u', '0', '0', hexDigit (c.toNat / 16), hexDigit c.toNat]
  else [c]

def quoted (s : String) : List Char :=
  '"' :: s.toList.flatMap escapeChar ++ ['"']

namespace Value

mutual

/-- The JSON text of a value. -/
def chars : Value → List Char
  | null => ['n', 'u', 'l', 'l']
  | boolean true => ['t', 'r', 'u', 'e']
  | boolean false => ['f', 'a', 'l', 's', 'e']
  | number n => n.chars
  | text s => quoted s
  | list [] => ['[', ']']
  | list (item :: items) => '[' :: item.chars ++ itemsChars items
  | object [] => ['\x7b', '\x7d']
  | object ((key, value) :: members) =>
    '\x7b' :: quoted key ++ ':' :: value.chars ++ membersChars members

/-- The rest of a list after one of its items. -/
def itemsChars : List Value → List Char
  | [] => [']']
  | item :: items => ',' :: item.chars ++ itemsChars items

/-- The rest of an object after one of its members. -/
def membersChars : List (String × Value) → List Char
  | [] => ['\x7d']
  | (key, value) :: members => ',' :: quoted key ++ ':' :: value.chars ++ membersChars members

end

def toText (v : Value) : String :=
  String.ofList v.chars

end Value

end RecordQuery.Json

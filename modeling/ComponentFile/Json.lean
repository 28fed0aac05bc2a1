import ComponentFile.Dictionary
import ComponentFile.Numeral.Layout
import ComponentFile.Text.Basic

/-!
# JSON values

Values of the JSON data format and their two written forms: compact, on one line, and indented by
two spaces. Objects list their fields in increasing order of the names.
-/

namespace ComponentFile

/-- A JSON value. A number is held as its numeral. -/
inductive Json where
  | null
  | bool (value : Bool)
  | number (numeral : Text)
  | string (content : String)
  | array (items : List Json)
  | object (fields : List (String × Json))
  deriving Repr, Inhabited

namespace Json

/-- Numerals always show a fraction or an exponent, and leave positional notation for decimal
exponents below -5 or above 15; there is no infinite number, so an infinite value is null. -/
def numberLayout : Layout where
  tie := .even
  keepsFraction := true
  positional := fun exponent => decide (-5 ≤ exponent ∧ exponent ≤ 15)
  infinity := ['n', 'u', 'l', 'l']
  signsInfinity := false

/-- The string value of a text. -/
def text (content : Text) : Json := .string (String.ofList content)

/-- The number value of a natural. -/
def nat (n : Nat) : Json := .number (Nat.toDigits 10 n)

/-- The number value of a binary value. -/
def binary (value : Binary64) : Json := .number (numberLayout.write value)

/-- The object with the given fields. -/
def ofFields (fields : List (String × Json)) : Json := .object (Dictionary.ofList fields)

/-- A character by its code point, with four hexadecimal digits. -/
def unicodeEscape (c : Char) : Text :=
  let digits := Nat.toDigits 16 c.toNat
  ['\\', 'u'] ++ List.replicate (4 - digits.length) '0' ++ digits

/-- One character as it stands inside a string. -/
def escapeChar (c : Char) : Text :=
  if c = '"' then ['\\', '"']
  else if c = '\\' then ['\\', '\\']
  else if c = '\n' then ['\\', 'n']
  else if c = '\r' then ['\\', 'r']
  else if c = '\t' then ['\\', 't']
  else if c = '\x08' then ['\\', 'b']
  else if c = '\x0c' then ['\\', 'f']
  else if c.toNat < 0x20 then unicodeEscape c
  else [c]

/-- One character as it stands inside a string of the compact form, which holds no character that
any reader takes for the end of a line. -/
def escapeCharInLine (c : Char) : Text :=
  if c.toNat = 0x85 ∨ c.toNat = 0x2028 ∨ c.toNat = 0x2029 then unicodeEscape c else escapeChar c

/-- A string between double quotes, its characters written by `escape`. -/
def quote (escape : Char → Text) (content : String) : String :=
  String.ofList ('"' :: content.toList.flatMap escape ++ ['"'])

mutual

/-- Adds the compact form to what is written already. -/
def addCompact (written : String) : Json → String
  | .null => written ++ "null"
  | .bool true => written ++ "true"
  | .bool false => written ++ "false"
  | .number numeral => written ++ String.ofList numeral
  | .string content => written ++ quote escapeCharInLine content
  | .array items => addCompactItems (written ++ "[") items ++ "]"
  | .object fields => addCompactFields (written ++ "\x7b") fields ++ "\x7d"

/-- Adds the compact form of the items of an array. -/
def addCompactItems (written : String) : List Json → String
  | [] => written
  | [item] => addCompact written item
  | item :: rest => addCompactItems (addCompact written item ++ ",") rest

/-- Adds the compact form of the fields of an object. -/
def addCompactFields (written : String) : List (String × Json) → String
  | [] => written
  | [(name, value)] => addCompact (written ++ quote escapeCharInLine name ++ ":") value
  | (name, value) :: rest =>
    addCompactFields
      (addCompact (written ++ quote escapeCharInLine name ++ ":") value ++ ",") rest

end

/-- The compact form. -/
def compact (json : Json) : String := addCompact "" json

/-- A line break followed by two spaces for each level. -/
def lineBreak (level : Nat) : String := "\n" ++ String.ofList (List.replicate (2 * level) ' ')

mutual

/-- Adds the indented form, at a given level of indentation, to what is written already. -/
def addPretty (level : Nat) (written : String) : Json → String
  | .null => written ++ "null"
  | .bool true => written ++ "true"
  | .bool false => written ++ "false"
  | .number numeral => written ++ String.ofList numeral
  | .string content => written ++ quote escapeChar content
  | .array [] => written ++ "[]"
  | .array (item :: rest) =>
    addPrettyItems (level + 1) (written ++ "[") (item :: rest) ++ lineBreak level ++ "]"
  | .object [] => written ++ "\x7b\x7d"
  | .object (field :: rest) =>
    addPrettyFields (level + 1) (written ++ "\x7b") (field :: rest) ++ lineBreak level ++ "\x7d"

/-- Adds the indented form of the items of an array. -/
def addPrettyItems (level : Nat) (written : String) : List Json → String
  | [] => written
  | [item] => addPretty level (written ++ lineBreak level) item
  | item :: rest =>
    addPrettyItems level (addPretty level (written ++ lineBreak level) item ++ ",") rest

/-- Adds the indented form of the fields of an object. -/
def addPrettyFields (level : Nat) (written : String) : List (String × Json) → String
  | [] => written
  | [(name, value)] =>
    addPretty level (written ++ lineBreak level ++ quote escapeChar name ++ ": ") value
  | (name, value) :: rest =>
    addPrettyFields level
      (addPretty level (written ++ lineBreak level ++ quote escapeChar name ++ ": ") value ++ ",")
      rest

end

/-- The indented form. -/
def pretty (json : Json) : String := addPretty 0 "" json

end Json

end ComponentFile

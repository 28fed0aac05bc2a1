import ComponentFile.Text.Unprintable

/-!
# Quoted text

A text between double quotes in which every character can be seen: quotes and backslashes are
escaped, the four common control characters have short names, and every other character without a
glyph of its own is written as its code point in hexadecimal.
-/

namespace ComponentFile.Text

/-- The numeral of a code point between braces, as in `\u{1f}`. -/
def codePoint (c : Char) : Text :=
  ['\\', 'u', '\x7b'] ++ Nat.toDigits 16 c.toNat ++ ['\x7d']

/-- One character as it stands between double quotes. -/
def quotedChar (c : Char) : Text :=
  if c = '"' then ['\\', '"']
  else if c = '\\' then ['\\', '\\']
  else if c = '\t' then ['\\', 't']
  else if c = '\r' then ['\\', 'r']
  else if c = '\n' then ['\\', 'n']
  else if c = '\x00' then ['\\', '0']
  else if isUnprintable c then codePoint c
  else [c]

/-- The text between double quotes, with every character visible. -/
def quoted (text : Text) : Text := '"' :: text.flatMap quotedChar ++ ['"']

end ComponentFile.Text

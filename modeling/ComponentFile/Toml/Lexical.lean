import ComponentFile.Text.Basic

/-!
# Characters, strings and keys of the TOML format

A reader takes something off the front of a text, and has no result when the text is malformed
there.
-/

namespace ComponentFile.Toml

/-- Takes a value off the front of a text. -/
abbrev Reader := StateT Text Option

namespace Reader

/-- The next character, left in place. -/
def peek? : Reader (Option Char) := fun text => some (text.head?, text)

/-- Takes exactly these characters. -/
def exactly (mark : Text) : Reader Unit := fun text => (Text.after? mark text).map ((), ·)

/-- Takes these characters if they come next, and says whether they did. -/
def optionally (mark : Text) : Reader Bool := fun text =>
  match Text.after? mark text with
  | some rest => some (true, rest)
  | none => some (false, text)

/-- Takes the longest run of characters of a class. -/
def run (test : Char → Bool) : Reader Text := fun text =>
  some (text.takeWhile test, text.dropWhile test)

/-- Takes one character of a class. -/
def one (test : Char → Bool) : Reader Char := fun text =>
  match text with
  | c :: rest => if test c then some (c, rest) else none
  | [] => none

end Reader

/-- Space or tab. -/
def isGap (c : Char) : Bool := c == ' ' || c == '\t'

/-- A character that may stand in comments and strings: the tab, and all but control characters. -/
def isContent (c : Char) : Bool := c == '\t' || (0x20 ≤ c.toNat && c.toNat ≠ 0x7F)

/-- Takes spaces and tabs. -/
def skipGap : Reader Unit := do
  let _ ← Reader.run isGap

/-- What follows a line break at the start of a text. -/
def afterLineBreak? : Text → Option Text
  | '\n' :: rest => some rest
  | '\r' :: '\n' :: rest => some rest
  | _ => none

/-- The text without the blanks, line breaks and comments at its front. -/
def dropTrivia (inComment : Bool) : Text → Text
  | [] => []
  | '\r' :: '\n' :: rest => dropTrivia false rest
  | c :: rest =>
    if c == '\n' then dropTrivia false rest
    else if inComment then if isContent c then dropTrivia true rest else c :: rest
    else if isGap c then dropTrivia false rest
    else if c == '#' then dropTrivia true rest
    else c :: rest

/-- Takes the end of a line: blanks, perhaps a comment, and a line break or the end of the file. -/
def endLine : Reader Unit := do
  skipGap
  if ← Reader.optionally ['#'] then
    let _ ← Reader.run isContent
  fun text =>
    match text, afterLineBreak? text with
    | [], _ => some ((), [])
    | _, some rest => some ((), rest)
    | _, none => none

/-- The value of a hexadecimal digit. -/
def hexDigit? (c : Char) : Option Nat :=
  if c.isDigit then some (c.toNat - '0'.toNat)
  else if 'a' ≤ c ∧ c ≤ 'f' then some (c.toNat - 'a'.toNat + 10)
  else if 'A' ≤ c ∧ c ≤ 'F' then some (c.toNat - 'A'.toNat + 10)
  else none

/-- The character whose code point the given hexadecimal digits name. -/
def codePoint? (digits : Text) : Option Char := do
  let values ← digits.mapM hexDigit?
  let code := values.foldl (fun value digit => 16 * value + digit) 0
  if code.isValidChar then some (Char.ofNat code) else none

/-- The character that a letter after a backslash stands for. -/
def escape? : Char → Option Char
  | 'b' => some '\x08'
  | 't' => some '\t'
  | 'n' => some '\n'
  | 'f' => some '\x0c'
  | 'r' => some '\r'
  | '"' => some '"'
  | '\\' => some '\\'
  | _ => none

/-- How many hexadecimal digits follow a letter after a backslash. -/
def escapeDigits : Char → Nat
  | 'u' => 4
  | 'U' => 8
  | _ => 0

/-- Reads an escape sequence after its backslash: the character it stands for and what follows. -/
def afterEscape? : Text → Option (Char × Text)
  | [] => none
  | c :: rest =>
    if rest.length < escapeDigits c then none
    else
      let meant := if escapeDigits c = 0 then escape? c else codePoint? (rest.take (escapeDigits c))
      meant.map (·, rest.drop (escapeDigits c))

/-- What follows an escape sequence is shorter than the text it starts. -/
theorem length_of_afterEscape? {text rest : Text} {c : Char}
    (h : afterEscape? text = some (c, rest)) : rest.length < text.length := by
  cases text with
  | nil => cases h
  | cons d tail =>
    rw [afterEscape?] at h
    split at h
    · cases h
    · obtain ⟨_, _, h⟩ := Option.map_eq_some_iff.1 h
      simp only [Prod.mk.injEq] at h
      rw [← h.2, List.length_drop, List.length_cons]
      omega

/-- Reads the rest of a string in double quotes on one line. -/
def basicRest (text : Text) : Option (Text × Text) :=
  match text with
  | [] => none
  | c :: rest =>
    if c = '"' then some ([], rest)
    else if c = '\\' then
      match _escape : afterEscape? rest with
      | none => none
      | some (escaped, after) =>
        (basicRest after).map fun (content, left) => (escaped :: content, left)
    else if isContent c then (basicRest rest).map fun (content, left) => (c :: content, left)
    else none
termination_by text.length
decreasing_by
  · have := length_of_afterEscape? _escape
    simp only [List.length_cons]
    omega
  · simp

/-- Reads the rest of a string in single quotes on one line. -/
def literalRest : Text → Option (Text × Text)
  | [] => none
  | c :: rest =>
    if c = '\'' then some ([], rest)
    else if isContent c then (literalRest rest).map fun (content, left) => (c :: content, left)
    else none

/-- Splits off the quotes at the start of a text. -/
def quoteRun (quote : Char) (text : Text) : Nat × Text :=
  ((text.takeWhile (· == quote)).length, text.dropWhile (· == quote))

/-- The content of the quotes that end a string of several lines: three of them are the delimiter,
and up to two before it belong to the string. -/
def closingQuotes (quote : Char) (count : Nat) (after : Text) : Option (Text × Text) :=
  if count ≤ 5 then some (List.replicate (count - 3) quote, after) else none

/-- What follows the blanks and line breaks after a backslash at the end of a line; nothing when the
line goes on. -/
def afterContinuation? (text : Text) : Option Text :=
  (afterLineBreak? (text.dropWhile isGap)).map fun rest => dropBreaks rest
where
  /-- The text without blanks and line breaks at its front. -/
  dropBreaks : Text → Text
    | [] => []
    | '\r' :: '\n' :: rest => dropBreaks rest
    | c :: rest => if c == '\n' || isGap c then dropBreaks rest else c :: rest

/-- Reads the rest of a string of several lines in triple quotes. In double quotes escape sequences
are read, and a backslash at the end of a line joins it to the next text; in single quotes they are
not. Line breaks are single line feeds. Each step takes at least one of `fuel` characters. -/
def multilineRest (quote : Char) (escapes : Bool) : Nat → Text → Option (Text × Text)
  | 0, _ => none
  | _ + 1, [] => none
  | fuel + 1, c :: rest =>
    let continueWith (content : Text) (after : Text) : Option (Text × Text) :=
      (multilineRest quote escapes fuel after).map fun (more, left) => (content ++ more, left)
    if c = quote then
      let (more, after) := quoteRun quote rest
      if 3 ≤ more + 1 then closingQuotes quote (more + 1) after
      else continueWith (List.replicate (more + 1) quote) after
    else if escapes && c = '\\' then
      match afterContinuation? rest with
      | some after => continueWith [] after
      | none =>
        match afterEscape? rest with
        | some (escaped, after) => continueWith [escaped] after
        | none => none
    else
      match afterLineBreak? (c :: rest) with
      | some after => continueWith ['\n'] after
      | none => if isContent c then continueWith [c] rest else none

/-- Reads a string of several lines after its opening quotes; a line break right there does not
count. -/
def multiline (quote : Char) (escapes : Bool) : Reader Text := fun text =>
  let body := (afterLineBreak? text).getD text
  multilineRest quote escapes (body.length + 1) body

/-- Reads a string value. -/
def string : Reader Text := do
  if ← Reader.optionally ['"', '"', '"'] then multiline '"' true
  else if ← Reader.optionally ['"'] then basicRest
  else if ← Reader.optionally ['\'', '\'', '\''] then multiline '\'' false
  else
    Reader.exactly ['\'']
    literalRest

/-- A character of a key without quotes. -/
def isBareKey (c : Char) : Bool := c.isAlphanum || c == '_' || c == '-'

/-- Reads one part of a key, with or without quotes. -/
def simpleKey : Reader Text := do
  if ← Reader.optionally ['"'] then basicRest
  else if ← Reader.optionally ['\''] then literalRest
  else
    let key ← Reader.run isBareKey
    if key.isEmpty then failure else return key

/-- The most parts that a key may have. -/
def keyPartLimit : Nat := 79

/-- Reads the parts of a dotted key, at most `limit` of them, with blanks around each. -/
def keyParts : Nat → Reader (List Text)
  | 0 => failure
  | limit + 1 => do
    skipGap
    let part ← simpleKey
    skipGap
    if ← Reader.optionally ['.'] then
      return part :: (← keyParts limit)
    else return [part]

/-- Reads a key. -/
def key : Reader (List Text) := keyParts keyPartLimit

end ComponentFile.Toml

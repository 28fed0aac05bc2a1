import ComponentFile.Settings
import ComponentFile.Template.Segment
import ComponentFile.Text.Blank
import ComponentFile.Text.WordCharacter
import ComponentFile.Validation.Finding

/-!
# Rules for code and styling

The backend has to declare the entry function in a fixed shape, client code has to declare its
properties and should have no empty interface, and styling has to have as many opening as closing
braces.
-/

namespace ComponentFile.Validation

/-- Whether some number of blanks, perhaps none, can be passed so that the rest fits. -/
def afterBlanks (fits : Text → Bool) : Text → Bool
  | [] => fits []
  | c :: rest => fits (c :: rest) || (isBlank c && afterBlanks fits rest)

/-- Whether at least one blank can be passed so that the rest fits. -/
def afterSomeBlanks (fits : Text → Bool) : Text → Bool
  | [] => false
  | c :: rest => isBlank c && afterBlanks fits rest

/-- Whether the text starts with `word` and what follows it fits. -/
def afterWord (word : Text) (fits : Text → Bool) (text : Text) : Bool :=
  (Text.after? word text).any fits

/-- Whether a declaration of the entry function starts here: an asynchronous function of that name
with a parameter list that returns a response. -/
def declaresEntry (function : Text) : Text → Bool :=
  afterWord "async".toList <| afterSomeBlanks <| afterWord "fn".toList <| afterSomeBlanks <|
    afterWord function <| afterBlanks <| afterWord ['('] fun rest =>
      match Text.cut? [')'] rest with
      | none => false
      | some (_, result) =>
        afterBlanks (afterWord ['-', '>'] (afterBlanks (Text.startsWith "Response".toList))) result

/-- Whether the test holds at some place of a text, its end included. -/
def anywhere (test : Text → Bool) : Text → Bool
  | [] => test []
  | c :: rest => test (c :: rest) || anywhere test rest

/-- The findings about a backend. -/
def checkBackend (settings : Settings) (content : Text) : List Finding :=
  let function := settings.entryFunction
  if !Text.contains function content then [.missingEntry function]
  else if anywhere (declaresEntry function) content then []
  else [.invalidSignature function]

/-- Reads an interface declaration, as the text between its braces, at the start of a text. -/
def interfaceBody : Recogniser Text := fun text => do
  let keyword := "interface".toList
  let rest ← Text.after? keyword text
  let blanks := rest.takeWhile isBlank
  let rest := rest.dropWhile isBlank
  let name := rest.takeWhile isWordCharacter
  let rest := rest.dropWhile isWordCharacter
  if blanks.isEmpty || name.isEmpty then none
  else
    let gap := rest.takeWhile isBlank
    let rest ← Text.after? ['{'] (rest.dropWhile isBlank)
    let (body, _) ← Text.cut? ['}'] rest
    return (body, keyword.length + blanks.length + name.length + gap.length + body.length + 2)

/-- The findings about client code that starts at byte `base` of the file. -/
def checkScript (settings : Settings) (base : Nat) (content : Text) : List Finding :=
  let marker := settings.propsMarker
  let interfaces := Segment.located 0 (Segment.segments interfaceBody content)
  (if Text.contains marker content then [] else [.missingProps marker]) ++
    interfaces.filterMap fun (body, start, _) =>
      if ':' ∈ body then none else some (.emptyInterface (base + start))

/-- The findings about styling. -/
def checkStyle (content : Text) : List Finding :=
  let openers := content.count '{'
  let closers := content.count '}'
  if openers = closers then [] else [.unmatchedBraces openers closers]

end ComponentFile.Validation

import ComponentFile.Block.Extraction
import ComponentFile.Template.Segment
import ComponentFile.Validation.Finding

/-!
# Rules for markup

A template holds no block tags, in whatever letter case, and its standard tags have no inline event
handlers. Tags are recognised by their shape alone: a name, then either white space and everything
up to the next `>`, or at once `>` or `/>`. Each tag name and each handler name is reported once,
where it first occurs.
-/

namespace ComponentFile.Validation

/-- The names of the standard tags. Letter case counts, so a capitalised component is none of
them. -/
def standardTags : List Text :=
  ["a", "abbr", "address", "area", "article", "aside", "audio", "b", "base", "bdi", "bdo",
   "blockquote", "body", "br", "button", "canvas", "caption", "cite", "code", "col", "colgroup",
   "data", "datalist", "dd", "del", "details", "dfn", "dialog", "div", "dl", "dt", "em", "embed",
   "fieldset", "figcaption", "figure", "footer", "form", "h1", "h2", "h3", "h4", "h5", "h6",
   "head", "header", "hr", "html", "i", "iframe", "img", "input", "ins", "kbd", "label", "legend",
   "li", "link", "main", "map", "mark", "menu", "meta", "meter", "nav", "noscript", "object",
   "ol", "optgroup", "option", "output", "p", "picture", "pre", "progress", "q", "rp", "rt",
   "ruby", "s", "samp", "script", "section", "select", "slot", "small", "source", "span",
   "strong", "style", "sub", "summary", "sup", "table", "tbody", "td", "template", "textarea",
   "tfoot", "th", "thead", "time", "title", "tr", "track", "u", "ul", "var", "video",
   "wbr"].map String.toList

/-- The names of the block tags. -/
def blockTags : List Text :=
  [Extraction.templateName, Extraction.scriptName, Extraction.styleName]

/-- Whether two characters agree up to letter case, the first being a small ASCII letter. Two
characters outside ASCII fold to such a letter: the long s and the kelvin sign. -/
def sameLetter (letter c : Char) : Bool :=
  c.toLower == letter || (letter == 's' && c == 'ſ') || (letter == 'k' && c == '\u212a')

/-- Whether the character is an ASCII letter up to letter case. -/
def isLetter (c : Char) : Bool := c.isAlpha || c == 'ſ' || c == '\u212a'

/-- Cuts a name written in any letter case off the start of a text, and keeps its spelling. -/
def afterAnyCase? : Text → Text → Option (Text × Text)
  | [], text => some ([], text)
  | _ :: _, [] => none
  | letter :: name, c :: text =>
    if sameLetter letter c then
      (afterAnyCase? name text).map fun (spelling, rest) => (c :: spelling, rest)
    else none

/-- Reads the rest of a tag after its name: the text after white space up to the next `>`, if there
is white space, and the number of characters up to the end of the tag. -/
def tagRest? : Text → Option (Option Text × Nat)
  | '>' :: _ => some (none, 1)
  | '/' :: '>' :: _ => some (none, 2)
  | c :: rest =>
    if isBlank c then
      (Text.cut? ['>'] (c :: rest)).map fun (inside, _) => (some inside, inside.length + 1)
    else none
  | [] => none

/-- Reads a block tag, as its name in small letters, at the start of a text. -/
def blockTag : Recogniser Text := fun text => do
  let rest ← Text.after? ['<'] text
  blockTags.findSome? fun name => do
    let (spelling, rest) ← afterAnyCase? name rest
    let (_, length) ← tagRest? rest
    return (spelling.toLower, spelling.length + length + 1)

/-- A standard tag and the text of its attributes. -/
structure StandardTag where
  name : Text
  attributes : Text
  deriving DecidableEq, Repr

/-- The text without one slash at its end. -/
def dropSlash (text : Text) : Text :=
  if text.getLast? = some '/' then text.dropLast else text

/-- Reads a standard tag at the start of a text. -/
def standardTag : Recogniser StandardTag := fun text => do
  let rest ← Text.after? ['<'] text
  standardTags.findSome? fun name => do
    let rest ← Text.after? name rest
    let (inside, length) ← tagRest? rest
    return ({ name, attributes := dropSlash (inside.getD []) }, name.length + length + 1)

/-- Reads an event handler, as its name in small letters, at the start of a text: white space, a
name that starts with `on`, and an equals sign. -/
def eventAttribute : Recogniser Text := fun text =>
  match text with
  | blank :: rest =>
    if !isBlank blank then none
    else
      match afterAnyCase? ['o', 'n'] rest with
      | none => none
      | some (on, rest) =>
        let letters := rest.takeWhile isLetter
        let rest := rest.dropWhile isLetter
        let gap := rest.takeWhile isBlank
        if letters.isEmpty || (rest.dropWhile isBlank).head? != some '=' then none
        else
          some (Text.toLower (on ++ letters), on.length + letters.length + gap.length + 2)
  | [] => none

/-- The items a recogniser reads in a text, each with the byte offset at which it starts. -/
def startsOf {α : Type} (recognise : Recogniser α) (text : Text) : List (α × Nat) :=
  (Segment.located 0 (Segment.segments recognise text)).map fun (value, start, _) => (value, start)

/-- The entries whose name has not come up before, neither among `seen` nor among earlier
entries. -/
def firstOfEach {β : Type} : List Text → List (Text × β) → List (Text × β)
  | _, [] => []
  | seen, (name, value) :: rest =>
    if name ∈ seen then firstOfEach seen rest
    else (name, value) :: firstOfEach (name :: seen) rest

/-- The findings about the markup of a template that starts at byte `base` of the file. -/
def checkMarkup (base : Nat) (content : Text) : List Finding :=
  let tags := startsOf blockTag content
  let events := (startsOf standardTag content).flatMap fun (tag, start) =>
    (startsOf eventAttribute tag.attributes).map fun (event, _) => (event, tag.name, start)
  ((firstOfEach [] tags).map fun (tag, start) => .forbiddenTag tag (base + start)) ++
    (firstOfEach [] events).map fun (event, tag, start) => .forbiddenEvent event tag (base + start)

end ComponentFile.Validation

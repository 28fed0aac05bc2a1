import ComponentFile.Block.Basic
import ComponentFile.Text.Blank

/-!
# Finding the blocks of a file

Each kind of block is looked for on its own over the whole file:

* the backend lies between two fence lines with at least one line between them;
* script and style blocks run from an opening tag to the next closing tag;
* the template runs from the first opening tag to the last closing tag, so markup inside it may hold
  template tags.
-/

namespace ComponentFile

/-- The blocks found in a file. -/
structure Extraction where
  backend : Option Block
  uiLogic : Option Block
  template : Option Block
  style : Option Block
  deriving DecidableEq, Repr

namespace Extraction

/-- A line of three dashes, then spaces and tabs only, and at most one carriage return at the
end. -/
def isFence (line : Text) : Bool :=
  match Text.after? ['-', '-', '-'] line with
  | none => false
  | some rest =>
    match rest.dropWhile fun c => c == ' ' || c == '\t' with
    | [] => true
    | [c] => c == '\r'
    | _ => false

/-- The text without a carriage return at its end. -/
def dropReturn (text : Text) : Text :=
  if text.getLast? = some '\r' then text.dropLast else text

/-- The fenced blocks in the given lines. `offset` is where the next line starts; `opened` holds
where the open fence starts and the lines since, last one first. The line after an opening fence is
always content, even when it is a fence itself. -/
def fencedFrom : Nat → Option (Nat × List Text) → List Text → List Occurrence
  | _, _, [] => []
  | offset, none, line :: rest =>
    let opened := if isFence line then some (offset, []) else none
    fencedFrom (offset + line.byteSize + 1) opened rest
  | offset, some (start, body), line :: rest =>
    let next := offset + line.byteSize + 1
    if isFence line && !body.isEmpty then
      { content := dropReturn (Text.join ['\n'] body.reverse), start,
          stop := offset + line.byteSize } ::
        fencedFrom next none rest
    else fencedFrom next (some (start, line :: body)) rest

/-- The fenced blocks of a file, in order. -/
def fenced (text : Text) : List Occurrence := fencedFrom 0 none (Text.pieces ['\n'] text)

/-- The opening tag of an element. -/
def openingTag (name : Text) : Text := '<' :: name ++ ['>']

/-- The closing tag of an element. -/
def closingTag (name : Text) : Text := '<' :: '/' :: name ++ ['>']

/-- The text without one line feed at its front. -/
def dropLineFeed : Text → Text
  | '\n' :: rest => rest
  | text => text

/-- The elements of the given name in a text that starts at `offset`, in order. The inner text loses
one line feed at its front and all blanks at its end. -/
def elementsFrom (name : Text) (offset : Nat) (text : Text) : List Occurrence :=
  match _opened : Text.cut? (openingTag name) text with
  | none => []
  | some (before, rest) =>
    match _closed : Text.cut? (closingTag name) rest with
    | none => []
    | some (inner, after) =>
      let start := offset + before.byteSize
      let stop :=
        start + (openingTag name).byteSize + inner.byteSize + (closingTag name).byteSize
      { content := (dropLineFeed inner).trimEnd, start, stop } :: elementsFrom name stop after
termination_by text.length
decreasing_by
  rw [Text.eq_of_cut?_eq_some _opened, Text.eq_of_cut?_eq_some _closed]
  simp only [List.length_append, openingTag, closingTag, List.length_cons]
  omega

/-- The elements of the given name in a file, in order. -/
def elements (name text : Text) : List Occurrence := elementsFrom name 0 text

/-- The name of the element that holds client code. -/
def scriptName : Text := ['s', 'c', 'r', 'i', 'p', 't']

/-- The name of the element that holds styling. -/
def styleName : Text := ['s', 't', 'y', 'l', 'e']

/-- The name of the element that holds markup. -/
def templateName : Text := ['t', 'e', 'm', 'p', 'l', 'a', 't', 'e']

/-- The template, from the first opening tag to the last closing tag after it. Every opening tag in
the file counts as an occurrence. -/
def templateBlock? (text : Text) : Option Block := do
  let (before, rest) ← Text.cut? (openingTag templateName) text
  let (inner, _) ← Text.cutLast? (closingTag templateName) rest
  let start := before.byteSize
  return {
    content := inner.trim
    start
    stop := start + (openingTag templateName).byteSize + inner.byteSize +
      (closingTag templateName).byteSize
    occurrences := Text.occurrences (openingTag templateName) text }

/-- The blocks of a file. -/
def of (text : Text) : Extraction where
  backend := Block.ofOccurrences? (fenced text)
  uiLogic := Block.ofOccurrences? (elements scriptName text)
  template := templateBlock? text
  style := Block.ofOccurrences? (elements styleName text)

/-- The block of the given kind. -/
def get? (extraction : Extraction) : BlockKind → Option Block
  | .backend => extraction.backend
  | .uiLogic => extraction.uiLogic
  | .template => extraction.template
  | .style => extraction.style

/-- The blocks that are present, in the order of their kinds. -/
def present (extraction : Extraction) : List (BlockKind × Block) :=
  BlockKind.all.filterMap fun kind => (extraction.get? kind).map (kind, ·)

end Extraction

end ComponentFile

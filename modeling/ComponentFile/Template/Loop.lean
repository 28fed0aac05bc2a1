import ComponentFile.Template.Header
import ComponentFile.Template.Registry

/-!
# Loops

A closing token belongs to the nearest opening token before it that no earlier closing token has
been passed since, so one pass takes the innermost loop of a nest and leaves its parent for the next
pass. The text up to a closing token without a well-formed opening token stays plain.
-/

namespace ComponentFile.Template

/-- The keyword that starts a loop. -/
def eachKeyword : Text := ['{', '{', '@', 'e', 'a', 'c', 'h']

/-- The token that ends a loop. -/
def eachClosing : Text := ['{', '{', '/', 'e', 'a', 'c', 'h', '}', '}']

/-- A loop: the text of its header and of its body. -/
structure Loop where
  header : Text
  body : Text
  deriving DecidableEq, Repr

/-- The names that a loop header binds. A name left out is empty. -/
structure LoopHeader where
  iterable : Text
  item : Text
  indexName : Option Text
  deriving DecidableEq, Repr

/-- Cuts at the first word `as` that stands after white space, and before white space or at the end.
The text already passed is kept reversed. -/
def splitBindingFrom : Text → Text → Option (Text × Text)
  | _, [] => none
  | before, c :: rest =>
    match Text.after? ['a', 's'] (c :: rest) with
    | some binding =>
      if before.head?.any isSpace && binding.head?.all isSpace then some (before.reverse, binding)
      else splitBindingFrom (c :: before) rest
    | none => splitBindingFrom (c :: before) rest

/-- Reads a loop header: the iterable, the word `as`, the item name and perhaps, after a comma, the
name of the index. Without the word `as` the whole header is the iterable. -/
def LoopHeader.parse (header : Text) : LoopHeader :=
  match splitBindingFrom [] header.trim with
  | none => { iterable := header.trim, item := [], indexName := none }
  | some (iterable, binding) =>
    match Text.cut? [','] binding with
    | none => { iterable := iterable.trim, item := binding.trim, indexName := none }
    | some (item, index) =>
      { iterable := iterable.trim, item := item.trim
        indexName := if index.isBlankText then none else some index.trim }

/-- The segments of the text up to a closing token: the loop that the token ends, if the last
opening token in the text is well-formed. -/
def closedLoop (text : Text) : List (Segment Loop) :=
  let loop? : Option (Text × Text × Text) := do
    let (before, rest) ← Text.cutLast? eachKeyword text
    let (header, body) ← header? eachKeyword (eachKeyword ++ rest)
    return (before, header, body)
  match loop? with
  | some (before, header, body) =>
    let source := eachKeyword ++ header ++ closing ++ body ++ eachClosing
    Segment.plain before ++ [.item source { header, body }]
  | none => Segment.plain (text ++ eachClosing)

/-- The segments of a text that was cut at its closing tokens. -/
def loopsOf : List Text → List (Segment Loop)
  | [] => []
  | [last] => Segment.plain last
  | text :: rest => closedLoop text ++ loopsOf rest

/-- The innermost loops of a text. -/
def loops (text : Text) : List (Segment Loop) := loopsOf (Text.pieces eachClosing text)

/-- The directive of a loop; the directives of its body are added first. -/
def loopKind (process : Pass) (loop : Loop) (registry : Registry) : DirectiveKind × Registry :=
  let header := LoopHeader.parse loop.header
  let (processedBody, registry) := process loop.body.trim registry
  (.loop header.iterable header.item header.indexName loop.body.trim processedBody, registry)

/-- One pass over the innermost loops of a text. -/
def replaceLoops (process : Pass) : Pass := fun text registry =>
  registry.replace (loopKind process) (loops text)

end ComponentFile.Template

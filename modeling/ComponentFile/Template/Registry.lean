import ComponentFile.Directive.Placeholder

/-!
# Replacing directives by placeholders

The directives found so far are kept in a registry. Replacing walks over the segments of a text: a
plain character stays, and an item is turned into a directive, added to the registry and replaced by
its placeholder. Building the directive of an item may itself add directives, those of its bodies,
which thus come before it.
-/

namespace ComponentFile

/-- The directives found so far, each at its index. -/
abbrev Registry := Array Directive

/-- A step that turns a text into another one and may add directives. -/
abbrev Pass := Text → Registry → Text × Registry

namespace Registry

/-- Adds a directive at the next index and gives the text that stands for it. -/
def register (registry : Registry) (kind : DirectiveKind) (start : Nat) (source : Text) :
    Text × Registry :=
  let directive : Directive :=
    { index := registry.size, kind, start, stop := start + source.byteSize, source }
  (directive.placeholder.render, registry.push directive)

/-- Replaces the items among segments that start at byte `offset`. -/
def replaceFrom {α : Type} (build : α → Registry → DirectiveKind × Registry) :
    Nat → List (Segment α) → Registry → Text × Registry
  | _, [], registry => ([], registry)
  | offset, .char c :: rest, registry =>
    let (text, registry) := replaceFrom build (offset + c.utf8Size) rest registry
    (c :: text, registry)
  | offset, .item source value :: rest, registry =>
    let (kind, registry) := build value registry
    let (mark, registry) := registry.register kind offset source
    let (text, registry) := replaceFrom build (offset + source.byteSize) rest registry
    (mark ++ text, registry)

/-- Replaces the items among the segments of a text. -/
def replace {α : Type} (build : α → Registry → DirectiveKind × Registry)
    (segments : List (Segment α)) (registry : Registry) : Text × Registry :=
  replaceFrom build 0 segments registry

end Registry

end ComponentFile

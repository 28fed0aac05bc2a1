import ComponentFile.Text.Basic

/-!
# Segments

A pass over a text looks at each place for an item that starts there; where one does, the reading
goes on after it, and elsewhere after one character. The result lists plain characters and items
with their source text, so the sources of the segments always make up the text (`sources_segments`).
-/

namespace ComponentFile

/-- A plain character, or an item with the text it was read from. -/
inductive Segment (α : Type) where
  | char (c : Char)
  | item (source : Text) (value : α)
  deriving DecidableEq, Repr

/-- Reads an item at the start of a text, and says how many characters it takes. -/
abbrev Recogniser (α : Type) := Text → Option (α × Nat)

namespace Segment

variable {α : Type}

/-- The text a segment was read from. -/
def source : Segment α → Text
  | .char c => [c]
  | .item source _ => source

/-- A text as plain characters. -/
def plain (text : Text) : List (Segment α) := text.map .char

/-- The text a list of segments was read from. -/
def sources (segments : List (Segment α)) : Text := segments.flatMap source

/-- Reads a text into segments; `skip` characters still belong to the item before. -/
def scan (recognise : Recogniser α) : Nat → Text → List (Segment α)
  | _, [] => []
  | skip + 1, _ :: rest => scan recognise skip rest
  | 0, c :: rest =>
    match recognise (c :: rest) with
    | some (value, length + 1) =>
      .item ((c :: rest).take (length + 1)) value :: scan recognise length rest
    | _ => .char c :: scan recognise 0 rest

/-- The segments of a text. -/
def segments (recognise : Recogniser α) (text : Text) : List (Segment α) := scan recognise 0 text

/-- The items among segments that start at byte `offset`, each with its byte span. -/
def located : Nat → List (Segment α) → List (α × Nat × Nat)
  | _, [] => []
  | offset, .char c :: rest => located (offset + c.utf8Size) rest
  | offset, .item source value :: rest =>
    (value, offset, offset + source.byteSize) :: located (offset + source.byteSize) rest

@[simp] theorem sources_nil : sources ([] : List (Segment α)) = [] := rfl

@[simp] theorem sources_cons (segment : Segment α) (rest : List (Segment α)) :
    sources (segment :: rest) = segment.source ++ sources rest := by
  simp [sources]

@[simp] theorem sources_append (left right : List (Segment α)) :
    sources (left ++ right) = sources left ++ sources right := by
  simp [sources]

@[simp] theorem sources_plain (text : Text) : sources (plain text : List (Segment α)) = text := by
  induction text with
  | nil => rfl
  | cons c rest ih => simpa [plain, source] using ih

/-- A scan keeps all characters except those it was told to skip. -/
theorem sources_scan (recognise : Recogniser α) (skip : Nat) (text : Text) :
    sources (scan recognise skip text) = text.drop skip := by
  induction text generalizing skip with
  | nil => simp [scan]
  | cons c rest ih =>
    cases skip with
    | succ skip => simp [scan, ih]
    | zero =>
      rw [scan]
      split
      · simp [source, ih]
      · simp [source, ih]

/-- The segments of a text make up the text. -/
theorem sources_segments (recognise : Recogniser α) (text : Text) :
    sources (segments recognise text) = text := by
  simp [segments, sources_scan]

end Segment

end ComponentFile

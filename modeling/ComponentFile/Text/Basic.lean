/-!
# Text

Source text is a finite sequence of Unicode scalar values. Positions shown to a reader are offsets
in the UTF-8 form of the text, so a text carries a byte measure besides its length. Cutting a text
at a mark always hands back the pieces themselves; an offset is the byte size of what stands before.
-/

namespace ComponentFile

/-- A finite sequence of Unicode scalar values. -/
abbrev Text := List Char

namespace Text

/-- The number of bytes of the UTF-8 form. -/
def byteSize : Text → Nat
  | [] => 0
  | c :: rest => c.utf8Size + byteSize rest

@[simp] theorem byteSize_nil : byteSize [] = 0 := rfl

@[simp] theorem byteSize_cons (c : Char) (rest : Text) :
    byteSize (c :: rest) = c.utf8Size + byteSize rest := rfl

/-- The byte measure is additive, so offsets add up along a cut text. -/
theorem byteSize_append (s t : Text) : byteSize (s ++ t) = byteSize s + byteSize t := by
  induction s with
  | nil => simp
  | cons c rest ih => simp [ih, Nat.add_assoc]

/-- What follows `mark`, when the text starts with it. -/
def after? : Text → Text → Option Text
  | [], text => some text
  | _ :: _, [] => none
  | m :: mark, c :: text => if m = c then after? mark text else none

/-- A text follows `mark` exactly when putting `mark` in front restores the whole. -/
theorem after?_eq_some_iff {mark text rest : Text} :
    after? mark text = some rest ↔ text = mark ++ rest := by
  induction mark generalizing text with
  | nil => simp [after?, eq_comm]
  | cons m mark ih =>
    cases text with
    | nil => simp [after?]
    | cons c text =>
      by_cases h : m = c
      · simp [after?, h, ih]
      · simp [after?, h, Ne.symm h]

/-- Whether the text starts with `mark`. -/
def startsWith (mark text : Text) : Bool := (after? mark text).isSome

/-- Cuts at the first occurrence of `mark`: what stands before it and what follows it. -/
def cut? (mark : Text) : Text → Option (Text × Text)
  | [] => (after? mark []).map fun rest => ([], rest)
  | c :: text =>
    match after? mark (c :: text) with
    | some rest => some ([], rest)
    | none => (cut? mark text).map fun (before, rest) => (c :: before, rest)

/-- The two pieces of a cut, with the mark between them, are the text. -/
theorem eq_of_cut?_eq_some {mark text before rest : Text}
    (h : cut? mark text = some (before, rest)) :
    text = before ++ mark ++ rest := by
  induction text generalizing before with
  | nil =>
    simp only [cut?, Option.map_eq_some_iff, Prod.mk.injEq] at h
    obtain ⟨r, hr, rfl, rfl⟩ := h
    simpa using after?_eq_some_iff.1 hr
  | cons c text ih =>
    rw [cut?] at h
    split at h
    · next r hr =>
      simp only [Option.some.injEq, Prod.mk.injEq] at h
      obtain ⟨rfl, rfl⟩ := h
      simpa using after?_eq_some_iff.1 hr
    · simp only [Option.map_eq_some_iff, Prod.mk.injEq] at h
      obtain ⟨⟨b, r⟩, hr, rfl, rfl⟩ := h
      simp [ih hr]

/-- Cuts at the last occurrence of `mark`: what stands before it and what follows it. -/
def cutLast? (mark : Text) : Text → Option (Text × Text)
  | [] => (after? mark []).map fun rest => ([], rest)
  | c :: text =>
    match cutLast? mark text with
    | some (before, rest) => some (c :: before, rest)
    | none => (after? mark (c :: text)).map fun rest => ([], rest)

/-- Whether `mark` occurs in the text. -/
def contains (mark text : Text) : Bool := (cut? mark text).isSome

/-- The number of places at which `mark` occurs. -/
def occurrences (mark : Text) : Text → Nat
  | [] => 0
  | c :: text => (if startsWith mark (c :: text) then 1 else 0) + occurrences mark text

/-- Cuts at every occurrence of `mark`, left to right; `skip` characters are still part of a mark.
The pieces are never an empty list: a text without the mark is its own only piece. -/
def piecesFrom (mark : Text) : Nat → Text → List Text
  | _, [] => [[]]
  | skip + 1, _ :: text => piecesFrom mark skip text
  | 0, c :: text =>
    if startsWith mark (c :: text) then
      [] :: piecesFrom mark (mark.length - 1) text
    else
      match piecesFrom mark 0 text with
      | [] => [[c]]
      | piece :: pieces => (c :: piece) :: pieces

/-- The pieces between the occurrences of `mark`, one more than there are occurrences. -/
def pieces (mark text : Text) : List Text := piecesFrom mark 0 text

/-- Drops exactly `n` bytes; nothing when the cut would fall inside a character or past the end. -/
def dropBytes? : Nat → Text → Option Text
  | 0, text => some text
  | _ + 1, [] => none
  | n + 1, c :: text => if c.utf8Size ≤ n + 1 then dropBytes? (n + 1 - c.utf8Size) text else none

/-- Keeps exactly `n` bytes; nothing when the cut would fall inside a character or past the end. -/
def takeBytes? : Nat → Text → Option Text
  | 0, _ => some []
  | _ + 1, [] => none
  | n + 1, c :: text =>
    if c.utf8Size ≤ n + 1 then (takeBytes? (n + 1 - c.utf8Size) text).map (c :: ·) else none

/-- The bytes from `start` up to `stop`, when both lie on character boundaries of the text. -/
def slice? (start stop : Nat) (text : Text) : Option Text :=
  if start ≤ stop then dropBytes? start text >>= takeBytes? (stop - start) else none

/-- The texts in order with `separator` between neighbours. -/
def join (separator : Text) : List Text → Text
  | [] => []
  | [text] => text
  | text :: rest => text ++ separator ++ join separator rest

/-- Every ASCII letter made small; all else stays. -/
def toLower (text : Text) : Text := text.map Char.toLower

end Text

end ComponentFile

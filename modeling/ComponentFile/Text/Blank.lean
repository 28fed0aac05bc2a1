import ComponentFile.Text.Basic

/-!
# Blank characters

Two classes of white space are in use. *Blank* is the Unicode property White_Space, which trimming
goes by; *space* is the ASCII class that separates words inside directives and tags.
-/

namespace ComponentFile

/-- Whether one of the inclusive ranges of code points holds the character. -/
def inRanges (ranges : List (Nat × Nat)) (c : Char) : Bool :=
  ranges.any fun (first, last) => first ≤ c.toNat && c.toNat ≤ last

/-- The code points with the Unicode property White_Space. -/
def blankRanges : List (Nat × Nat) :=
  [(0x9, 0xD), (0x20, 0x20), (0x85, 0x85), (0xA0, 0xA0), (0x1680, 0x1680), (0x2000, 0x200A),
   (0x2028, 0x2029), (0x202F, 0x202F), (0x205F, 0x205F), (0x3000, 0x3000)]

/-- Whether the character has the Unicode property White_Space. -/
def isBlank (c : Char) : Bool := inRanges blankRanges c

/-- Whether the character is ASCII white space: space, tab, line feed, form feed, carriage return.
The vertical tab is not in the class. -/
def isSpace (c : Char) : Bool :=
  c == ' ' || c == '\t' || c == '\n' || c == '\r' || c == '\x0c'

/-- All ASCII white space is blank. -/
theorem isBlank_of_isSpace {c : Char} (h : isSpace c = true) : isBlank c = true := by
  simp only [isSpace, Bool.or_eq_true, beq_iff_eq] at h
  rcases h with (((rfl | rfl) | rfl) | rfl) | rfl <;> decide

namespace Text

/-- The text without the blanks at its front. -/
def trimStart (text : Text) : Text := text.dropWhile isBlank

/-- The text without the blanks at its end. -/
def trimEnd (text : Text) : Text := (text.reverse.dropWhile isBlank).reverse

/-- The text without the blanks around it. -/
def trim (text : Text) : Text := (text.trimStart).trimEnd

/-- Whether the text holds blanks only. -/
def isBlankText (text : Text) : Bool := text.all isBlank

/-- Trimming never lengthens a text. -/
theorem length_trimStart_le (text : Text) : text.trimStart.length ≤ text.length :=
  (List.dropWhile_sublist _).length_le

/-- Trimming never lengthens a text. -/
theorem length_trimEnd_le (text : Text) : text.trimEnd.length ≤ text.length := by
  simpa [trimEnd] using (List.dropWhile_sublist (l := text.reverse) isBlank).length_le

/-- Trimming never lengthens a text. -/
theorem length_trim_le (text : Text) : text.trim.length ≤ text.length :=
  Nat.le_trans (length_trimEnd_le _) (length_trimStart_le _)

end Text

end ComponentFile

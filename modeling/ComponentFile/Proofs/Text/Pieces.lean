import ComponentFile.Proofs.Text.Cutting
import Mathlib.Algebra.GroupWithZero.Nat
import Mathlib.Algebra.Order.BigOperators.Group.List
import Mathlib.Algebra.Order.Group.Nat
import Mathlib.Data.List.Perm.Subperm

/-!
# Pieces of a text

The bodies, children and attribute values of a directive are pieces of its source that do not
overlap. `Holds` lists such pieces in the order in which they stand; `Supplies` forgets the order
and allows pieces to be left out.
-/

namespace ComponentFile.Text

/-- The pieces stand in the text in this order, none overlapping the next. -/
inductive Holds : Text → List Text → Prop
  /-- No piece at all. -/
  | nil (text : Text) : Holds text []
  /-- A first piece, and further ones in what follows it. -/
  | cons (before piece : Text) {rest : Text} {pieces : List Text} (h : Holds rest pieces) :
      Holds (before ++ piece ++ rest) (piece :: pieces)

namespace Holds

/-- Pieces of a text stand in every text that ends with it. -/
theorem append_left {text : Text} {pieces : List Text} (front : Text) (h : Holds text pieces) :
    Holds (front ++ text) pieces := by
  cases h with
  | nil => exact .nil _
  | cons before piece h =>
    simpa only [List.append_assoc] using Holds.cons (front ++ before) piece h

theorem of_isSuffix {tail text : Text} {pieces : List Text} (h : Holds tail pieces)
    (hs : tail <:+ text) : Holds text pieces := by
  obtain ⟨front, rfl⟩ := hs
  exact h.append_left front

/-- Pieces of two texts stand one after the other in the joined text. -/
theorem append {left right : Text} {pieces others : List Text} (hl : Holds left pieces)
    (hr : Holds right others) : Holds (left ++ right) (pieces ++ others) := by
  induction hl with
  | nil text => exact hr.append_left text
  | cons before piece _ ih =>
    simpa only [List.append_assoc, List.cons_append] using Holds.cons before piece ih

/-- A text is a piece of itself. -/
theorem self (text : Text) : Holds text [text] := by
  simpa only [List.nil_append, List.append_nil] using Holds.cons [] text (.nil [])

/-- Pieces of a text stand in every text that starts with it. -/
theorem append_right {text : Text} {pieces : List Text} (h : Holds text pieces) (back : Text) :
    Holds (text ++ back) pieces := by
  simpa only [List.append_nil] using h.append (.nil back)

/-- Trimming the pieces leaves pieces. -/
theorem map_trim {text : Text} {pieces : List Text} (h : Holds text pieces) :
    Holds text (pieces.map trim) := by
  induction h with
  | nil text => exact .nil text
  | cons before piece _ ih =>
    obtain ⟨front, back, he⟩ := trim_isInfix piece
    have hc := Holds.cons (before ++ front) piece.trim (ih.append_left back)
    have hjoin (rest : Text) :
        before ++ front ++ piece.trim ++ (back ++ rest) = before ++ piece ++ rest := by
      calc
        before ++ front ++ piece.trim ++ (back ++ rest) =
            before ++ (front ++ piece.trim ++ back) ++ rest := by simp only [List.append_assoc]
        _ = before ++ piece ++ rest := by rw [he]
    rwa [hjoin] at hc

end Holds

/-- The pieces stand somewhere in the text without overlapping. -/
def Supplies (text : Text) (pieces : List Text) : Prop :=
  ∃ ordered, Holds text ordered ∧ pieces.Subperm ordered

/-- Pieces in order are pieces. -/
theorem Holds.supplies {text : Text} {pieces : List Text} (h : Holds text pieces) :
    Supplies text pieces :=
  ⟨pieces, h, List.Subperm.refl pieces⟩

/-- A measure that can only grow when texts are joined is at most that of the text, summed over its
pieces. -/
theorem Holds.sum_le (size : Text → Nat)
    (hsize : ∀ left right, size left + size right ≤ size (left ++ right))
    {text : Text} {pieces : List Text} (h : Holds text pieces) :
    (pieces.map size).sum ≤ size text := by
  induction h with
  | nil => exact Nat.zero_le _
  | @cons before piece rest pieces _ ih =>
    have h₁ := hsize (before ++ piece) rest
    have h₂ := hsize before piece
    rw [List.map_cons, List.sum_cons]
    omega

/-- The same holds of pieces in any order. -/
theorem Supplies.sum_le (size : Text → Nat)
    (hsize : ∀ left right, size left + size right ≤ size (left ++ right))
    {text : Text} {pieces : List Text} (h : Supplies text pieces) :
    (pieces.map size).sum ≤ size text := by
  obtain ⟨ordered, hholds, same, hperm, hsub⟩ := h
  calc
    (pieces.map size).sum = (same.map size).sum := (hperm.map size).symm.sum_nat
    _ ≤ (ordered.map size).sum := (hsub.map size).sum_le_sum fun n _ => Nat.zero_le n
    _ ≤ size text := hholds.sum_le size hsize

end ComponentFile.Text

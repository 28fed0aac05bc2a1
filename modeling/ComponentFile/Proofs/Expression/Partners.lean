import Mathlib.Data.List.Infix

/-!
# Partners among parentheses

A row of places, some with an opening parenthesis and some with a closing one, is read from left to
right. Two places are partners if the first opens, the second closes, and the parentheses between
them are balanced. Counting both kinds between two places tells that a place has at most one partner
and that pairs of partners never cross. The places that wait for a partner are a stack: what is read
behind the top of the stack is balanced.
-/

namespace ComponentFile.Expression

/-- The two round parentheses. -/
inductive Paren
  | opening
  | closing
  deriving DecidableEq

/-- Every parenthesis has its partner. -/
inductive Balanced : List Paren → Prop
  | nil : Balanced []
  | pair {inner rest : List Paren} (hinner : Balanced inner) (hrest : Balanced rest) :
      Balanced (.opening :: (inner ++ .closing :: rest))

namespace Balanced

variable {left right word : List Paren}

theorem append (hleft : Balanced left) (hright : Balanced right) : Balanced (left ++ right) := by
  induction hleft with
  | nil => exact hright
  | pair hinner _ _ ih =>
    rw [List.cons_append, List.append_assoc, List.cons_append]
    exact .pair hinner ih

theorem nest (h : Balanced word) : Balanced (.opening :: (word ++ [.closing])) := .pair h .nil

theorem count_eq (h : Balanced word) : word.count .opening = word.count .closing := by
  induction h with
  | nil => rfl
  | pair _ _ hinner hrest =>
    rw [List.count_cons_self, List.count_cons_of_ne (by decide), List.count_append,
      List.count_append, List.count_cons_of_ne (by decide), List.count_cons_self, hinner, hrest,
      Nat.add_assoc]

/-- The front of a balanced word closes no more than it opens. -/
theorem count_le (h : Balanced (left ++ right)) : left.count .closing ≤ left.count .opening := by
  generalize hword : left ++ right = word at h
  induction h generalizing left right with
  | nil =>
    rw [(List.append_eq_nil_iff.mp hword).1]
    exact Nat.le_refl _
  | @pair inner rest hbalanced _ hinner hrest =>
    cases left with
    | nil => exact Nat.le_refl _
    | cons first left =>
      obtain ⟨rfl, htail⟩ := List.cons.inj hword
      rw [List.count_cons_of_ne (by decide), List.count_cons_self]
      rcases List.append_eq_append_iff.mp htail with ⟨piece, hinside, -⟩ | ⟨piece, rfl, hbehind⟩
      · exact Nat.le_succ_of_le (hinner hinside.symm)
      · have heq := hbalanced.count_eq
        rw [List.count_append, List.count_append]
        cases piece with
        | nil =>
          rw [List.count_nil, List.count_nil]
          omega
        | cons first piece =>
          obtain ⟨rfl, hpiece⟩ := List.cons.inj hbehind
          have hle := hrest hpiece.symm
          rw [List.count_cons_self, List.count_cons_of_ne (by decide)]
          omega

end Balanced

section

variable (paren : Nat → Option Paren)

/-- The parentheses from one place up to another. -/
def parensBetween (start stop : Nat) : List Paren :=
  (List.range' start (stop - start)).filterMap paren

/-- One place opens, the other one closes, and what is strictly between them is balanced. -/
structure Partners (opener closer : Nat) : Prop where
  lt : opener < closer
  opens : paren opener = some .opening
  closes : paren closer = some .closing
  balanced : Balanced (parensBetween paren (opener + 1) closer)

/-- The openers up to a place that wait for a partner, the last one first. -/
inductive Unclosed : Nat → List Nat → Prop
  | bottom {stop : Nat}
      (hcloses : ∀ start ≤ stop,
        (parensBetween paren start stop).count .opening ≤
          (parensBetween paren start stop).count .closing) :
      Unclosed stop []
  | top {opener stop : Nat} {outer : List Nat} (houter : Unclosed opener outer)
      (hlt : opener < stop)
      (hopens : paren opener = some .opening)
      (hbalanced : Balanced (parensBetween paren (opener + 1) stop)) :
      Unclosed stop (opener :: outer)

end

section

variable {paren : Nat → Option Paren}

theorem parensBetween_self (place : Nat) : parensBetween paren place place = [] := by
  rw [parensBetween, Nat.sub_self]
  rfl

theorem parensBetween_append {start middle stop : Nat} (hstart : start ≤ middle)
    (hstop : middle ≤ stop) :
    parensBetween paren start middle ++ parensBetween paren middle stop =
      parensBetween paren start stop := by
  obtain ⟨front, rfl⟩ := Nat.exists_eq_add_of_le hstart
  obtain ⟨back, rfl⟩ := Nat.exists_eq_add_of_le hstop
  rw [parensBetween, parensBetween, parensBetween, ← List.filterMap_append, Nat.add_sub_cancel_left,
    Nat.add_sub_cancel_left, Nat.add_assoc, Nat.add_sub_cancel_left, ← List.range'_append_1]

/-- A single place has its parenthesis or none. -/
theorem parensBetween_succ (place : Nat) :
    parensBetween paren place (place + 1) = (paren place).toList := by
  rw [parensBetween, Nat.add_sub_cancel_left, List.range'_one]
  cases h : paren place with
  | none => rw [List.filterMap_cons_none h]; rfl
  | some found => rw [List.filterMap_cons_some h]; rfl

/-- Parentheses in front of a place, at it and behind it. -/
theorem parensBetween_split {start place stop : Nat} {found : Paren}
    (hplace : paren place = some found) (hstart : start ≤ place) (hstop : place < stop) :
    parensBetween paren start stop =
      parensBetween paren start place ++ found :: parensBetween paren (place + 1) stop := by
  rw [← parensBetween_append hstart (Nat.le_of_lt hstop),
    ← parensBetween_append (Nat.le_succ place) hstop, parensBetween_succ, hplace]
  rfl

/-- Of two pairs of partners the one that opens later closes earlier. -/
theorem Partners.closer_le {opener closer opener' closer' : Nat} (h : Partners paren opener closer)
    (h' : Partners paren opener' closer') (hopener : opener ≤ opener')
    (hinside : opener' < closer) :
    closer' ≤ closer := by
  by_contra hlt
  rw [not_le] at hlt
  -- then the first closer stands inside of the second pair, which closes no more than it opens up
  -- to there
  have hfront := h'.balanced
  rw [parensBetween_split h.closes (Nat.add_one_le_of_lt hinside) hlt, List.append_cons] at hfront
  have hcloses := hfront.count_le
  rw [List.count_append, List.count_append, List.count_singleton_self] at hcloses
  have hnone : [Paren.closing].count .opening = 0 := by decide
  have heq := h.balanced.count_eq
  rcases Nat.eq_or_lt_of_le hopener with rfl | hopener
  · omega
  · have hle := h.balanced
    rw [parensBetween_split h'.opens (Nat.add_one_le_of_lt hopener) hinside] at heq hle
    have hopens := hle.count_le
    rw [List.count_append, List.count_append, List.count_cons_self,
      List.count_cons_of_ne (by decide)] at heq
    omega

/-- Of two places behind which all is balanced, the later one does not open. -/
theorem not_lt_of_balanced {early late stop : Nat}
    (hearly : Balanced (parensBetween paren (early + 1) stop))
    (hlate : Balanced (parensBetween paren (late + 1) stop)) (hopens : paren late = some .opening)
    (hstop : late < stop) : ¬early < late := by
  intro hlt
  have heq := hearly.count_eq
  rw [parensBetween_split hopens (Nat.add_one_le_of_lt hlt) hstop] at heq hearly
  have hfront := hearly.count_le
  have hback := hlate.count_eq
  rw [List.count_append, List.count_append, List.count_cons_self, List.count_cons_of_ne (by decide)]
    at heq
  omega

/-- A pair of partners that starts inside of another one ends inside of it. -/
theorem Partners.closer_lt {opener closer opener' closer' : Nat} (h : Partners paren opener closer)
    (h' : Partners paren opener' closer') (hopener : opener < opener')
    (hinside : opener' < closer) :
    closer' < closer := by
  refine Nat.lt_of_le_of_ne (h.closer_le h' (Nat.le_of_lt hopener) hinside) ?_
  rintro rfl
  exact not_lt_of_balanced h.balanced h'.balanced h'.opens hinside hopener

/-- The top of the stack is the opener behind which all is balanced. -/
theorem Unclosed.head?_eq {stop : Nat} {waiting : List Nat} (h : Unclosed paren stop waiting)
    {opener : Nat} (hlt : opener < stop) (hopens : paren opener = some .opening)
    (hbalanced : Balanced (parensBetween paren (opener + 1) stop)) :
    waiting.head? = some opener := by
  cases h with
  | bottom hcloses =>
    have hmore := hcloses opener (Nat.le_of_lt hlt)
    have heq := hbalanced.count_eq
    rw [parensBetween_split hopens (Nat.le_refl opener) hlt, parensBetween_self, List.nil_append,
      List.count_cons_self, List.count_cons_of_ne (by decide)] at hmore
    omega
  | top _ hstop hopens' hbalanced' =>
    have hle := not_lt_of_balanced hbalanced hbalanced' hopens' hstop
    have hge := not_lt_of_balanced hbalanced' hbalanced hopens hlt
    rw [List.head?_cons, Nat.le_antisymm (Nat.not_lt.mp hle) (Nat.not_lt.mp hge)]

/-- Balanced parentheses leave the stack as it is. -/
theorem Unclosed.extend {stop later : Nat} {waiting : List Nat} (h : Unclosed paren stop waiting)
    (hle : stop ≤ later) (hbalanced : Balanced (parensBetween paren stop later)) :
    Unclosed paren later waiting := by
  cases h with
  | bottom hcloses =>
    refine .bottom fun start hstart => ?_
    have heq := hbalanced.count_eq
    rcases Nat.le_total start stop with hbefore | hbehind
    · have hfront := hcloses start hbefore
      rw [← parensBetween_append hbefore hle, List.count_append, List.count_append]
      omega
    · rw [← parensBetween_append hbehind hstart] at heq hbalanced
      have hfront := hbalanced.count_le
      rw [List.count_append, List.count_append] at heq
      omega
  | top houter hlt hopens hinside =>
    refine .top houter (Nat.lt_of_lt_of_le hlt hle) hopens ?_
    rw [← parensBetween_append (Nat.add_one_le_of_lt hlt) hle]
    exact hinside.append hbalanced

/-! ## One step of the reading -/

variable {place : Nat} {waiting : List Nat}

theorem Unclosed.pass (h : Unclosed paren place waiting) (hplace : paren place = none) :
    Unclosed paren (place + 1) waiting := by
  refine h.extend (Nat.le_succ place) ?_
  rw [parensBetween_succ, hplace]
  exact .nil

theorem Unclosed.push (h : Unclosed paren place waiting) (hplace : paren place = some .opening) :
    Unclosed paren (place + 1) (place :: waiting) := by
  refine .top h (Nat.lt_succ_self place) hplace ?_
  rw [parensBetween_self]
  exact .nil

/-- A closing parenthesis is the partner of the top of the stack. -/
theorem Unclosed.pop {opener : Nat} {outer : List Nat} (h : Unclosed paren place (opener :: outer))
    (hplace : paren place = some .closing) :
    Partners paren opener place ∧ Unclosed paren (place + 1) outer := by
  cases h with
  | top houter hlt hopens hbalanced =>
    refine ⟨⟨hlt, hopens, hplace, hbalanced⟩, houter.extend (by omega) ?_⟩
    rw [parensBetween_split hopens (Nat.le_refl opener) (by omega), parensBetween_self,
      List.nil_append, parensBetween_split hplace (Nat.add_one_le_of_lt hlt) (Nat.lt_succ_self
      place), parensBetween_self]
    exact hbalanced.nest

/-- A closing parenthesis has no partner if the stack is empty. -/
theorem Unclosed.stray (h : Unclosed paren place []) (hplace : paren place = some .closing) :
    Unclosed paren (place + 1) [] := by
  cases h with
  | bottom hcloses =>
    refine .bottom fun start hstart => ?_
    rcases Nat.eq_or_lt_of_le hstart with rfl | hlt
    · rw [parensBetween_self]
      exact Nat.le_refl _
    · have hfront := hcloses start (Nat.le_of_lt_succ hlt)
      rw [parensBetween_split hplace (Nat.le_of_lt_succ hlt) (Nat.lt_succ_self place),
        parensBetween_self, List.count_append, List.count_append, List.count_singleton_self]
      have hnone : [Paren.closing].count .opening = 0 := by decide
      omega

end

end ComponentFile.Expression

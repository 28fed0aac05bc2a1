import ComponentFile.Proofs.Expression.Cuts
import ComponentFile.Proofs.Expression.Numerals
import ComponentFile.Proofs.Expression.Parsing

/-!
# Reading what was written

Writing puts no parentheses back, so the tree has to follow from how tightly its forms bind. A tree
that needs no parentheses is derived from its written form by the grammar, at the kind of phrase of
its outermost form, and is read back from it.
-/

namespace ComponentFile

/-- The number of the group of an operator. -/
def BinaryOperator.place (op : BinaryOperator) : Nat := groups.findIdx (·.contains op)

namespace Expression

/-! ## How tightly a tree binds -/

/-- The kinds of phrases by number, from the loosest to the tightest. -/
def kindAt : Nat → Phrase
  | 0 => .choice
  | 8 => .signed
  | 9 => .called
  | 10 => .atom
  | k + 1 => if k < 7 then .operation k else .path

/-- The number of the kind of phrase that the outermost form of a tree is written as. -/
def tightness : Expression → Nat
  | .conditional _ _ _ | .unknown _ => 0
  | .binary op _ _ => op.place + 1
  | .unary _ _ => 8
  | .call _ _ => 9
  | .literal _ => 10
  | .identifier _ | .property _ _ => 11

/-- A phrase of one kind is one of the next looser kind. -/
theorem Derives.loosen_one {level : Nat} {text : Text} {tree : Expression}
    (h : Derives (kindAt (level + 1)) text tree) : Derives (kindAt level) text tree := by
  match level with
  | 0 => exact .ofOperation h
  | 1 | 2 | 3 | 4 | 5 | 6 => exact .ofTighter h
  | 7 => exact .ofSigned h
  | 8 => exact .ofCalled h
  | 9 => exact .ofAtom h
  | 10 => exact .ofPath h
  | _ + 11 => exact h

/-- A phrase of one kind is one of every looser kind. -/
theorem Derives.loosen {loose tight : Nat} {text : Text} {tree : Expression}
    (h : Derives (kindAt tight) text tree) (hle : loose ≤ tight) :
    Derives (kindAt loose) text tree := by
  induction hle with
  | refl => exact h
  | step _ ih => exact ih h.loosen_one

/-- The place of an operator is that of its group, and the kinds of operations are in the order of
the groups. -/
private theorem exists_group (op : BinaryOperator) :
    (∃ group, BinaryOperator.groups[op.place]? = some group ∧ op ∈ group) ∧
      kindAt (op.place + 1) = .operation op.place ∧
        kindAt (op.place + 2) = .operation (op.place + 1) := by
  cases op <;> exact ⟨⟨_, rfl, by decide⟩, rfl, rfl⟩

/-! ## Trees that need no parentheses -/

/-- Each part of the tree binds tightly enough to stand where it does without parentheses: in an
operation, the left operand more tightly than the operation and the right operand no less; in a
choice, condition and consequent are no choices; an operand of a prefix operator has prefix
operators or binds more tightly; a callee is a call, a constant or a path; and the object of a
property is a path. -/
inductive Bare : Expression → Prop
  | identifier {name : Text} (hname : isName name = true)
      (htruth : ∀ value, name ≠ truthName value) :
      Bare (.identifier name)
  | property {object : Expression} {name : Text} (hobject : Bare object)
      (htight : tightness (.property object name) ≤ tightness object) (hname : isName name = true) :
      Bare (.property object name)
  | call {callee : Expression} {arguments : List Expression} (hcallee : Bare callee)
      (htight : tightness (.call callee arguments) ≤ tightness callee)
      (harguments : ∀ argument ∈ arguments, Bare argument) : Bare (.call callee arguments)
  | binary {op : BinaryOperator} {left right : Expression} (hleft : Bare left) (hright : Bare right)
      (htight : tightness (.binary op left right) < tightness left)
      (htight' : tightness (.binary op left right) ≤ tightness right) : Bare (.binary op left right)
  /-- A minus sign before a digit would belong to the numeral. -/
  | unary {op : UnaryOperator} {operand : Expression} (hoperand : Bare operand)
      (htight : tightness (.unary op operand) ≤ tightness operand)
      (hdigit : op = .negate → ∀ c ∈ (display operand).head?, c.isDigit = false) :
        Bare (.unary op operand)
  | conditional {condition consequent alternate : Expression} (hcondition : Bare condition)
      (hconsequent : Bare consequent) (halternate : Bare alternate)
      (htight : tightness (.conditional condition consequent alternate) < tightness condition)
      (htight' : tightness (.conditional condition consequent alternate) < tightness consequent) :
      Bare (.conditional condition consequent alternate)
  /-- Every character stands for itself between double quotes. -/
  | string {content : Text} (hcontent : ∀ c ∈ content, Text.quotedChar c = [c]) :
      Bare (.literal (.string content))
  | number {value : Binary64} (hfinite : value.magnitude.IsFinite) : Bare (.literal (.number value))
  | bool (value : Bool) : Bare (.literal (.bool value))

/-- A string of characters that stand for themselves is written between quotes as it is. -/
private theorem derives_string {content : Text} (h : ∀ c ∈ content, Text.quotedChar c = [c]) :
    Derives .atom content.quoted (.literal (.string content)) := by
  have hflat : content.flatMap Text.quotedChar = content := by
    rw [List.flatMap_congr h, List.flatMap_singleton']
  have hquote : '"' ∉ content := fun hm => absurd (h _ hm) (by decide)
  have hescape : '\\' ∉ content := fun hm => absurd (h _ hm) (by decide)
  rw [Text.quoted, hflat]
  exact .string rfl hquote hescape

private theorem derives_call {callee : Text} {function : Expression} {arguments : List Expression}
    (hcallee : Derives .called callee function)
    (harguments : ∀ argument ∈ arguments, Derives .choice (display argument) argument) :
    Derives .called (callee ++ parenthesized (displayArguments arguments))
      (.call function arguments) := by
  let empty : Gap := ⟨[], rfl⟩
  by_cases hne : arguments = []
  · rw [hne]
    have hcall := Derives.callEmpty empty empty hcallee
    rwa [List.append_nil] at hcall
  · let parts := arguments.map fun argument => (display argument, argument)
    have hparts : parts ≠ [] := by simpa [parts] using hne
    have htexts : parts.map Prod.fst = arguments.map display := by simp [parts, Function.comp_def]
    have htrees : parts.map Prod.snd = arguments := by simp [parts, Function.comp_def]
    have hderives : ∀ argument ∈ spread empty parts,
        Derives .choice argument.text argument.tree := by
      intro argument hm
      obtain ⟨tree, htree, he⟩ := List.mem_map.mp (mem_of_mem_spread hm)
      obtain ⟨htext, rfl⟩ := Prod.mk.inj he
      exact htext ▸ harguments _ htree
    have hcall := Derives.call empty (spread_ne_nil empty hparts) hcallee hderives
    rwa [List.append_nil, argumentList_spread empty hparts, List.nil_append, htexts,
      ← displayArguments_eq_join, map_tree_spread, htrees] at hcall

/-- A tree that needs no parentheses is derived from its written form. -/
theorem Bare.derives {tree : Expression} (h : Bare tree) :
    Derives (kindAt (tightness tree)) (display tree) tree := by
  let empty : Gap := ⟨[], rfl⟩
  let space : Gap := ⟨[' '], rfl⟩
  induction h with
  | identifier hname htruth => exact .name hname htruth
  | @property object name _ htight hname ih =>
    have hproperty := Derives.property empty empty hname (ih.loosen htight)
    rwa [List.append_nil] at hproperty
  | call _ htight _ ihcallee iharguments =>
    have hcall := derives_call (ihcallee.loosen htight) fun argument hm =>
      (iharguments argument hm).loosen (Nat.zero_le _)
    rw [display, List.append_assoc]
    exact hcall
  | @binary op left right _ _ htight htight' ihleft ihright =>
    obtain ⟨⟨group, hgroup, hop⟩, hkind, hkind'⟩ := exists_group op
    have hleft := ihleft.loosen htight
    have hright := ihright.loosen htight'
    rw [tightness, hkind'] at hleft
    rw [tightness, hkind] at hright ⊢
    have hoperation :=
      Derives.operation space space hgroup hop (List.cons_ne_nil _ _)
        (List.cons_ne_nil _ _) hleft hright
    rw [display]
    simpa only [space, List.append_assoc, List.cons_append, List.nil_append] using hoperation
  | @unary op operand _ htight hdigit ih =>
    have hoperand := ih.loosen htight
    cases op with
    | not => exact .not empty hoperand
    | negate => exact .negate empty (hdigit rfl) hoperand
  | conditional _ _ _ htight htight' ihcondition ihconsequent ihalternate =>
    have hchoice := Derives.choice space space space space (ihcondition.loosen htight)
      (ihconsequent.loosen htight') (ihalternate.loosen (Nat.zero_le _))
    rw [display]
    simp only [space, List.append_assoc, List.cons_append, List.nil_append] at hchoice ⊢
    exact hchoice
  | string hcontent => exact derives_string hcontent
  | @number value hfinite =>
    obtain ⟨whole, fraction, hstands, hwrite, hvalue⟩ := exists_write_eq_numeral hfinite
    have hnumber := Derives.number value.negative hstands.isDigits_whole hstands.isDigits_fraction
    rwa [hvalue, ← hwrite] at hnumber
  | bool value =>
    cases value with
    | true => exact .truth true
    | false => exact .truth false

/-- A tree that needs no parentheses is read back from its written form. -/
theorem parse_display {tree : Expression} (h : Bare tree) : parse (display tree) = tree :=
  h.derives.parse_eq

/-- In `!-f("it's ? (", -2.5)(x.true) >= y ? 1 : b ? c : d` the tree follows from how tightly its
forms bind. -/
theorem parse_display_signs :
    parse ['!', '-', 'f', '(', '"', 'i', 't', '\'', 's', ' ', '?', ' ', '(', '"', ',', ' ', '-',
      '2', '.', '5', ')',
        '(', 'x', '.', 't', 'r', 'u', 'e', ')', ' ', '>', '=', ' ', 'y', ' ', '?', ' ', '1', ' ',
          ':', ' ', 'b', ' ',
        '?', ' ', 'c', ' ', ':', ' ', 'd'] =
      .conditional
        (.binary .greaterEqual
          (.unary .not (.unary .negate (.call
            (.call (.identifier ['f'])
              [.literal (.string ['i', 't', '\'', 's', ' ', '?', ' ', '(']),
                .literal (.number ⟨true, .finite (5 * 2 ^ 50) (-51)⟩)])
            [.property (.identifier ['x']) ['t', 'r', 'u', 'e']])))
          (.identifier ['y']))
        (.literal (.number ⟨false, .finite (2 ^ 52) (-52)⟩))
        (.conditional (.identifier ['b']) (.identifier ['c']) (.identifier ['d'])) := by
  have name (c : Char) (h : isName [c] = true) : Bare (.identifier [c]) :=
    .identifier h fun value => by cases value <;> exact fun he => nomatch he
  have hcontent : ∀ c ∈ ['i', 't', '\'', 's', ' ', '?', ' ', '('], Text.quotedChar c = [c] := by
    have hall : (['i', 't', '\'', 's', ' ', '?', ' ', '('].all fun c => Text.quotedChar c = [c]) =
        true := by
      decide +kernel
    exact fun c hc => of_decide_eq_true (List.all_eq_true.mp hall c hc)
  have hfirst : Bare (.call (.identifier ['f'])
      [.literal (.string ['i', 't', '\'', 's', ' ', '?', ' ', '(']),
        .literal (.number ⟨true, .finite (5 * 2 ^ 50) (-51)⟩)]) := by
    refine .call (name 'f' rfl) (by decide) (List.forall_mem_cons.mpr ⟨.string hcontent, ?_⟩)
    exact List.forall_mem_singleton.mpr (.number (by decide))
  have hpath : Bare (.property (.identifier ['x']) ['t', 'r', 'u', 'e']) :=
    .property (name 'x' rfl) (by decide) rfl
  have hcall := Bare.call hfirst (by decide) (List.forall_mem_singleton.mpr hpath)
  have hminus : Bare (.unary .negate _) :=
    .unary hcall (by decide) fun _ c hc => (Option.some.inj hc : 'f' = c) ▸ rfl
  have hnot : Bare (.unary .not _) := .unary hminus (by decide) nofun
  have htest : Bare (.binary .greaterEqual _ _) :=
    .binary hnot (name 'y' rfl) (by decide) (by decide)
  have hone : Bare (.literal (.number ⟨false, .finite (2 ^ 52) (-52)⟩)) := .number (by decide)
  have hinner := Bare.conditional (name 'b' rfl) (name 'c' rfl) (name 'd' rfl)
    (by decide) (by decide)
  have hbare := Bare.conditional htest hone hinner (by decide) (by decide)
  refine Eq.trans (congrArg parse ?_) (parse_display hbare)
  decide +kernel

end Expression

end ComponentFile

import ComponentFile.Proofs.Expression.Cuts
import ComponentFile.Proofs.Expression.Numerals
import ComponentFile.Proofs.Expression.Parsing

/-!
# Written texts

The texts that writing gives have one space on either side of every infix operator and of the marks
of a choice, one space after every comma, and no other blanks. Not every one of them has a tree:
without parentheses a choice inside a choice may fall apart. But wherever such a text can be cut, it
is cut at a spaced separator, before an argument list, at a point or behind a prefix operator, and
the pieces are written texts again.
-/

namespace ComponentFile.Expression

open BinaryOperator

/-! ## Written texts -/

/-- What stands between two parts with a space on either side. -/
inductive Separator where
  | operator (op : BinaryOperator)
  | question
  | colon

namespace Separator

/-- The characters of a separator. -/
def symbol : Separator → Text
  | .operator op => op.symbol
  | .question => ['?']
  | .colon => [':']

/-- The separator between its spaces. -/
def spaced (separator : Separator) : Text := ' ' :: (separator.symbol ++ [' '])

end Separator

/-- The texts that writing gives. Parts are put together without regard to how tightly they bind. -/
inductive Written : Text → Prop
  | name {name : Text} (hname : isName name = true) : Written name
  /-- A numeral has no more digits than its number needs. -/
  | numeral {whole : Text} {fraction : Option Text} (hwhole : whole.isDigits = true)
      (hfraction : ∀ digits ∈ fraction, Text.isDigits digits = true)
      (hwrite : numberLayout.write (numeralValue false whole fraction) =
        numeral false whole fraction) :
      Written (numeral false whole fraction)
  | signed (op : UnaryOperator) {operand : Text} (hoperand : Written operand) :
      Written (op.symbol ++ operand)
  | property {object name : Text} (hobject : Written object) (hname : isName name = true) :
      Written (object ++ '.' :: name)
  | call {callee : Text} {arguments : List Text} (hcallee : Written callee)
      (harguments : ∀ argument ∈ arguments, Written argument) :
      Written (callee ++ parenthesized (Text.join [',', ' '] arguments))
  | spaced (separator : Separator) {left right : Text} (hleft : Written left)
      (hright : Written right) :
      Written (left ++ separator.spaced ++ right)

/-- Two written texts with a spaced separator between them. -/
structure Split (separator : Separator) (text left right : Text) : Prop where
  written_left : Written left
  written_right : Written right
  text_eq : text = left ++ separator.spaced ++ right

namespace Split

variable {separator : Separator} {text left right : Text}

/-- A text that goes on is cut where it was cut before. -/
theorem trail (h : Split separator text left right) {more : Text}
    (hmore : ∀ piece, Written piece → Written (piece ++ more)) :
    Split separator (text ++ more) left (right ++ more) := by
  refine ⟨h.written_left, hmore right h.written_right, ?_⟩
  rw [h.text_eq, List.append_assoc]

/-- A text with something before it is cut where it was cut before. -/
theorem lead (h : Split separator text left right) {front : Text}
    (hfront : ∀ piece, Written piece → Written (front ++ piece)) :
    Split separator (front ++ text) (front ++ left) right := by
  refine ⟨hfront left h.written_left, h.written_right, ?_⟩
  rw [h.text_eq]
  simp only [List.append_assoc]

end Split

/-! ## Shapes -/

/-- Separators and their spaces are plain. -/
theorem isPlain_spaced (separator : Separator) : ∀ c ∈ separator.spaced, isPlain c = true := by
  refine List.all_eq_true.mp ?_
  cases separator with
  | operator op => cases op <;> rfl
  | question | colon => rfl

/-- The marks of two texts with a separator between them. -/
theorem topLevel_spaced {left : Text} (hleft : Closed left) (separator : Separator) (right : Text) :
    topLevel (left ++ separator.spaced ++ right) =
      topLevel left ++ (Marked.plain separator.spaced ++ topLevel right) := by
  have hplain := isPlain_spaced separator
  rw [List.append_assoc, hleft.topLevel_append, (closed_of_isPlain hplain).topLevel_append,
    topLevel_of_isPlain hplain]

/-- A phrase can go on with a property. -/
theorem trailing_property {name : Text} (hname : isName name = true) : Trailing ('.' :: name) := by
  obtain ⟨hne, hpart⟩ := isNamePart_of_isName hname
  obtain ⟨front, c, rfl, hc⟩ := (exists_edges hne hpart).2
  refine trailing_filler (List.forall_mem_cons.mpr ⟨rfl, fun d hd => ?_⟩) ⟨'.' :: front, c, rfl, hc⟩
  exact isFiller_of_isNamePart (hpart d hd)

/-- Closed texts with commas between them are closed. -/
theorem closed_join {texts : List Text} (h : ∀ text ∈ texts, Closed text) :
    Closed (Text.join [',', ' '] texts) := by
  induction texts with
  | nil => exact closed_nil
  | cons first texts ih =>
    have hfirst := h first List.mem_cons_self
    have hrest := ih fun text hm => h text (List.mem_cons_of_mem _ hm)
    cases texts with
    | nil => exact hfirst
    | cons second texts =>
      exact (hfirst.append (closed_of_isPlain (List.all_eq_true.mp rfl))).append hrest

/-- Two phrases with a separator between them. -/
theorem Shape.spaced {left right : Text} (separator : Separator) (hleft : Shape .choice left)
    (hright : Shape .choice right) : Shape .choice (left ++ separator.spaced ++ right) where
  closed :=
    (hleft.closed.append (closed_of_isPlain (isPlain_spaced separator))).append hright.closed
  first := by
    obtain ⟨c, rest, rfl, hc⟩ := hleft.first
    exact ⟨c, _, rfl, hc⟩
  last := by
    obtain ⟨front, c, rfl, hc⟩ := hright.last
    exact ⟨left ++ separator.spaced ++ front, c, by simp only [List.append_assoc], hc⟩
  skips := fun _ hm => absurd hm List.not_mem_nil
  shown := by
    intro c hc hm
    obtain rfl := List.mem_singleton.mp hc
    have hseparator : ',' ∉ separator.spaced := by
      cases separator with
      | operator op => cases op <;> decide
      | question | colon => decide
    rw [topLevel_spaced hleft.closed, Marked.shown_append, Marked.shown_append, Marked.shown_plain,
      List.mem_append, List.mem_append] at hm
    rcases hm with hm | hm | hm
    · exact hleft.shown ',' hc hm
    · exact hseparator hm
    · exact hright.shown ',' hc hm
  unsigned := fun htight => by cases htight

namespace Written

variable {text : Text}

/-- The shape of a written text. -/
theorem shape (h : Written text) : Shape .choice text := by
  induction h with
  | name hname =>
    exact (shape_name hname).loosen (Nat.zero_le _) (by decide) fun htight => by cases htight
  | numeral hwhole hfraction _ =>
    exact (shape_numeral false hwhole hfraction).loosen (Nat.zero_le _) (by decide) fun htight => by
      cases htight
  | signed op _ ih =>
    cases op with
    | not => exact ih.prefixed ⟨[], rfl⟩ (Or.inl rfl) fun htight => by cases htight
    | negate => exact ih.prefixed ⟨[], rfl⟩ (Or.inr rfl) fun htight => by cases htight
  | property _ hname ih => exact ih.append (trailing_property hname)
  | call _ _ ihcallee iharguments =>
    exact ihcallee.append
      (trailing_parenthesized ⟨[], rfl⟩ (closed_join fun text hm => (iharguments text hm).closed))
  | spaced separator _ _ ihleft ihright => exact ihleft.spaced separator ihright

/-- The argument list of a call is closed. -/
theorem closed_arguments {arguments : List Text} (h : ∀ argument ∈ arguments, Written argument) :
    Closed (Text.join [',', ' '] arguments) :=
  closed_join fun argument hm => (h argument hm).shape.closed

/-- A written text starts with a character of names or with a prefix operator. -/
theorem exists_cons (h : Written text) :
    ∃ c rest, text = c :: rest ∧ (isNamePart c || c == '!' || c == '-') = true := by
  induction h with
  | @name name hname =>
    obtain ⟨hne, hpart⟩ := isNamePart_of_isName hname
    obtain ⟨c, rest, rfl, hc⟩ := (exists_edges hne hpart).1
    exact ⟨c, rest, rfl, by rw [hc, Bool.true_or, Bool.true_or]⟩
  | numeral hwhole _ _ =>
    obtain ⟨c, rest, hcons, hdigit⟩ := exists_numeral_eq_cons hwhole _
    exact ⟨c, rest, hcons, by simp only [isNamePart, hdigit, Bool.or_true, Bool.true_or]⟩
  | signed op _ _ => cases op <;> exact ⟨_, _, rfl, rfl⟩
  | property _ _ ih | call _ _ ih _ =>
    obtain ⟨c, rest, rfl, hc⟩ := ih
    exact ⟨c, _, rfl, hc⟩
  | spaced _ _ _ ih _ =>
    obtain ⟨c, rest, rfl, hc⟩ := ih
    exact ⟨c, _, rfl, hc⟩

end Written

/-! ## Cuts at a mark -/

/-- The text is cut at a mark between two spaces, whatever follows. -/
def CutAtMark (separator : Separator) (mark : Char) (text : Text) : Prop :=
  ∃ left right, Split separator text left right ∧
    ∀ rest, Marked.cut? mark (topLevel text ++ rest) = some (left ++ [' '],
      (' ', true) :: (topLevel right ++ rest))

namespace CutAtMark

variable {separator : Separator} {mark : Char} {text : Text}

theorem trail (h : CutAtMark separator mark text) (hclosed : Closed text) {more : Text}
    (hmore : ∀ piece, Written piece → Written (piece ++ more)) :
    CutAtMark separator mark (text ++ more) := by
  obtain ⟨left, right, hsplit, hcut⟩ := h
  refine ⟨left, right ++ more, hsplit.trail hmore, fun rest => ?_⟩
  rw [hclosed.topLevel_append, List.append_assoc, hcut,
    hsplit.written_right.shape.closed.topLevel_append, List.append_assoc]

theorem lead (h : CutAtMark separator mark text) {front : Text} (hclosed : Closed front)
    (hshown : mark ∉ (topLevel front).shown)
    (hfront : ∀ piece, Written piece → Written (front ++ piece)) :
    CutAtMark separator mark (front ++ text) := by
  obtain ⟨left, right, hsplit, hcut⟩ := h
  refine ⟨front ++ left, right, hsplit.lead hfront, fun rest => ?_⟩
  rw [hclosed.topLevel_append, List.append_assoc, Marked.cut?_append hshown, hcut, Option.map_some,
    text_topLevel, List.append_assoc]

end CutAtMark

/-- A mark of a choice and its separator. -/
def IsChoiceMark (separator : Separator) (mark : Char) : Prop :=
  mark = '?' ∧ separator = .question ∨ mark = ':' ∧ separator = .colon

namespace IsChoiceMark

variable {separator : Separator} {mark : Char}

theorem mem (h : IsChoiceMark separator mark) : mark ∈ ['?', ':', ','] := by
  rcases h with ⟨rfl, -⟩ | ⟨rfl, -⟩ <;> decide

/-- The mark stands in its own separator only. -/
theorem not_mem_spaced (h : IsChoiceMark separator mark) {other : Separator}
    (hother : other ≠ separator) :
    mark ∉ other.spaced := by
  have hblank : mark ≠ ' ' := by rcases h with ⟨rfl, -⟩ | ⟨rfl, -⟩ <;> decide
  have hsymbol : mark ∉ other.symbol := by
    cases other with
    | operator op => exact not_mem_symbol h.mem op
    | question =>
      rcases h with ⟨-, rfl⟩ | ⟨rfl, -⟩
      · exact absurd rfl hother
      · decide
    | colon =>
      rcases h with ⟨rfl, -⟩ | ⟨-, rfl⟩
      · decide
      · exact absurd rfl hother
  simp only [Separator.spaced, List.mem_cons, List.mem_append, List.not_mem_nil, or_false, not_or]
  exact ⟨hblank, hsymbol, hblank⟩

/-- Where the mark did not show before, the text is cut at its separator. -/
theorem cutAtMark (h : IsChoiceMark separator mark) {left right : Text} (hleft : Written left)
    (hright : Written right) (hshown : mark ∉ (topLevel left).shown) :
    CutAtMark separator mark (left ++ separator.spaced ++ right) := by
  refine ⟨left, right, ⟨hleft, hright, rfl⟩, fun rest => ?_⟩
  have hspaced : Marked.plain separator.spaced = (' ', true) :: (mark, true) :: [(' ', true)] := by
    rcases h with ⟨rfl, rfl⟩ | ⟨rfl, rfl⟩ <;> rfl
  have hfront : mark ∉ Marked.shown (topLevel left ++ [(' ', true)]) := by
    rw [Marked.shown_append, List.mem_append, not_or]
    refine ⟨hshown, ?_⟩
    rcases h with ⟨rfl, -⟩ | ⟨rfl, -⟩ <;> decide
  have hmarks : topLevel (left ++ separator.spaced ++ right) ++ rest =
      (topLevel left ++ [(' ', true)]) ++ (mark, true) :: (' ', true) ::
        (topLevel right ++ rest) := by
    rw [topLevel_spaced hleft.shape.closed, hspaced]
    simp only [List.append_assoc, List.cons_append, List.nil_append]
  rw [hmarks, Marked.cut?_append_cons hfront, Marked.text_append, text_topLevel]
  rfl

end IsChoiceMark

private theorem isPlain_unarySymbol (op : UnaryOperator) : ∀ c ∈ op.symbol, isPlain c = true :=
  List.all_eq_true.mp (by cases op <;> rfl)

/-- In a written text a mark of a choice does not show, or the text is cut at it. -/
theorem Written.not_mem_shown_or_cutAtMark {text : Text} (h : Written text) {separator : Separator}
    {mark : Char} (hmark : IsChoiceMark separator mark) :
    mark ∉ (topLevel text).shown ∨ CutAtMark separator mark text := by
  have hshown {left right : Text} (hclosed : Closed left) (hleft : mark ∉ (topLevel left).shown)
      (hright : mark ∉ (topLevel right).shown) : mark ∉ (topLevel (left ++ right)).shown := by
    rw [hclosed.topLevel_append, Marked.shown_append, List.mem_append, not_or]
    exact ⟨hleft, hright⟩
  induction h with
  | name hname => exact .inl ((shape_name hname).shown mark hmark.mem)
  | numeral hwhole hfraction _ =>
    exact .inl ((shape_numeral false hwhole hfraction).shown mark hmark.mem)
  | signed op _ ih =>
    have hplain := isPlain_unarySymbol op
    have hnot : mark ∉ (topLevel op.symbol).shown := by
      rw [topLevel_of_isPlain hplain, Marked.shown_plain]
      rcases hmark with ⟨rfl, -⟩ | ⟨rfl, -⟩ <;> cases op <;> decide
    have hclosed := closed_of_isPlain hplain
    exact ih.imp (hshown hclosed hnot) fun hcut => hcut.lead hclosed hnot fun _ hpiece =>
      .signed op hpiece
  | property hobject hname ih =>
    have hclosed := hobject.shape.closed
    exact ih.imp (fun hnot => hshown hclosed hnot ((trailing_property hname).shown mark hmark.mem))
      fun hcut => hcut.trail hclosed fun _ hpiece => .property hpiece hname
  | call hcallee harguments ih _ =>
    have hclosed := hcallee.shape.closed
    have htrailing := trailing_parenthesized ⟨[], rfl⟩ (closed_arguments harguments)
    exact ih.imp (fun hnot => hshown hclosed hnot (htrailing.shown mark hmark.mem))
      fun hcut => hcut.trail hclosed fun _ hpiece => .call hpiece harguments
  | @spaced other left right hleft hright ihleft ihright =>
    have hclosed := hleft.shape.closed
    have hplain := isPlain_spaced other
    rcases ihleft with hnot | hcut
    · by_cases hother : other = separator
      · subst hother
        exact .inr (hmark.cutAtMark hleft hright hnot)
      · have hfront : mark ∉ (topLevel (left ++ other.spaced)).shown := by
          refine hshown hclosed hnot ?_
          rw [topLevel_of_isPlain hplain, Marked.shown_plain]
          exact hmark.not_mem_spaced hother
        have hclosed' := hclosed.append (closed_of_isPlain hplain)
        exact ihright.imp (hshown hclosed' hfront) fun hcut =>
          hcut.lead hclosed' hfront fun _ hpiece => .spaced other hleft hpiece
    · refine .inr ?_
      rw [List.append_assoc]
      refine hcut.trail hclosed fun piece hpiece => ?_
      rw [← List.append_assoc]
      exact .spaced other hpiece hright

/-- A cut at a mark of a choice falls between two spaces. -/
theorem Written.exists_of_cut? {text before : Text} {after : Marked} (h : Written text)
    {separator : Separator} {mark : Char} (hmark : IsChoiceMark separator mark)
    (hcut : Marked.cut? mark (topLevel text) = some (before, after)) :
    ∃ left right, Split separator text left right ∧ before = left ++ [' '] ∧
      after = (' ', true) :: topLevel right := by
  rcases h.not_mem_shown_or_cutAtMark hmark with hnot | ⟨left, right, hsplit, hcuts⟩
  · rw [Marked.cut?_eq_none hnot] at hcut
    cases hcut
  · have hhere := hcuts []
    rw [List.append_nil, List.append_nil, hcut] at hhere
    obtain ⟨rfl, rfl⟩ := Prod.mk.inj (Option.some.inj hhere)
    exact ⟨left, right, hsplit, rfl, rfl⟩

/-! ## Cuts at an operator -/

/-- The text is cut at an operator of the group between two spaces, whatever follows. -/
def CutByGroup (group : List BinaryOperator) (before text : Text) : Prop :=
  ∃ op left right, Split (.operator op) text left right ∧
    ∀ rest, splitGroup? group before (topLevel text ++ rest) =
      some (op, before.reverse ++ (left ++ [' ']), ' ' :: (right ++ Marked.text rest))

namespace CutByGroup

variable {group : List BinaryOperator} {before text : Text}

theorem trail (h : CutByGroup group before text) (hclosed : Closed text) {more : Text}
    (hmore : ∀ piece, Written piece → Written (piece ++ more)) :
    CutByGroup group before (text ++ more) := by
  obtain ⟨op, left, right, hsplit, hcut⟩ := h
  refine ⟨op, left, right ++ more, hsplit.trail hmore, fun rest => ?_⟩
  rw [hclosed.topLevel_append, List.append_assoc, hcut, Marked.text_append, text_topLevel,
    List.append_assoc]

theorem lead {front : Text} (h : CutByGroup group (front.reverse ++ before) text)
    (hpass : ∀ rest, splitGroup? group before (topLevel (front ++ text) ++ rest) =
      splitGroup? group (front.reverse ++ before) (topLevel text ++ rest))
    (hfront : ∀ piece, Written piece → Written (front ++ piece)) :
    CutByGroup group before (front ++ text) := by
  obtain ⟨op, left, right, hsplit, hcut⟩ := h
  refine ⟨op, front ++ left, right, hsplit.lead hfront, fun rest => ?_⟩
  rw [hpass, hcut, List.reverse_append, List.reverse_reverse]
  simp only [List.append_assoc]

/-- An operator between two spaces, after a written text, is found. -/
theorem here (hgroup : group ∈ groups) {op : BinaryOperator} (hop : op ∈ group) {left right : Text}
    (hleft : Written left) (hright : Written right) (hskips : Skips group before (topLevel left)) :
    CutByGroup group before (left ++ (Separator.operator op).spaced ++ right) := by
  refine ⟨op, left, right, ⟨hleft, hright, rfl⟩, fun rest => ?_⟩
  obtain ⟨k, hk⟩ := List.getElem?_of_mem hgroup
  have hplace : isSignPlace (' ' :: (left.reverse ++ before)) = false := by
    rw [← hleft.shape.isSignPlace_reverse before]
    exact isSignPlace_gap ⟨[' '], rfl⟩ _
  have hfound := operator?_symbol hk hop (show isBlank ' ' = true from rfl)
    (show isBlank ' ' = true from rfl) hplace
    (topLevel right ++ rest)
  have hcut := splitGroup?_symbol hfound ?_ ?_
  · have hmarks : topLevel (left ++ (Separator.operator op).spaced ++ right) ++ rest =
        topLevel left ++
          (Marked.plain [' '] ++
            (Marked.plain op.symbol ++ (' ', true) :: (topLevel right ++ rest))) := by
      rw [topLevel_spaced hleft.shape.closed, Separator.spaced, Separator.symbol]
      simp only [Marked.plain, List.map_cons, List.map_append, List.map_nil, List.append_assoc,
        List.cons_append, List.nil_append]
    rw [hmarks, hskips, skips_filler hgroup (List.all_eq_true.mp rfl), text_topLevel,
      Marked.text_plain]
    refine hcut.trans ?_
    simp only [List.reverse_cons, List.reverse_append, List.reverse_reverse, Marked.text_cons,
      Marked.text_append, text_topLevel, List.append_assoc]
  · rw [Text.isBlankText_cons, Text.isBlankText_append, Text.isBlankText_reverse,
      hleft.shape.isBlankText_eq_false, Bool.false_and, Bool.and_false]
  · rw [Marked.text_cons, Marked.text_append, text_topLevel, Text.isBlankText_cons,
      Text.isBlankText_append, hright.shape.isBlankText_eq_false, Bool.false_and, Bool.and_false]

end CutByGroup

/-- A group skips the separators that are none of its operators. -/
private theorem skips_spaced {group : List BinaryOperator} (hgroup : group ∈ groups)
    {separator : Separator} (h : ∀ op ∈ group, separator ≠ .operator op) (before : Text) :
    Skips group before (Marked.plain separator.spaced) := by
  have hmarks : ∀ group ∈ groups, '?' ∉ starts group ∧ ':' ∉ starts group := by decide
  have hspace (before : Text) : Skips group before (Marked.plain [' ']) :=
    skips_filler hgroup (List.all_eq_true.mp rfl) before
  refine Skips.cons (fun rest => operator?_eq_none (not_mem_starts hgroup rfl) before true _) ?_
  cases separator with
  | operator op =>
    exact skips_symbol hgroup (fun hop => h op hop rfl) ⟨[' '], rfl⟩ (List.cons_ne_nil _ _) _
  | question =>
    exact Skips.cons (fun rest => operator?_eq_none (hmarks group hgroup).1 _ true _) (hspace _)
  | colon =>
    exact Skips.cons (fun rest => operator?_eq_none (hmarks group hgroup).2 _ true _) (hspace _)

private theorem isSignPlace_spaced (separator : Separator) (before : Text) :
    isSignPlace (separator.spaced.reverse ++ before) = true := by
  cases separator with
  | operator op => cases op <;> rfl
  | question | colon => rfl

/-- A prefix operator before a written text is passed over by every group. -/
theorem Written.splitGroup?_signed {text : Text} (h : Written text) (op : UnaryOperator)
    {group : List BinaryOperator} (hgroup : group ∈ groups) {before : Text}
    (hplace : isSignPlace before = true) (rest : Marked) :
    splitGroup? group before (topLevel (op.symbol ++ text) ++ rest) =
      splitGroup? group (op.symbol.reverse ++ before) (topLevel text ++ rest) := by
  have hpass {c : Char} (hc : c = '!' ∨ c = '-') (hplain : isPlain c = true) :
      splitGroup? group before (topLevel (c :: text) ++ rest) =
        splitGroup? group (c :: before) (topLevel text ++ rest) := by
    have hnone : operator? group before ((c, true) :: (topLevel text ++ rest)) = none :=
      h.shape.operator?_prefixed ⟨[], rfl⟩ hc hgroup hplace rest
    rw [topLevel_cons hplain, List.cons_append, splitGroup?, if_pos rfl, hnone]
  cases op with
  | not => exact hpass (Or.inl rfl) rfl
  | negate => exact hpass (Or.inr rfl) rfl

/-- A group of operators skips a written text, or the text is cut at one of them. -/
theorem Written.skips_or_cutByGroup {text : Text} (h : Written text) {group : List BinaryOperator}
    (hgroup : group ∈ groups) {before : Text} (hplace : isSignPlace before = true) :
    Skips group before (topLevel text) ∨ CutByGroup group before text := by
  have hall : group ∈ groups.take groups.length := by rwa [List.take_length]
  induction h generalizing before with
  | name hname => exact .inl ((shape_name hname).skips group hall before hplace)
  | numeral hwhole hfraction _ =>
    exact .inl ((shape_numeral false hwhole hfraction).skips group hall before hplace)
  | @signed op operand hoperand ih =>
    have hpass := hoperand.splitGroup?_signed op hgroup hplace
    have hsign : isSignPlace (op.symbol.reverse ++ before) = true := by cases op <;> rfl
    rcases ih hsign with hskips | hcut
    · refine .inl fun rest => ?_
      rw [hpass, hskips, text_topLevel, text_topLevel, List.reverse_append, List.append_assoc]
    · exact .inr (hcut.lead hpass fun _ hpiece => .signed op hpiece)
  | property hobject hname ih =>
    have hclosed := hobject.shape.closed
    rcases ih hplace with hskips | hcut
    · rw [hclosed.topLevel_append]
      exact .inl (hskips.append ((trailing_property hname).skips group hgroup _))
    · exact .inr (hcut.trail hclosed fun _ hpiece => .property hpiece hname)
  | call hcallee harguments ih _ =>
    have hclosed := hcallee.shape.closed
    rcases ih hplace with hskips | hcut
    · rw [hclosed.topLevel_append]
      have htrailing := trailing_parenthesized ⟨[], rfl⟩ (closed_arguments harguments)
      exact .inl (hskips.append (htrailing.skips group hgroup _))
    · exact .inr (hcut.trail hclosed fun _ hpiece => .call hpiece harguments)
  | @spaced separator left right hleft hright ihleft ihright =>
    have hclosed := hleft.shape.closed
    rcases ihleft hplace with hskips | hcut
    · by_cases hfound : ∃ op ∈ group, separator = .operator op
      · obtain ⟨op, hop, rfl⟩ := hfound
        exact .inr (.here hgroup hop hleft hright hskips)
      · have hother : ∀ op ∈ group, separator ≠ .operator op := fun op hop he =>
          hfound ⟨op, hop, he⟩
        have hfront := hskips.append (skips_spaced hgroup hother _)
        have htext : Marked.text (topLevel left ++ Marked.plain separator.spaced) =
            left ++ separator.spaced := by
          rw [Marked.text_append, text_topLevel, Marked.text_plain]
        have hsign : isSignPlace ((left ++ separator.spaced).reverse ++ before) = true := by
          rw [List.reverse_append, List.append_assoc]
          exact isSignPlace_spaced separator _
        rcases ihright hsign with hskips' | hcut
        · rw [topLevel_spaced hclosed, ← List.append_assoc]
          exact .inl (hfront.append (htext.symm ▸ hskips'))
        · refine .inr (hcut.lead (fun rest => ?_) fun _ hpiece => .spaced separator hleft hpiece)
          rw [topLevel_spaced hclosed, ← List.append_assoc, List.append_assoc, hfront, htext]
    · refine .inr ?_
      rw [List.append_assoc]
      refine hcut.trail hclosed fun piece hpiece => ?_
      rw [← List.append_assoc]
      exact .spaced separator hpiece hright

/-- A cut at an operator falls between two spaces. -/
theorem Written.exists_of_splitBinary? {text before after : Text} {op : BinaryOperator}
    (h : Written text) (hsplit : splitBinary? text = some (op, before, after)) :
    ∃ left right, Split (.operator op) text left right ∧ before = left ++ [' '] ∧
      after = ' ' :: right := by
  obtain ⟨group, hgroup, hfound⟩ := List.exists_of_findSome?_eq_some hsplit
  have hplace : isSignPlace [] = true := rfl
  rcases h.skips_or_cutByGroup hgroup hplace with hskips | ⟨other, left, right, hparts, hcut⟩
  · rw [hskips.splitGroup?_eq_none] at hfound
    cases hfound
  · have hhere := hcut []
    rw [List.append_nil, hfound] at hhere
    simp only [Option.some.injEq, Prod.mk.injEq, List.reverse_nil, List.nil_append, Marked.text_nil,
      List.append_nil] at hhere
    obtain ⟨rfl, rfl, rfl⟩ := hhere
    exact ⟨left, right, hparts, rfl, rfl⟩

end ComponentFile.Expression

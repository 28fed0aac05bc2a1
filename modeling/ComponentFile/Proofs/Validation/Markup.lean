import ComponentFile.Proofs.Validation.Tags

/-!
# Handlers on tags

The check of the markup looks for handlers in the attributes of standard tags and knows no quotes
there either: what reads as a handler counts wherever it stands in the tag. So each handler on a
standard tag is reported, each name once, and with it what reads as a handler in a value.
-/

namespace ComponentFile.Validation

open Segment

/-- A standard tag has an attribute with a value and the name of a handler. -/
def OpeningTag.Carries (tag : OpeningTag) (name : Text) : Prop :=
  tag.name ∈ standardTags ∧ ∃ attr ∈ tag.attributes, attr.value.isSome = true ∧
    IsHandler attr.name ∧ name = attr.name.toLower

/-- A value on a standard tag holds what reads as a handler. -/
def OpeningTag.Feigns (tag : OpeningTag) (name : Text) : Prop :=
  tag.name ∈ standardTags ∧ ∃ value ∈ tag.values, HoldsHandler value.text name

/-- The names of the handlers that findings report. -/
def handlerNames (findings : List Finding) : List Text :=
  findings.filterMap fun
    | .forbiddenEvent event _ _ => some event
    | _ => none

/-! ## The attributes of a tag -/

section

variable {name : Text}

/-- The name of an attribute reads as a handler if an equals sign follows it. -/
theorem TagAttribute.holdsHandler_iff (attr : TagAttribute) {rest : Text}
    (hrest : ∀ c ∈ rest.head?, isWordChar c = false) :
    HoldsHandler (attr.space ++ (attr.name ++ rest)) name ↔
      (IsHandler attr.name ∧ name = attr.name.toLower ∧ (rest.dropWhile isBlank).head? = some '=') ∨
        HoldsHandler rest name := by
  obtain ⟨front, blank, hspace, hblank, hfront⟩ := attr.exists_space
  have hword : ∀ c ∈ attr.name, isWordChar c = true :=
    fun c hc => isWordChar_of_isNameChar (attr.isNameChar_of_mem c hc)
  have hfirst : ∀ c ∈ (blank :: (attr.name ++ rest)).head?, c.isAlpha = false := by
    intro c hc
    obtain rfl : blank = c := Option.some.inj hc
    cases halpha : blank.isAlpha with
    | false => rfl
    | true =>
      rw [isBlank_of_isLetter (isLetter_of_isAlpha halpha)] at hblank
      cases hblank
  rw [hspace, List.append_assoc, List.singleton_append,
    holdsHandler_append_iff_of_blank hfront hfirst, holdsHandler_cons_iff,
    startsHandler_cons_append_iff hblank hword hrest,
    holdsHandler_append_iff_of_not_blank fun c hc => isBlank_of_isWordChar (hword c hc)]

/-- Quotes keep handlers apart. -/
theorem QuotedValue.holdsHandler_iff (value : QuotedValue) (rest : Text) :
    HoldsHandler ('=' :: value.quote :: (value.text ++ [value.quote]) ++ rest) name ↔
      HoldsHandler value.text name ∨ HoldsHandler rest name := by
  have hblank : isBlank value.quote = false := by
    rcases value.isQuote with he | he <;> rw [he] <;> rfl
  have hsigns : ∀ c ∈ ['=', value.quote], isBlank c = false := by
    rw [List.forall_mem_cons, List.forall_mem_singleton]
    exact ⟨rfl, hblank⟩
  have hletter : value.quote.isAlpha = false := by
    rcases value.isQuote with he | he <;> rw [he] <;> rfl
  have hequals : value.quote ≠ '=' := by
    rcases value.isQuote with he | he <;> rw [he] <;> decide
  have htext : '=' :: value.quote :: (value.text ++ [value.quote]) ++ rest =
      ['=', value.quote] ++ (value.text ++ value.quote :: rest) := by
    simp only [List.cons_append, List.append_assoc, List.nil_append]
  rw [htext, holdsHandler_append_iff_of_not_blank hsigns]
  exact holdsHandler_append_cons_iff hletter hblank hequals _ _

/-- Behind white space the attributes go on with a letter or end. -/
private theorem head?_dropWhile_attributes (attributes : List TagAttribute) {trailing : Text}
    (htrailing : ∀ c ∈ trailing, isBlank c = true) :
    ((attributes.flatMap TagAttribute.text ++ trailing).dropWhile isBlank).head? ≠ some '=' := by
  cases attributes with
  | nil =>
    rw [List.flatMap_nil, List.nil_append, List.dropWhile_eq_nil_iff.mpr htrailing]
    exact (Option.some_ne_none '=').symm
  | cons attr attributes =>
    obtain ⟨c, rest, hname, halpha⟩ := attr.isAlpha_head
    have hblank : ¬isBlank c = true := by
      rw [isBlank_of_isLetter (isLetter_of_isAlpha halpha)]
      exact Bool.false_ne_true
    rw [List.flatMap_cons, TagAttribute.text, List.append_assoc, List.append_assoc,
      List.append_assoc, List.dropWhile_append_of_pos attr.isBlank_of_mem, hname, List.cons_append,
      List.dropWhile_cons_of_neg hblank, List.head?_cons]
    intro he
    rw [Option.some.inj he] at halpha
    cases halpha

/-- What reads as a handler in the attributes of a tag is the name of an attribute with a value, or
stands in a value. -/
theorem holdsHandler_attributes_iff (attributes : List TagAttribute) {trailing : Text}
    (htrailing : ∀ c ∈ trailing, isBlank c = true) :
    HoldsHandler (attributes.flatMap TagAttribute.text ++ trailing) name ↔
      (∃ attr ∈ attributes, attr.value.isSome = true ∧ IsHandler attr.name ∧
          name = attr.name.toLower) ∨
        ∃ value ∈ attributes.filterMap TagAttribute.value, HoldsHandler value.text name := by
  induction attributes with
  | nil =>
    have hnothing : HoldsHandler (trailing ++ []) name ↔ HoldsHandler [] name :=
      holdsHandler_append_iff_of_blank htrailing (fun _ hc => by cases hc)
    rw [List.flatMap_nil, List.nil_append, ← List.append_nil trailing, hnothing]
    simp only [not_holdsHandler_nil, List.not_mem_nil, List.filterMap_nil, false_and,
      exists_false, or_self]
  | cons attr attributes ih =>
    rw [List.flatMap_cons, TagAttribute.text, List.append_assoc, List.append_assoc,
      List.append_assoc]
    cases hvalue : attr.value with
    | none =>
      have hhead : ∀ c ∈ (attributes.flatMap TagAttribute.text ++ trailing).head?,
          isWordChar c = false := by
        intro c hc
        rw [isWordChar, isBlank_head_attributes attributes htrailing c hc]
        rfl
      rw [List.nil_append, attr.holdsHandler_iff hhead, ih, List.filterMap_cons_none hvalue]
      simp only [head?_dropWhile_attributes attributes htrailing, and_false, false_or,
        List.mem_cons, exists_eq_or_imp, hvalue, Option.isSome_none, Bool.false_eq_true, false_and]
    | some value =>
      have hhead : ∀ c ∈ ('=' :: value.quote :: (value.text ++ [value.quote]) ++
          (attributes.flatMap TagAttribute.text ++ trailing)).head?, isWordChar c = false := by
        intro c hc
        rw [← Option.some.inj hc]
        rfl
      have hequals : (('=' :: value.quote :: (value.text ++ [value.quote]) ++
          (attributes.flatMap TagAttribute.text ++ trailing)).dropWhile isBlank).head? =
            some '=' := rfl
      rw [attr.holdsHandler_iff hhead, value.holdsHandler_iff, ih, List.filterMap_cons_some hvalue]
      simp only [hequals, and_true, List.mem_cons, exists_eq_or_imp, hvalue,
        Option.isSome_some, true_and]
      rw [or_assoc]
      exact or_congr_right or_left_comm

end

/-! ## Findings -/

theorem map_fst_startsOf {α : Type} (recognise : Recogniser α) (text : Text) :
    (startsOf recognise text).map Prod.fst = values (segments recognise text) := by
  rw [startsOf, List.map_map, ← map_fst_located 0]
  rfl

/-- The names that are reported are the first of each among the handlers. -/
theorem handlerNames_checkMarkup (base : Nat) (content : Text) :
    handlerNames (checkMarkup base content) =
      (firstOfEach [] ((startsOf standardTag content).flatMap fun tag =>
        (startsOf eventAttribute tag.1.attributes).map fun event =>
          (event.1, tag.1.name, tag.2))).map Prod.fst := by
  have htags (entries : List (Text × Nat)) :
      handlerNames (entries.map fun tag => .forbiddenTag tag.1 (base + tag.2)) = [] := by
    rw [handlerNames, List.filterMap_map, List.filterMap_eq_nil_iff]
    exact fun _ _ => rfl
  have hevents (entries : List (Text × Text × Nat)) :
      handlerNames (entries.map fun event => .forbiddenEvent event.1 event.2.1 (base + event.2.2)) =
        entries.map Prod.fst := by
    rw [handlerNames, List.filterMap_map, ← List.filterMap_eq_map]
    rfl
  rw [checkMarkup, handlerNames, List.filterMap_append]
  exact congrArg₂ _ (htags _) (hevents _)

/-- The names that are reported are those of the handlers that are read in the standard tags. -/
theorem mem_handlerNames_checkMarkup_iff (base : Nat) (content : Text) {name : Text} :
    name ∈ handlerNames (checkMarkup base content) ↔
      ∃ tag ∈ values (segments standardTag content),
        name ∈ values (segments eventAttribute tag.attributes) := by
  rw [handlerNames_checkMarkup, mem_map_fst_firstOfEach_iff]
  simp only [← map_fst_startsOf, List.mem_map, List.mem_flatMap, List.not_mem_nil,
    not_false_eq_true, and_true]
  constructor
  · rintro ⟨entry, ⟨⟨tag, start⟩, htag, ⟨event, offset⟩, hevent, rfl⟩, rfl⟩
    exact ⟨tag, ⟨(tag, start), htag, rfl⟩, (event, offset), hevent, rfl⟩
  · rintro ⟨tag, ⟨⟨tag', start⟩, htag, rfl⟩, ⟨event, offset⟩, hevent, rfl⟩
    exact ⟨(event, tag'.name, start), ⟨(tag', start), htag, (event, offset), hevent, rfl⟩, rfl⟩

/-- No name is reported twice. -/
theorem nodup_handlerNames_checkMarkup (base : Nat) (content : Text) :
    (handlerNames (checkMarkup base content)).Nodup := by
  rw [handlerNames_checkMarkup]
  exact nodup_map_fst_firstOfEach _ _

/-- The letters in a tag are those of ASCII. -/
theorem OpeningTag.isAlpha_of_isLetter (tag : OpeningTag) :
    ∀ c ∈ tag.written, isLetter c = true → c.isAlpha = true := by
  have hplain {c : Char} (h : c.toNat < 128) (hletter : isLetter c = true) : c.isAlpha = true := by
    rw [isLetter, Bool.or_eq_true, Bool.or_eq_true, beq_iff_eq, beq_iff_eq] at hletter
    rcases hletter with (hletter | rfl) | rfl
    · exact hletter
    · exact absurd h (by decide)
    · exact absurd h (by decide)
  apply tag.forall_mem_written (p := fun c => isLetter c = true → c.isAlpha = true)
  · intro c hblank hletter
    rw [isBlank_of_isLetter hletter] at hblank
    cases hblank
  · intro c hname
    have hrange := toNat_of_isNameChar hname
    exact hplain (by omega)
  · decide
  · decide
  · decide
  · exact fun value _ c hc => hplain (value.isAscii c hc)

/-- Each handler on a standard tag is reported once, and so is what reads as a handler in a value on
a standard tag, but nothing else, as long as values do not disturb the reading of tags. -/
theorem nodup_and_mem_handlerNames_checkMarkup (base : Nat) {pieces : List MarkupPiece}
    (h : ∀ tag, .opening tag ∈ pieces → tag.Undisturbed) :
    (handlerNames (checkMarkup base (markup pieces))).Nodup ∧
      ∀ name, name ∈ handlerNames (checkMarkup base (markup pieces)) ↔
        ∃ tag, .opening tag ∈ pieces ∧ (tag.Carries name ∨ tag.Feigns name) := by
  refine ⟨nodup_handlerNames_checkMarkup _ _, fun name => ?_⟩
  have hwritten (tag : OpeningTag) : name ∈ values (segments eventAttribute tag.written) ↔ _ :=
    (mem_values_eventAttribute_iff tag.isAlpha_of_isLetter).trans
      (holdsHandler_attributes_iff tag.attributes tag.isBlank_of_mem)
  rw [mem_handlerNames_checkMarkup_iff, values_standardTag_markup h]
  constructor
  · rintro ⟨standard, hstandard, hname⟩
    obtain ⟨piece, hpiece, hread⟩ := List.mem_filterMap.mp hstandard
    cases piece with
    | text chars hchars => cases hread
    | closing tag htag => cases hread
    | opening tag =>
      by_cases hmem : tag.name ∈ standardTags
      · rw [OpeningTag.standard?_of_mem hmem] at hread
        obtain rfl := Option.some.inj hread
        exact ⟨tag, hpiece, ((hwritten tag).mp hname).imp (⟨hmem, ·⟩) (⟨hmem, ·⟩)⟩
      · rw [OpeningTag.standard?_of_not_mem hmem] at hread
        cases hread
  · rintro ⟨tag, hpiece, hname⟩
    have hmem : tag.name ∈ standardTags := hname.elim And.left And.left
    refine ⟨_, List.mem_filterMap.mpr ⟨.opening tag, hpiece, OpeningTag.standard?_of_mem hmem⟩, ?_⟩
    exact (hwritten tag).mpr (hname.imp And.right And.right)

/-! ## Values that disturb -/

theorem isQuote_double : '"' = '"' ∨ '"' = '\'' := .inl rfl

/-- A standard tag with a title and a handler. -/
def titled (title : QuotedValue) : OpeningTag where
  name := ['d', 'i', 'v']
  attributes :=
    [{ space := [' '], name := ['t', 'i', 't', 'l', 'e'], value := some title
       space_ne_nil := by decide, isBlank_of_mem := List.forall_mem_singleton.mpr rfl
       isAlpha_head := ⟨_, _, rfl, rfl⟩
       isNameChar_of_mem := by simp },
     { space := [' '], name := ['o', 'n', 'C', 'l', 'i', 'c', 'k']
       value := some
         { quote := '"', text := ['x'], isQuote := isQuote_double,
           quote_not_mem := by decide, isAscii := by simp }
       space_ne_nil := by decide, isBlank_of_mem := List.forall_mem_singleton.mpr rfl
       isAlpha_head := ⟨_, _, rfl, rfl⟩
       isNameChar_of_mem := by simp }]
  trailing := []
  selfClosing := false
  name_ne_nil := by decide
  isNameChar_of_mem := by
    simp [show isBlank 'd' = false from rfl, show isBlank 'i' = false from rfl,
      show isBlank 'v' = false from rfl]
  isBlank_of_mem := nofun

theorem carries_titled (title : QuotedValue) :
    (titled title).Carries ['o', 'n', 'c', 'l', 'i', 'c', 'k'] := by
  have hstandard : ['d', 'i', 'v'] ∈ standardTags := by decide +kernel
  refine ⟨hstandard, _, List.mem_cons_of_mem _ List.mem_cons_self, rfl, ?_, by decide⟩
  exact ⟨'o', 'n', ['C', 'l', 'i', 'c', 'k'], rfl, by decide, by decide, by decide, by simp⟩

/-- A title with what reads as a handler. -/
def feignedTitle : QuotedValue where
  quote := '"'
  text := [' ', 'o', 'n', 'x', '=']
  isQuote := isQuote_double
  quote_not_mem := by decide
  isAscii := by simp

/-- The handler is reported, and the name in the title with it. -/
theorem mem_handlerNames_titled_feigned :
    ['o', 'n', 'c', 'l', 'i', 'c', 'k'] ∈
        handlerNames (checkMarkup 0 (markup [.opening (titled feignedTitle)])) ∧
      ['o', 'n', 'x'] ∈ handlerNames (checkMarkup 0 (markup [.opening (titled feignedTitle)])) := by
  have hundisturbed :
      ∀ tag, .opening tag ∈ [MarkupPiece.opening (titled feignedTitle)] → tag.Undisturbed := by
    intro tag htag
    obtain rfl := MarkupPiece.opening.inj (List.mem_singleton.mp htag)
    refine ⟨fun _ value hvalue => ?_, fun hother => absurd (carries_titled feignedTitle).1 hother⟩
    rcases List.mem_cons.mp hvalue with rfl | hvalue
    · decide
    · rw [List.mem_singleton.mp hvalue]
      decide
  have hreported := (nodup_and_mem_handlerNames_checkMarkup 0 hundisturbed).2
  constructor
  · exact (hreported _).mpr ⟨_, List.mem_singleton_self _, .inl (carries_titled feignedTitle)⟩
  · have hstandard := (carries_titled feignedTitle).1
    refine (hreported _).mpr ⟨_, List.mem_singleton_self _, .inr ⟨hstandard, feignedTitle, ?_, ?_⟩⟩
    · exact List.mem_cons_self
    · refine ⟨feignedTitle.text, ⟨' ', ['o', 'n', 'x'], [], rfl, rfl, ?_, nofun, by decide⟩,
        List.infix_rfl⟩
      exact ⟨'o', 'n', ['x'], rfl, by decide, by decide, by decide, by simp⟩

/-- A title that cuts its tag short. -/
def cuttingTitle : QuotedValue where
  quote := '"'
  text := ['a', '>', 'b']
  isQuote := isQuote_double
  quote_not_mem := by decide
  isAscii := by simp

/-- The names that are reported are not always those of the handlers on standard tags: a handler
behind a title that cuts the tag short is missed. -/
theorem not_forall_mem_handlerNames_iff_carries :
    ¬∀ (base : Nat) (pieces : List MarkupPiece),
      (handlerNames (checkMarkup base (markup pieces))).Nodup ∧
        ∀ name, name ∈ handlerNames (checkMarkup base (markup pieces)) ↔
          ∃ tag, .opening tag ∈ pieces ∧ tag.Carries name := by
  intro h
  have hmissed : handlerNames (checkMarkup 0 (markup [.opening (titled cuttingTitle)])) = [] := by
    decide +kernel
  have hreported := ((h 0 [.opening (titled cuttingTitle)]).2 _).mpr
    ⟨_, List.mem_singleton_self _, carries_titled cuttingTitle⟩
  rw [hmissed] at hreported
  cases hreported

end ComponentFile.Validation
